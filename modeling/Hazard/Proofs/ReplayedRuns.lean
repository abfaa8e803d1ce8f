import Hazard.Counterexample.Replay
import Hazard.Proofs.Activations
import Hazard.Proofs.Runs
/-!
# Replay of runs

A counterexample records the states of a run and the activations it was found under, by the names
of the faults. If names are unique, a replay starts under the very activations of the run and
follows it to its last state.
-/

namespace Hazard

/-! ## Runs, position by position -/

/-- The state before a position in a list of states; nothing comes before the first. -/
def stateBefore (states : List Bytes) : (position : Nat) → Option Bytes
  | 0 => none
  | position + 1 => some (states.getD position [])

namespace Model

variable {α : Type} {model : Model α} {activations : List Activation} {states : List Bytes}
  {last : Bytes}

/-- Every state is the target of a valid transition from the one before it. -/
def Follows (model : Model α) (activations : List Activation) (states : List Bytes) : Prop :=
  ∀ position state, states[position]? = some state →
    model.Leads activations (stateBefore states position) state

theorem Run.getLast? (hrun : model.Run activations states last) :
    states.getLast? = some last := by
  cases hrun with
  | start => rfl
  | step => exact List.getLast?_concat

theorem stateBefore_append {position : Nat} (more : List Bytes) (hle : position ≤ states.length) :
    stateBefore (states ++ more) position = stateBefore states position := by
  cases position with
  | zero => rfl
  | succ position => simp [stateBefore, List.getElem?_append_left (show position < _ from hle)]

theorem stateBefore_length (hlast : states.getLast? = some last) :
    stateBefore states states.length = some last := by
  obtain ⟨others, rfl⟩ := List.getLast?_eq_some_iff.1 hlast
  simp [stateBefore]

theorem Run.follows (hrun : model.Run activations states last) :
    model.Follows activations states := by
  induction hrun with
  | @start state hstart =>
      intro position other hother
      cases position with
      | zero =>
          cases hother
          exact hstart
      | succ position => simp at hother
  | @step states before after hrun hstep ih =>
      intro position other hother
      rcases Nat.lt_trichotomy position states.length with hlt | rfl | hgt
      · rw [List.getElem?_append_left hlt] at hother
        rw [stateBefore_append _ hlt.le]
        exact ih position other hother
      · rw [stateBefore_append _ le_rfl, stateBefore_length hrun.getLast?]
        simp only [List.getElem?_concat_length, Option.some.injEq] at hother
        exact hother ▸ hstep
      · rw [List.getElem?_eq_none (by simp; omega)] at hother
        cases hother

end Model

/-! ## Steps of a replay -/

namespace Replay

variable {α : Type} {replay : Replay α}

theorem proposals_eq (replay : Replay α) :
    replay.proposals.2 = (⟨replay.model, replay.activations, []⟩ : Scenario α).proposes
      (stateBefore replay.counterexample.states replay.position) := by
  unfold proposals
  split
  · next hposition => rw [hposition]; rfl
  · next position hposition => rw [hposition]; rfl

theorem step_of_leads {recorded : Bytes}
    (hrecorded : replay.counterexample.states[replay.position]? = some recorded)
    (hleads : replay.model.Leads replay.activations
      (stateBefore replay.counterexample.states replay.position) recorded) :
    replay.step =
      ({ replay with current := recorded, position := replay.position + 1 }, .ok recorded) := by
  obtain ⟨proposed, hproposed, candidate, hcandidate, hvalid, htarget⟩ := hleads
  rw [← proposals_eq] at hproposed
  have hany : (proposed.any fun candidate =>
      candidate.valid && candidate.target == recorded) = true :=
    List.any_eq_true.2 ⟨candidate, hcandidate, by simp [hvalid, htarget]⟩
  rw [step, hrecorded]
  dsimp only
  rw [hproposed]
  dsimp only
  rw [if_pos hany]

theorem stepMany_of_follows {fuel : Nat}
    (hfollows : replay.model.Follows replay.activations replay.counterexample.states)
    (hroom : replay.position + fuel ≤ replay.counterexample.states.length) :
    (replay.stepMany fuel).2 = .ok fuel := by
  induction fuel generalizing replay with
  | zero => rfl
  | succ fuel ih =>
      have hlt : replay.position < replay.counterexample.states.length := by omega
      have hrecorded := List.getElem?_eq_getElem hlt
      have hstep := step_of_leads hrecorded (hfollows _ _ hrecorded)
      have hrest : (replay.step.1.stepMany fuel).2 = .ok fuel := by
        rw [hstep]
        exact ih hfollows (by dsimp only; omega)
      rw [hstep] at hrest
      rw [stepMany, hstep]
      dsimp only at hrest ⊢
      generalize stepMany _ fuel = outcome at hrest ⊢
      obtain ⟨final, count⟩ := outcome
      cases hrest
      rfl

theorem finish_of_follows
    (hfollows : replay.model.Follows replay.activations replay.counterexample.states)
    (hposition : replay.position = 0) :
    replay.finish.2 = .ok replay.counterexample.states.length := by
  rw [finish, hposition, Nat.sub_zero]
  exact stepMany_of_follows hfollows (by omega)

end Replay

/-! ## Recorded activations -/

namespace Replay

variable {α : Type} {model : Model α} {used activations : List Activation}

/-- Under a unique name a fault is found where it is declared. -/
theorem findIdx?_name (hnames : (model.faults.map (·.name)).Nodup) {position : Nat}
    (hlt : position < model.faults.length) :
    model.faults.findIdx? (·.name = (model.faults[position]).name) = some position := by
  rw [List.findIdx?_eq_some_iff_getElem]
  refine ⟨hlt, by simp, fun other hother => ?_⟩
  have hne := List.pairwise_iff_getElem.1 hnames other position
    (by simpa using hother.trans hlt) (by simpa using hlt) hother
  simpa using hne

theorem applyRecorded_name (hnames : (model.faults.map (·.name)).Nodup) {position : Nat}
    (hlt : position < model.faults.length) (current : List Activation) (activation : Activation) :
    applyRecorded model current ((model.faults[position]).name, activation) =
      .ok (current.set position activation) := by
  rw [applyRecorded, findIdx?_name hnames hlt]
  dsimp only
  rw [Model.activate_of_lt hlt]

/-- The recorded activations change what the given ones did, fault by fault. Given activations for
which there is no fault are not recorded and had no effect. -/
theorem foldlM_recorded (hnames : (model.faults.map (·.name)).Nodup) (offset : Nat)
    (current : List Activation)
    (hok : (used.zipIdx offset).foldlM
      (fun current entry => model.activate current entry.2 entry.1) current = .ok activations) :
    (((model.faults.drop offset).zip used).map fun entry => (entry.1.name, entry.2)).foldlM
      (applyRecorded model) current = .ok activations := by
  induction used generalizing offset current with
  | nil =>
      cases hok
      rw [List.zip_nil_right]
      rfl
  | cons activation rest ih =>
      rw [List.zipIdx_cons, List.foldlM_cons] at hok
      obtain ⟨next, hnext, hrest⟩ := bind_eq_ok.1 hok
      have hlater := ih (offset + 1) next hrest
      rcases Nat.lt_or_ge offset model.faults.length with hlt | hge
      · rw [Model.activate_of_lt hlt] at hnext
        rw [List.drop_eq_getElem_cons hlt, List.zip_cons_cons, List.map_cons, List.foldlM_cons]
        refine bind_eq_ok.2 ⟨next, ?_, hlater⟩
        cases hnext
        exact applyRecorded_name hnames hlt current activation
      · rw [List.drop_eq_nil_of_le hge, List.zip_nil_left]
        rw [List.drop_eq_nil_of_le (by omega), List.zip_nil_left] at hlater
        rw [Model.activate_of_ge hge hnext] at hlater
        exact hlater

theorem start_create (hnames : (model.faults.map (·.name)).Nodup)
    (hactivations : model.activateAll used = .ok activations) (formula : String)
    (names : List String) (states : List Bytes) :
    start model (.create formula names model.faults used states) =
      .ok ⟨model, activations, .create formula names model.faults used states, 0, model.start⟩ :=
  bind_eq_ok.2 ⟨activations, foldlM_recorded hnames 0 model.declared hactivations, rfl⟩

theorem exists_replay (hnames : (model.faults.map (·.name)).Nodup)
    (hactivations : model.activateAll used = .ok activations) (formula : String)
    (names : List String) {states : List Bytes} {last : Bytes}
    (hrun : model.Run activations states last) :
    ∃ replay, start model (.create formula names model.faults used states) = .ok replay ∧
      replay.finish.2 = .ok states.length ∧ replay.activations = activations :=
  ⟨_, start_create hnames hactivations formula names states,
    finish_of_follows hrun.follows rfl, rfl⟩

end Replay

end Hazard
