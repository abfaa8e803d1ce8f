import Hazard.Model.Gallery
import Hazard.Proofs.ReplayedRuns
/-!
# Replay follows paths of the model, and nothing else

A replay goes on as long as the recorded states form a path of the model. It stops at the first
state that does not continue the path, and stays there: a step that fails changes neither the
position nor what the next attempt meets.
-/

namespace Hazard

namespace Model

variable {α : Type} {model : Model α} {activations : List Activation} {states : List Bytes}
  {state : Bytes}

/-- There are no states at all, or they are those of a run. -/
def Path (model : Model α) (activations : List Activation) (states : List Bytes) : Prop :=
  states = [] ∨ ∃ last, model.Run activations states last

theorem path_nil : model.Path activations [] := .inl rfl

/-- A path goes on with a state to which a valid transition leads from its end. -/
theorem path_concat :
    model.Path activations (states ++ [state]) ↔
      model.Path activations states ∧ model.Leads activations states.getLast? state := by
  constructor
  · rintro (hnil | ⟨last, hrun⟩)
    · simp at hnil
    · generalize hall : states ++ [state] = all at hrun
      cases hrun with
      | start hstart =>
          obtain ⟨rfl, hlast⟩ := List.append_inj' (hall.trans (List.nil_append _).symm) rfl
          cases hlast
          exact ⟨path_nil, hstart⟩
      | step hrun hstep =>
          obtain ⟨rfl, htail⟩ := List.append_inj' hall rfl
          cases htail
          exact ⟨.inr ⟨_, hrun⟩, hrun.getLast? ▸ hstep⟩
  · rintro ⟨rfl | ⟨last, hrun⟩, hleads⟩
    · exact .inr ⟨state, .start hleads⟩
    · rw [hrun.getLast?] at hleads
      exact .inr ⟨state, .step hrun hleads⟩

theorem path_take_succ {position : Nat} (hstate : states[position]? = some state) :
    model.Path activations (states.take (position + 1)) ↔
      model.Path activations (states.take position) ∧
        model.Leads activations (states.take position).getLast? state := by
  rw [List.take_add_one, hstate, Option.toList_some, path_concat]

theorem Path.take (hpath : model.Path activations states) (position : Nat) :
    model.Path activations (states.take position) := by
  induction states using List.reverseRecOn generalizing position with
  | nil => simpa using hpath
  | append_singleton states last ih =>
      rcases Nat.lt_or_ge states.length position with hlt | hge
      · rw [List.take_of_length_le (by simp; omega)]
        exact hpath
      · rw [List.take_append_of_le_length hge]
        exact ih (path_concat.1 hpath).1 position

end Model

namespace Replay

variable {α : Type} {replay there : Replay α} {error : ReplayError} {fuel : Nat}

/-- What a replay says when the step at a position does not lead on, from what the model proposes
there. The last case is that of a model that breaks off instead of giving an answer. -/
inductive Blames (position : Nat) : Except StepError (List (Candidate α)) → ReplayError → Prop
  | failed (cause : ModelError) : Blames position (.error (.failure cause)) (.model position cause)
  | diverged (proposed : List (Candidate α)) :
      Blames position (.ok proposed) (.notASuccessor position)
  | misused (cause : Misuse) : Blames position (.error (.misuse cause)) (.misuse cause)

def proposedAfter (replay : Replay α) (states : List Bytes) :
    Except StepError (List (Candidate α)) :=
  (⟨replay.model, replay.activations, []⟩ : Scenario α).proposes states.getLast?

def Reaches (replay : Replay α) (position : Nat) : Prop :=
  replay.model.Path replay.activations (replay.counterexample.states.take position)

theorem stateBefore_eq_getLast? {states : List Bytes} {position : Nat}
    (hposition : position ≤ states.length) :
    stateBefore states position = (states.take position).getLast? := by
  cases position with
  | zero => rfl
  | succ position =>
      have hlt : position < states.length := hposition
      rw [List.take_succ_eq_append_getElem hlt, List.getLast?_concat, stateBefore,
        List.getD_eq_getElem _ _ hlt]

theorem proposals_snd (hposition : replay.position ≤ replay.counterexample.states.length) :
    replay.proposals.2 =
      replay.proposedAfter (replay.counterexample.states.take replay.position) := by
  rw [proposals_eq, stateBefore_eq_getLast? hposition, proposedAfter]

/-- The replay after a step that failed: the model is where it was before the step. -/
def held (replay : Replay α) : Replay α := { replay with current := replay.proposals.1 }

theorem held_proposals (replay : Replay α) : replay.held.proposals = replay.proposals := by
  obtain ⟨model, activations, counterexample, position, current⟩ := replay
  cases position with
  | zero => rfl
  | succ position => rfl

theorem held_held (replay : Replay α) : replay.held.held = replay.held := by
  rw [held, held_proposals]
  rfl

/-- A step fails if the model does not propose a valid transition to the recorded state. -/
theorem step_of_blames (replay : Replay α) {recorded : Bytes}
    (hrecorded : replay.counterexample.states[replay.position]? = some recorded)
    (hnot : ¬replay.model.Leads replay.activations
      (replay.counterexample.states.take replay.position).getLast? recorded)
    (hblames : Blames replay.position replay.proposals.2 error) :
    replay.step = (replay.held, .error error) := by
  have hposition : replay.position ≤ replay.counterexample.states.length :=
    (List.getElem?_eq_some_iff.1 hrecorded).1.le
  have hproposed := proposals_snd hposition
  rw [step, hrecorded]
  dsimp only
  generalize hafter : replay.proposals.2 = proposed at hblames hproposed
  cases hblames with
  | failed cause => rfl
  | misused cause => rfl
  | diverged proposed =>
      dsimp only
      rw [if_neg]
      · rfl
      · intro hany
        obtain ⟨candidate, hcandidate, htarget⟩ := List.any_eq_true.1 hany
        rw [Bool.and_eq_true, beq_iff_eq] at htarget
        exact hnot ⟨proposed, hproposed.symm, candidate, hcandidate, htarget⟩

theorem exists_blames (position : Nat) (proposed : Except StepError (List (Candidate α))) :
    ∃ error, Blames position proposed error := by
  rcases proposed with (cause | cause) | proposed
  · exact ⟨_, .failed cause⟩
  · exact ⟨_, .misused cause⟩
  · exact ⟨_, .diverged proposed⟩

structure Stuck (replay : Replay α) (error : ReplayError) : Prop where
  position_lt : replay.position < replay.counterexample.states.length
  reaches : replay.Reaches replay.position
  not_reaches : ¬replay.Reaches (replay.position + 1)
  blames : Blames replay.position
    (replay.proposedAfter (replay.counterexample.states.take replay.position)) error
  step_eq : replay.step = (replay, .error error)

theorem step_cases (hlt : replay.position < replay.counterexample.states.length)
    (hreaches : replay.Reaches replay.position) :
    (∃ recorded, replay.Reaches (replay.position + 1) ∧ replay.step =
      ({ replay with current := recorded, position := replay.position + 1 }, .ok recorded)) ∨
    ∃ error, replay.held.Stuck error ∧ replay.step = (replay.held, .error error) := by
  have hrecorded := List.getElem?_eq_getElem hlt
  by_cases hleads : replay.model.Leads replay.activations
      (replay.counterexample.states.take replay.position).getLast?
      replay.counterexample.states[replay.position]
  · rw [← stateBefore_eq_getLast? hlt.le] at hleads
    refine .inl ⟨_, ?_, step_of_leads hrecorded hleads⟩
    rw [stateBefore_eq_getLast? hlt.le] at hleads
    exact (Model.path_take_succ hrecorded).2 ⟨hreaches, hleads⟩
  · obtain ⟨error, hblames⟩ := exists_blames replay.position replay.proposals.2
    have hagain : replay.held.step = (replay.held, .error error) := by
      have hsame := held_proposals replay
      rw [step_of_blames replay.held hrecorded hleads (by rwa [hsame]), held_held]
    refine .inr ⟨error, ⟨hlt, hreaches, fun hon => hleads ?_, ?_, hagain⟩,
      step_of_blames replay hrecorded hleads hblames⟩
    · exact ((Model.path_take_succ hrecorded).1 hon).2
    · rw [proposals_snd hlt.le] at hblames
      exact hblames

theorem stepMany_cases (replay : Replay α)
    (hroom : replay.position + fuel ≤ replay.counterexample.states.length)
    (hreaches : replay.Reaches replay.position) :
    (replay.Reaches (replay.position + fuel) ∧ (replay.stepMany fuel).2 = .ok fuel) ∨
    ∃ there error, replay.stepMany fuel = (there, .error error) ∧ there.Stuck error ∧
      there.model = replay.model ∧ there.activations = replay.activations ∧
      there.counterexample = replay.counterexample := by
  induction fuel generalizing replay with
  | zero => exact .inl ⟨hreaches, rfl⟩
  | succ fuel ih =>
      rcases step_cases (by omega) hreaches with ⟨recorded, hnext, hstep⟩ | ⟨error, hstuck, hstep⟩
      · rcases ih { replay with current := recorded, position := replay.position + 1 }
            (by dsimp only; omega) hnext with ⟨hend, hok⟩ | ⟨there, error, herror, hthere⟩
        · refine .inl ⟨by rwa [Nat.add_assoc, Nat.add_comm 1 fuel] at hend, ?_⟩
          rw [stepMany, hstep]
          dsimp only
          generalize stepMany _ fuel = outcome at hok ⊢
          obtain ⟨final, count⟩ := outcome
          cases hok
          rfl
        · refine .inr ⟨there, error, ?_, hthere⟩
          rw [stepMany, hstep]
          dsimp only
          rw [herror]
      · refine .inr ⟨replay.held, error, ?_, hstuck, rfl, rfl, rfl⟩
        rw [stepMany, hstep]

theorem start_eq_ok {model : Model α} {counterexample : Counterexample}
    (hstart : start model counterexample = .ok replay) :
    replay.model = model ∧ replay.counterexample = counterexample ∧ replay.position = 0 := by
  obtain ⟨activations, -, hpure⟩ := bind_eq_ok.1 hstart
  cases hpure
  exact ⟨rfl, rfl, rfl⟩

/-- Once a replay can start, it goes through all recorded states exactly if they form a path of the
model. Otherwise it stops at the first state that does not continue the path: the error blames the
step to that state, the position is its index, and every later step meets the same error. -/
theorem finish_exact {model : Model α} {counterexample : Counterexample}
    (hstart : start model counterexample = .ok replay) :
    (replay.finish.2 = .ok counterexample.states.length ↔
      model.Path replay.activations counterexample.states) ∧
    (¬model.Path replay.activations counterexample.states →
      ∃ (first : Nat) (error : ReplayError),
        replay.finish.2 = .error error ∧ replay.finish.1.position = first ∧
        first < counterexample.states.length ∧
        model.Path replay.activations (counterexample.states.take first) ∧
        ¬model.Path replay.activations (counterexample.states.take (first + 1)) ∧
        Blames first (replay.proposedAfter (counterexample.states.take first)) error ∧
        ∀ count, ((fun later => later.step.1)^[count] replay.finish.1).step.2 = .error error) := by
  obtain ⟨rfl, rfl, hposition⟩ := start_eq_ok hstart
  have hfinish : replay.finish = replay.stepMany replay.counterexample.states.length := by
    rw [finish, hposition, Nat.sub_zero]
  have hbegin : replay.Reaches replay.position := by
    rw [hposition]
    exact Model.path_nil
  rcases stepMany_cases replay (by rw [hposition, Nat.zero_add]) hbegin with
    ⟨hend, hok⟩ | ⟨there, error, herror, hstuck, hmodel, hactivations, hcounterexample⟩
  · rw [Reaches, hposition, Nat.zero_add, List.take_length] at hend
    rw [hfinish, hok]
    exact ⟨⟨fun _ => hend, fun _ => rfl⟩, fun hnot => absurd hend hnot⟩
  · rw [hfinish, herror]
    obtain ⟨hlt, hreaches, hnot, hblames, hstep⟩ := hstuck
    rw [Reaches, hmodel, hactivations, hcounterexample] at hreaches hnot
    rw [proposedAfter, hmodel, hactivations, hcounterexample] at hblames
    have hbroken : ¬replay.model.Path replay.activations replay.counterexample.states :=
      fun hpath => hnot (hpath.take _)
    refine ⟨⟨fun hok => ?_, fun hpath => absurd hpath hbroken⟩, fun _ =>
      ⟨there.position, error, rfl, rfl, hcounterexample ▸ hlt, hreaches, hnot, hblames,
        fun count => ?_⟩⟩
    · cases hok
    · have hfixed : (fun later : Replay α => later.step.1)^[count] there = there :=
        Function.iterate_fixed (by rw [hstep]) count
      rw [hfixed, hstep]

def afterCrash : Counterexample where
  version := 1
  formula := "!hazard"
  faultSet := ["Crash"]
  faultActivations := [("Drift", .suppressed), ("Crash", .forced)]
  states := [[0], [2], [2], [2]]

/-- The crash itself is replayed; the controller fails in the step after it, again and again. -/
theorem finish_exact_afterCrash :
    ∃ replay, start (Model.controller : Model Rat) afterCrash = .ok replay ∧
      replay.activations = [.forced, .suppressed] ∧
      replay.finish.2 = .error (.model 2 ⟨"controller crashed"⟩) ∧
      replay.finish.1.position = 2 ∧
      (Model.controller : Model Rat).Path replay.activations [[0], [2]] ∧
      ¬(Model.controller : Model Rat).Path replay.activations [[0], [2], [2]] ∧
      ∀ count, ((fun later => later.step.1)^[count] replay.finish.1).step.2 =
        .error (.model 2 ⟨"controller crashed"⟩) := by
  have hstart : start (Model.controller : Model Rat) afterCrash =
      .ok ⟨.controller, [.forced, .suppressed], afterCrash, 0, [0]⟩ := rfl
  have hfinish : (finish ⟨(Model.controller : Model Rat), [.forced, .suppressed], afterCrash, 0,
      [0]⟩).2 = .error (.model 2 ⟨"controller crashed"⟩) := by
    decide +kernel
  have hposition : (finish ⟨(Model.controller : Model Rat), [.forced, .suppressed], afterCrash, 0,
      [0]⟩).1.position = 2 := by
    decide +kernel
  obtain ⟨hwhole, hbroken⟩ := finish_exact hstart
  obtain ⟨first, error, herror, hfirst, -, hpath, hnot, -, hlater⟩ := hbroken fun hpath => by
    rw [hwhole.2 hpath] at hfinish
    cases hfinish
  rw [hposition] at hfirst
  subst hfirst
  rw [hfinish] at herror
  cases herror
  exact ⟨_, hstart, rfl, hfinish, hposition, hpath, hnot, hlater⟩

end Replay

end Hazard
