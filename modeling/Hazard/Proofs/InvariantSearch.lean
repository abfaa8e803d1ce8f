import Hazard.Invariant
import Hazard.Proofs.Runs
/-!
# Invariant checking is exact

The search for a violation goes on as long as all stored states satisfy the invariant. A state that
violates it is therefore new when it is met, and its parent is the source that is being expanded;
no run to a violation is shorter than the way back from there.
-/

namespace Hazard

namespace Model

variable {α : Type}

def Refutes (model : Model α) (activations : List Activation) (invariant : Formula)
    (states : List Bytes) : Prop :=
  ∃ last, model.Run activations states last ∧
    ¬ invariant.HoldsAt (model.system activations) last

def RefutesShortest (model : Model α) (activations : List Activation) (invariant : Formula)
    (states : List Bytes) : Prop :=
  model.Refutes activations invariant states ∧
    ∀ others, model.Refutes activations invariant others → states.length ≤ others.length

end Model

namespace Traversal

variable {α : Type} {model : Model α} {activations : List Activation} {invariant : Formula}
  {predicate : Predicate} {capacity room steps : Nat} {origin : Origin}
  {batch : List (Transition α)} {added : List Bytes} {before after : Exploration (Option Nat)}
  {vectors : Array Bytes}

/-! ## What a batch tells -/

theorem violationObserver_cases {violation next : Option Nat} {verdict : Verdict}
    (h : (violationObserver predicate).observe violation origin batch = (next, .ok verdict)) :
    (verdict = .proceed ∧ next = violation ∧
      ∀ transition ∈ batch, predicate.evaluate transition.label = true) ∨
    (verdict = .stop ∧ ∃ transition ∈ batch, predicate.evaluate transition.label = false ∧
      next = (violation <|> some transition.target)) := by
  unfold violationObserver at h
  dsimp only at h
  split at h
  · next transition hfind =>
    cases h
    exact .inr ⟨rfl, transition, List.mem_of_find?_eq_some hfind,
      by simpa using List.find?_some hfind, rfl⟩
  · next hfind =>
    cases h
    exact .inl ⟨rfl, rfl, by simpa using hfind⟩

theorem exists_labelled [Scalar α] (hnever : model.NeverStutters)
    (hregular : ∀ vector ∈ vectors, ∃ state, vector = regular :: state)
    (hbatch : (⟨model, activations, []⟩ : Scenario α).IsBatch vectors origin batch)
    {transition : Transition α} (htransition : transition ∈ batch) :
    ∃ state, vectors[transition.target]? = some (regular :: state) ∧
      transition.label = model.label state := by
  cases hbatch with
  | offered _ hoffers hreports =>
      obtain ⟨proposed, hproposed, rfl⟩ := hoffers
      obtain ⟨candidate, hcandidate, hreport⟩ :=
        Scenario.exists_related hreports.flip htransition
      obtain ⟨original, horiginal, -, rfl⟩ := Model.mem_counted.1 hcandidate
      have hplain := hnever activations _ proposed hproposed original horiginal
      refine ⟨original.target, ?_, hreport.label⟩
      rw [hreport.target]
      simp [image, hplain]
  | stuttering hindex =>
      obtain ⟨state, hstate⟩ := hregular _ (Array.mem_of_getElem? hindex)
      exact absurd hstate (Scenario.stutter_ne_regular _ state)

/-! ## The search -/

def searchPlan (model : Model α) (activations : List Activation) (predicate : Predicate)
    (capacity : Nat) : Plan α (Option Nat) :=
  ⟨model, activations, [], violationObserver predicate, capacity⟩

def Safe (model : Model α) (activations : List Activation) (invariant : Formula)
    (vectors : Array Bytes) : Prop :=
  ∀ state, regular :: state ∈ vectors → invariant.HoldsAt (model.system activations) state

/-- A search that has expanded all states without a violation has seen the end of every run. -/
theorem holds_of_explored (hnever : model.NeverStutters) {storage : Storage}
    {parents : Array Origin}
    (hdiscovered : Discovered ⟨model, activations, []⟩ (storage.vectors.size + 1) storage.vectors
      parents)
    (hsafe : Safe model activations invariant storage.vectors) {states : List Bytes}
    {last : Bytes} (hrun : model.Run activations states last) :
    invariant.HoldsAt (model.system activations) last := by
  rcases hdiscovered.run_cases hnever (Nat.succ_pos _) hrun with
    ⟨index, hindex, -⟩ | ⟨index, hindex, hopen, -⟩
  · exact hsafe last (Array.mem_of_getElem? hindex)
  · have hge : storage.vectors.size ≤ index := Nat.le_of_succ_le_succ hopen
    omega

variable [Scalar α]

/-- Where a search is after so many expansions: it has met no violation yet, or it has ended with
one that no run reaches sooner. -/
inductive Searched (model : Model α) (activations : List Activation) (invariant : Formula)
    (plan : Plan α (Option Nat)) (room steps : Nat) (exploration : Exploration (Option Nat)) : Prop
  | underway {stream : List (Origin × List (Transition α))}
      (hroom : exploration.storage.capacity = room)
      (hgoes : exploration.agenda.stopped = false) (hwatcher : exploration.agenda.watcher = none)
      (hexplored : Explored plan none steps stream exploration)
      (hdiscovered : Discovered plan.scenario (steps + 1) exploration.storage.vectors
        exploration.parents)
      (hsafe : Safe model activations invariant exploration.storage.vectors)
  | ended {index : Nat} (hstopped : exploration.agenda.stopped = true)
      (hwatcher : exploration.agenda.watcher = some index)
      (hshortest : model.RefutesShortest activations invariant
        (trace exploration.storage exploration.parents index))

section Step

variable (hexpands : Expands (searchPlan model activations predicate capacity) origin batch added
    before after)
  (hdiscovered : Discovered ⟨model, activations, []⟩ (rank origin) before.storage.vectors
    before.parents)
  (hdone : rank origin ≤ before.storage.vectors.size)
  (hsafe : Safe model activations invariant before.storage.vectors)

include hexpands hdiscovered hdone hsafe

theorem trace_of_violation {index : Nat} {state : Bytes}
    (hindex : after.storage.vectors[index]? = some (regular :: state))
    (hviolates : ¬ invariant.HoldsAt (model.system activations) state) :
    trace after.storage after.parents index =
      wayTo after.storage after.parents origin ++ [state] := by
  have hafter := hdiscovered.step hexpands hdone
  apply hafter.trace_eq hindex
  rcases Scenario.getElem?_append_cases hexpands.vectors hindex with hold | ⟨-, hnew⟩
  · exact absurd (hsafe state (Array.mem_of_getElem? hold)) hviolates
  · exact hdiscovered.parent_step hexpands hindex hnew

variable (hnever : model.NeverStutters)

include hnever

theorem refutesShortest_of_expands {index : Nat} {state : Bytes}
    (hindex : after.storage.vectors[index]? = some (regular :: state))
    (hviolates : ¬ invariant.HoldsAt (model.system activations) state) :
    model.RefutesShortest activations invariant (trace after.storage after.parents index) := by
  have hafter : Discovered ⟨model, activations, []⟩ (rank origin + 1) after.storage.vectors
      after.parents := hdiscovered.step hexpands hdone
  refine ⟨⟨state, hafter.run_trace hnever hindex, hviolates⟩, ?_⟩
  rintro others ⟨last, hrun, hlast⟩
  rw [trace_of_violation hexpands hdiscovered hdone hsafe hindex hviolates]
  -- its end is another child of the expanded origin, or it passes beyond a later origin
  rcases hafter.run_cases hnever (Nat.succ_pos _) hrun with
    ⟨other, hother, hlength⟩ | ⟨other, hother, hopen, hlength⟩
  · rw [trace_of_violation hexpands hdiscovered hdone hsafe hother hlast] at hlength
    simpa using hlength
  · have hregular := hafter.regular_of_mem hnever
    have hsize : rank (some other) ≤ after.storage.vectors.size := hother
    have hway : (wayTo after.storage after.parents origin).length ≤
        (trace after.storage after.parents other).length :=
      hafter.length_wayTo_le hregular hsize (Nat.le_of_succ_le hopen)
    simp only [List.length_append, List.length_singleton]
    omega

variable (hmeans : ∀ state, predicate.evaluate (model.label state) = true ↔
  invariant.HoldsAt (model.system activations) state)

include hmeans

theorem safe_of_expands
    (hpasses : ∀ transition ∈ batch, predicate.evaluate transition.label = true) :
    Safe model activations invariant after.storage.vectors := by
  have hafter := hdiscovered.step hexpands hdone
  intro state hstate
  obtain ⟨index, hindex⟩ := Array.getElem?_of_mem hstate
  rcases Scenario.getElem?_append_cases hexpands.vectors hindex with hold | ⟨hnew, -⟩
  · exact hsafe state (Array.mem_of_getElem? hold)
  · obtain ⟨source, hsource, hyields⟩ := hexpands.yields _ hnew
    obtain ⟨transition, htransition, htarget⟩ :=
      hexpands.isBatch.exists_transition (hsource.append hexpands.vectors) hyields
    obtain ⟨other, hother, hlabel⟩ := exists_labelled hnever (hafter.regular_of_mem hnever)
      hexpands.isBatch htransition
    rw [htarget] at hother
    cases hother
    rw [← hmeans, ← hlabel]
    exact hpasses transition htransition

theorem searched_of_expands {stream : List (Origin × List (Transition α))}
    (hexplored : Explored (searchPlan model activations predicate capacity) none (rank origin)
      stream after)
    (hroom : before.storage.capacity = room) (hgoes : before.agenda.stopped = false)
    (hwatcher : before.agenda.watcher = none) :
    Searched model activations invariant (searchPlan model activations predicate capacity) room
      (rank origin) after := by
  have hafter := hdiscovered.step hexpands hdone
  obtain ⟨verdict, hshown, hstopped⟩ := hexpands.shown
  rw [hwatcher] at hshown
  rw [hgoes, Bool.false_or] at hstopped
  rcases violationObserver_cases hshown with
    ⟨rfl, hnext, hpasses⟩ | ⟨rfl, transition, htransition, hviolates, hnext⟩
  · exact .underway (hexpands.capacity.trans hroom) hstopped hnext hexplored hafter
      (safe_of_expands hexpands hdiscovered hdone hsafe hnever hmeans hpasses)
  · obtain ⟨state, hstate, hlabel⟩ := exists_labelled hnever (hafter.regular_of_mem hnever)
      hexpands.isBatch htransition
    have hlast : ¬ invariant.HoldsAt (model.system activations) state := by
      rw [← hmeans, ← hlabel, hviolates]
      decide
    exact .ended hstopped hnext
      (refutesShortest_of_expands hexpands hdiscovered hdone hsafe hnever hstate hlast)

end Step

/-! ## The whole search -/

section Search

variable (hnever : model.NeverStutters)
  (hmeans : ∀ state, predicate.evaluate (model.label state) = true ↔
    invariant.HoldsAt (model.system activations) state)

include hnever hmeans

theorem searched_initial {storage : Storage} (hsound : storage.Sound)
    (hempty : storage.vectors = #[])
    (h : expandInitial (searchPlan model activations predicate capacity)
      ⟨storage, #[], ⟨[], 0, false, none⟩⟩ = .ok after) :
    Searched model activations invariant (searchPlan model activations predicate capacity)
      storage.capacity 0 after := by
  obtain ⟨batch, added, hexpands⟩ := expands_of_expandInitial hsound h
  have hdiscovered : Discovered ⟨model, activations, []⟩ (rank none) storage.vectors #[] := by
    rw [hempty]
    exact discovered_nothing _
  have hsafe : Safe model activations invariant storage.vectors := by
    intro state hstate
    simp [hempty] at hstate
  exact searched_of_expands hexpands hdiscovered (Nat.zero_le _) hsafe hnever hmeans
    (explored_of_initial hexpands hempty rfl) rfl rfl rfl

theorem Searched.step {source : Nat} {rest : List Nat}
    (hbefore : Searched model activations invariant
      (searchPlan model activations predicate capacity) room steps before)
    (hpending : before.agenda.pending = source :: rest) (hgoes : before.agenda.stopped = false)
    (hexpand : expand (searchPlan model activations predicate capacity) (pop before rest) source =
      .ok after) :
    Searched model activations invariant (searchPlan model activations predicate capacity) room
      (steps + 1) after := by
  cases hbefore with
  | underway hroom _ hwatcher hexplored hdiscovered hsafe =>
      obtain ⟨batch, added, hexpands⟩ := hexplored.expands hexpand
      have hnext := hexplored.step hpending hexpands
      obtain ⟨rfl, hlt, -⟩ := hexplored.source_eq hpending
      rw [hexplored.sound.size_eq] at hlt
      exact searched_of_expands hexpands hdiscovered hlt hsafe hnever hmeans hnext hroom
        hgoes hwatcher
  | ended hstopped => exact absurd (hgoes.symm.trans hstopped) (by decide)

end Search

end Traversal

namespace Model

variable {α : Type} [Scalar α] {model : Model α} {config : TraversalConfig}
  {given : Option (List Activation)} {invariant : Formula} {predicate : Predicate}

theorem exists_searched (hnever : model.NeverStutters)
    (hcompile : Predicate.compile invariant model.propositions = .ok predicate)
    {space : StateSpace} {violation : Option Nat}
    (h : traverse model config { activations := given } (violationObserver predicate) none =
      .ok (space, violation)) :
    ∃ activations, model.activateAll (given.getD []) = .ok activations ∧
      (violation = none ∧ (∀ states last, model.Run activations states last →
        invariant.HoldsAt (model.system activations) last) ∨
      ∃ index, violation = some index ∧ model.RefutesShortest activations invariant
        (Traversal.trace space.storage space.parents index)) := by
  obtain ⟨activations, storage, started, done, hactivations, hlimit, hsound, hempty, hcapacity,
    hstarted, hdone, rfl, rfl⟩ := Traversal.traverse_eq_ok h
  have hmeans (state : Bytes) : predicate.evaluate (model.label state) = true ↔
      invariant.HoldsAt (model.system activations) state :=
    Predicate.evaluate_iff hcompile (describes_label hlimit state)
  refine ⟨activations, hactivations, ?_⟩
  have hstart := Traversal.searched_initial hnever hmeans hsound hempty hstarted
  have hkept := Traversal.run_keeps (motive := Traversal.Searched model activations invariant
    (Traversal.searchPlan model activations predicate config.transitionCapacity)
    storage.capacity) ?_ hstart hdone
  · obtain ⟨last, hlast, hend⟩ := hkept
    cases hlast with
    | underway hroom hgoes hwatcher hexplored hdiscovered hsafe =>
        rw [← hcapacity, ← hroom] at hend
        have hall := hexplored.steps_eq hgoes hend
        rw [hexplored.sound.size_eq] at hall
        subst hall
        exact .inl ⟨hwatcher, fun _ _ => Traversal.holds_of_explored hnever hdiscovered hsafe⟩
    | @ended index _ hwatcher hshortest => exact .inr ⟨index, hwatcher, hshortest⟩
  · intro steps before source rest after hbefore hpending hgoes hexpand
    exact hbefore.step hnever hmeans hpending hgoes hexpand

theorem checkInvariant_eq_ok {result : InvariantResult}
    (h : model.checkInvariant config invariant given = .ok result) :
    ∃ predicate space violation,
      Predicate.compile invariant model.propositions = .ok predicate ∧
      traverse model config { activations := given } (violationObserver predicate) none =
        .ok (space, violation) ∧
      result.counterexample.map (·.states) =
        violation.map (Traversal.trace space.storage space.parents) := by
  rw [checkInvariant] at h
  split at h
  · cases h
  · next predicate hcompile =>
    obtain ⟨⟨space, violation⟩, hspace, hresult⟩ := bind_eq_ok.1 h
    cases hresult
    refine ⟨predicate, space, violation, hcompile, hspace, ?_⟩
    cases violation <;> rfl

/-- Invariant checking says whether all runs under the given activations, and the declared ones for
the faults without a given one, keep the invariant, and shows a shortest one that does not. -/
theorem checkInvariant_exact (model : Model α) (config : TraversalConfig) (invariant : Formula)
    (given : Option (List Activation)) (result : InvariantResult) (hnever : model.NeverStutters)
    (hrun : model.checkInvariant config invariant given = .ok result) :
    ∃ activations, model.activateAll (given.getD []) = .ok activations ∧
      activations = (given.getD []).take model.faults.length ++
        model.declared.drop (given.getD []).length ∧
      (result.holds = true ↔ ∀ states last, model.Run activations states last →
        invariant.HoldsAt (model.system activations) last) ∧
      (result.holds = false → ∃ counterexample, result.counterexample = some counterexample ∧
        model.RefutesShortest activations invariant counterexample.states) := by
  obtain ⟨predicate, space, violation, hcompile, hspace, hstates⟩ := checkInvariant_eq_ok hrun
  obtain ⟨activations, hactivations, hend⟩ := exists_searched hnever hcompile hspace
  refine ⟨activations, hactivations, activateAll_eq_ok hactivations, ?_⟩
  unfold InvariantResult.holds
  rcases hend with ⟨rfl, hholds⟩ | ⟨index, rfl, hshortest⟩
  · have hnone : result.counterexample = none := by simpa using hstates
    rw [hnone]
    exact ⟨⟨fun _ => hholds, fun _ => rfl⟩, fun h => absurd h (by decide)⟩
  · obtain ⟨counterexample, hsome, htrace⟩ := Option.map_eq_some_iff.1 hstates
    rw [hsome]
    refine ⟨⟨fun h => absurd h (by simp), fun hholds => ?_⟩, fun _ => ⟨counterexample, rfl, ?_⟩⟩
    · obtain ⟨⟨last, hlast, hviolates⟩, -⟩ := hshortest
      exact absurd (hholds _ last hlast) hviolates
    · rw [htrace]
      exact hshortest

/-- A walk that takes one or two steps at a time, and only one if it limps. -/
def strides : Model Rat where
  stateSize := 1
  propositions := ["there"]
  faults := [{ name := "Limp" }]
  start := [0]
  holds state _ := state == [4]
  initial _ := .ok [{ target := [4], probability := 1, valid := false },
    { target := [0], probability := 1 }]
  step activations
    | [place] => .ok (if place < 4 then
        [{ target := [place + 1], probability := 1 / 2 },
          { target := [place + 2], probability := 1 / 2, valid := activations != [.forced] }]
        else [{ target := [place], probability := 1 }])
    | _ => .ok []
  refuse _ := none

theorem neverStutters_strides : strides.NeverStutters := by
  intro activations source proposed hproposed candidate hcandidate
  cases source with
  | none =>
      cases hproposed
      simp only [List.mem_cons, List.not_mem_nil, or_false] at hcandidate
      rcases hcandidate with rfl | rfl <;> rfl
  | some state =>
      unfold Scenario.proposes strides at hproposed
      dsimp only at hproposed
      split at hproposed
      · cases hproposed
        split at hcandidate
        · simp only [List.mem_cons, List.not_mem_nil, or_false] at hcandidate
          rcases hcandidate with rfl | rfl <;> rfl
        · rw [List.mem_singleton.1 hcandidate]
      · cases hproposed
        simp at hcandidate

/-- A walk that limps all the time takes four steps. -/
theorem checkInvariant_exact_strides :
    ∃ result counterexample,
      strides.checkInvariant { stateCapacity := 8 } (.not (.atom "there")) (some [.forced]) =
        .ok result ∧
      result.counterexample = some counterexample ∧
      counterexample.states = [[0], [1], [2], [3], [4]] ∧
      strides.RefutesShortest [.forced] (.not (.atom "there")) counterexample.states := by
  have hstates : ((strides.checkInvariant { stateCapacity := 8 } (.not (.atom "there"))
      (some [.forced])).toOption.bind (·.counterexample)).map (·.states) =
        some [[0], [1], [2], [3], [4]] := by
    decide +kernel
  cases hrun : strides.checkInvariant { stateCapacity := 8 } (.not (.atom "there"))
      (some [.forced]) with
  | error error =>
      rw [hrun] at hstates
      cases hstates
  | ok result =>
      rw [hrun] at hstates
      obtain ⟨counterexample, hsome, hstates⟩ := Option.map_eq_some_iff.1 hstates
      have hcounterexample : result.counterexample = some counterexample := hsome
      obtain ⟨_, -, rfl, -, hfound⟩ := checkInvariant_exact strides { stateCapacity := 8 }
        (.not (.atom "there")) (some [.forced]) result neverStutters_strides hrun
      obtain ⟨other, hother, hshortest⟩ := hfound (by simp [InvariantResult.holds, hcounterexample])
      rw [hcounterexample] at hother
      cases hother
      exact ⟨result, counterexample, rfl, hcounterexample, hstates, hshortest⟩

end Model

end Hazard
