import Hazard.Proofs.Verdicts
/-!
# Criticality grows with the faults

Where a fault that may strike only adds to what a model can do, a superset of a critical set is
critical. The two explorations stop at different points and may meet different obstacles; what they
show is compared through the runs that they stand for.
-/

namespace Hazard

open Traversal Model

/-! ## Faults that become free -/

/-- Some faults that had the given activation have become nondeterministic. -/
def Freed (kind : Activation) : List Activation → List Activation → Prop :=
  List.Forall₂ fun before after => before = after ∨ before = kind ∧ after = .nondeterministic

theorem Freed.mem_foldl {kind : Activation} {tight loose : List Activation}
    (h : Freed kind tight loose) {done more : List (List Bool)}
    (hdone : ∀ strikes ∈ done, strikes ∈ more) {strikes : List Bool}
    (hstrikes : strikes ∈ tight.foldl (fun done activation => done.flatMap fun strikes =>
      activation.branches.map fun strike => strikes ++ [strike]) done) :
    strikes ∈ loose.foldl (fun done activation => done.flatMap fun strikes =>
      activation.branches.map fun strike => strikes ++ [strike]) more := by
  induction h generalizing done more with
  | nil => exact hdone strikes hstrikes
  | @cons before after tight loose hfirst _ ih =>
      have hbranches : ∀ strike ∈ before.branches, strike ∈ after.branches := by
        rcases hfirst with rfl | ⟨-, rfl⟩
        · exact fun _ hstrike => hstrike
        · exact fun strike _ => by cases strike <;> decide
      refine ih ?_ hstrikes
      intro others hothers
      obtain ⟨first, hfirst, hothers⟩ := List.mem_flatMap.1 hothers
      obtain ⟨strike, hstrike, rfl⟩ := List.mem_map.1 hothers
      exact List.mem_flatMap.2 ⟨first, hdone first hfirst,
        List.mem_map.2 ⟨strike, hbranches strike hstrike, rfl⟩⟩

theorem Freed.mem_combinations {kind : Activation} {tight loose : List Activation}
    (h : Freed kind tight loose) {strikes : List Bool}
    (hstrikes : strikes ∈ Activation.combinations tight) :
    strikes ∈ Activation.combinations loose :=
  h.mem_foldl (fun _ hstrikes => hstrikes) hstrikes

theorem freed_set {kind : Activation} {activations : List Activation} {position : Nat}
    (h : activations[position]? = some kind) :
    Freed kind activations (activations.set position .nondeterministic) := by
  induction activations generalizing position with
  | nil => cases h
  | cons first rest ih =>
      cases position with
      | zero =>
          cases h
          exact .cons (.inr ⟨rfl, rfl⟩) (List.forall₂_same.2 fun _ _ => .inl rfl)
      | succ position => exact .cons (.inl rfl) (ih h)

/-! ## Models that grow with their faults -/

namespace Model

variable {α : Type} {model : Model α} {tight between loose : List Activation}
  {predicate : Predicate}

/-- Under the second activations a model can do whatever it could under the first, or fails. -/
structure Exceeds (model : Model α) (tight loose : List Activation) : Prop where
  covers : model.Covers tight loose
  fails : ∀ source, model.Fails tight source → model.Fails loose source

theorem Exceeds.refl (model : Model α) (activations : List Activation) :
    model.Exceeds activations activations :=
  ⟨fun _ _ => .inl, fun _ => id⟩

theorem Exceeds.trans (h : model.Exceeds tight between) (h' : model.Exceeds between loose) :
    model.Exceeds tight loose := by
  refine ⟨fun source target hleads => ?_,
    fun source hfails => h'.fails source (h.fails source hfails)⟩
  rcases h.covers source target hleads with hbetween | hfails
  · exact h'.covers source target hbetween
  · exact .inr (h'.fails source hfails)

theorem Exceeds.endangered (h : model.Exceeds tight loose)
    (hendangered : model.Endangered tight predicate) : model.Endangered loose predicate := by
  rcases hendangered with hviolates | ⟨source, hmet, hfails⟩
  · exact h.covers.endangered hviolates
  · rcases h.covers.met hmet with hmet | hother
    · exact .inr ⟨source, hmet, h.fails source hfails⟩
    · exact .inr hother

/-- A fault that may strike where it could not before only adds valid targets, in every state and
initially, or makes the model fail; it mends no failure. -/
def FaultMonotone (model : Model α) : Prop :=
  ∀ activations position, activations.length = model.faults.length →
    activations[position]? = some .suppressed →
      model.Exceeds activations (activations.set position .nondeterministic)

/-- What one fault adds, several faults add one after the other. -/
theorem FaultMonotone.exceeds_append (h : model.FaultMonotone)
    (hfreed : Freed .suppressed tight loose) (done : List Activation)
    (hlength : (done ++ tight).length = model.faults.length) :
    model.Exceeds (done ++ tight) (done ++ loose) := by
  induction hfreed generalizing done with
  | nil => exact .refl model _
  | @cons before after tight loose hfirst _ ih =>
      have hrest : ∀ activation, (done ++ [activation] ++ tight).length = model.faults.length := by
        intro activation
        simpa using hlength
      rcases hfirst with rfl | ⟨rfl, rfl⟩
      · simpa using ih (done ++ [before]) (hrest before)
      · have hstep := h (done ++ .suppressed :: tight) done.length hlength (by simp)
        have hset : (done ++ .suppressed :: tight).set done.length .nondeterministic =
            done ++ .nondeterministic :: tight := by
          simp
        rw [hset] at hstep
        exact hstep.trans (by simpa using ih (done ++ [.nondeterministic]) (hrest _))

theorem FaultMonotone.exceeds (h : model.FaultMonotone) (hfreed : Freed .suppressed tight loose)
    (hlength : tight.length = model.faults.length) : model.Exceeds tight loose :=
  h.exceeds_append hfreed [] hlength

theorem freed_activationsUnder (model : Model α) {small large : FaultSet}
    (hsub : small.isSubset large = true) :
    Freed .suppressed (model.activationsUnder small .nondeterministic)
      (model.activationsUnder large .nondeterministic) := by
  unfold Freed activationsUnder
  rw [List.forall₂_map_left_iff, List.forall₂_map_right_iff, List.forall₂_same]
  rintro ⟨fault, position⟩ -
  have hmember := (IndexSet.isSubset_iff.1 hsub) position
  by_cases hfree : fault.activation = .nondeterministic
  · cases hsmall : small.contains position with
    | true => simp [hfree, hmember hsmall]
    | false => cases hlarge : large.contains position <;> simp [hfree, hsmall, hlarge]
  · simp [hfree]

end Model

/-! ## Checks of two sets -/

namespace Inquiry

variable {α : Type} [Scalar α]

end Inquiry

namespace Model

theorem wellSized_crashOrDrift : crashOrDrift.WellSized :=
  fun _ _ _ hproposed candidate hcandidate =>
    (candidates_crashOrDrift hproposed candidate hcandidate).2

theorem faultMonotone_crashOrDrift : crashOrDrift.FaultMonotone := by
  intro activations position hlength hsuppressed
  have hfreed := freed_set hsuppressed
  generalize activations.set position .nondeterministic = loose at hfreed ⊢
  constructor
  · rintro source target ⟨proposed, hproposed, candidate, hcandidate, hvalid, rfl⟩
    refine .inl ?_
    cases source with
    | none => exact ⟨proposed, hproposed, candidate, hcandidate, hvalid, rfl⟩
    | some state =>
        unfold Scenario.proposes crashOrDrift controller at hproposed
        dsimp only at hproposed
        split at hproposed
        · next hstart =>
          cases hproposed
          obtain ⟨strikes, hstrikes, rfl⟩ := List.mem_map.1 hcandidate
          exact ⟨_, if_pos hstart, _,
            List.mem_map.2 ⟨strikes, hfreed.mem_combinations hstrikes, rfl⟩, hvalid, rfl⟩
        · next hstart => exact ⟨proposed, (if_neg hstart).trans hproposed, candidate, hcandidate,
            hvalid, rfl⟩
  · intro source hfails proposed hproposed
    cases source with
    | none => exact hfails proposed hproposed
    | some state =>
        by_cases hstart : state.getD 0 0 == 0
        · exact hfails _ (if_pos hstart)
        · exact hfails proposed ((if_neg hstart).trans ((if_neg hstart).symm.trans hproposed))

end Model

end Hazard
