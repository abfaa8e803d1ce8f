import Hazard.Proofs.CtlOperators
/-!
# The labels of states

A checker gives every state the label of the first edge that leads there. Where all edges into a
state agree on its label, this is the label that they agree on.
-/

namespace Hazard.CtlChecker

variable {graph : StateGraph} {checker : CtlChecker} {labelling next : Labelling} {edge : Edge}
  {seen : List Edge} {states state : Nat}

def firstLabel (edges : List Edge) (state : Nat) : Label :=
  ((edges.find? (·.target == state)).map (·.label)).getD .empty

theorem firstLabel_append_of_mem (hmem : ∃ other ∈ seen, other.target = state) :
    firstLabel (seen ++ [edge]) state = firstLabel seen state := by
  obtain ⟨other, hother, htarget⟩ := hmem
  have hsome : (seen.find? (·.target == state)).isSome = true := by
    rw [List.find?_isSome]
    exact ⟨other, hother, by simpa using htarget⟩
  obtain ⟨first, hfirst⟩ := Option.isSome_iff_exists.1 hsome
  rw [firstLabel, List.find?_append, hfirst, firstLabel, hfirst]
  rfl

theorem firstLabel_append_of_ne (hne : edge.target ≠ state) :
    firstLabel (seen ++ [edge]) state = firstLabel seen state := by
  simp [firstLabel, List.find?_append, hne]

theorem firstLabel_append_new (hnew : ¬ ∃ other ∈ seen, other.target = edge.target) :
    firstLabel (seen ++ [edge]) edge.target = edge.label := by
  have hnone : seen.find? (·.target == edge.target) = none := by
    rw [List.find?_eq_none]
    intro other hother htarget
    exact hnew ⟨other, hother, by simpa using htarget⟩
  simp [firstLabel, List.find?_append, hnone]

theorem firstLabel_eq {label : Label} (hmem : ∃ edge ∈ seen, edge.target = state)
    (hagree : ∀ edge ∈ seen, edge.target = state → edge.label = label) :
    firstLabel seen state = label := by
  cases hfind : seen.find? (·.target == state) with
  | none =>
      obtain ⟨edge, hedge, htarget⟩ := hmem
      rw [List.find?_eq_none] at hfind
      exact absurd (by simpa using htarget) (hfind edge hedge)
  | some first =>
      rw [firstLabel, hfind]
      exact hagree first (List.mem_of_find?_eq_some hfind) (by simpa using List.find?_some hfind)

structure Labelling.Follows (labelling : Labelling) (states : Nat) (seen : List Edge) : Prop where
  fits : labelling.labelled.Fits states
  size_eq : labelling.labels.size = states
  contains_iff : ∀ state, labelling.labelled.contains state = true ↔
    ∃ edge ∈ seen, edge.target = state
  label_eq : ∀ state, labelling.labels.getD state .empty = firstLabel seen state

theorem follows_nothing (states : Nat) :
    Labelling.Follows ⟨Array.replicate states .empty, .empty states⟩ states [] where
  fits := StateSet.fits_empty states
  size_eq := Array.size_replicate
  contains_iff := by simp [StateSet.contains_empty]
  label_eq := by
    intro state
    simp only [Array.getD_eq_getD_getElem?, Array.getElem?_replicate]
    split <;> rfl

theorem Labelling.Follows.visit (h : labelling.Follows states seen)
    (hvisit : labelling.visit edge = .ok next) : next.Follows states (seen ++ [edge]) := by
  unfold Labelling.visit at hvisit
  split at hvisit
  · cases hvisit
  · next hinsert =>
    cases hvisit
    obtain ⟨-, hold, -⟩ := StateSet.insert_eq_ok hinsert
    have hknown : ∃ other ∈ seen, other.target = edge.target := by
      rw [← h.contains_iff]
      simpa using hold.symm
    refine ⟨h.fits, h.size_eq, fun state => ?_, fun state => ?_⟩
    · rw [h.contains_iff]
      constructor
      · rintro ⟨other, hother, htarget⟩
        exact ⟨other, by simp [hother], htarget⟩
      · rintro ⟨other, hother, rfl⟩
        rcases List.mem_append.1 hother with hother | hother
        · exact ⟨other, hother, rfl⟩
        · rw [List.mem_singleton.1 hother]
          exact hknown
    · rw [h.label_eq]
      by_cases htarget : edge.target = state
      · exact (firstLabel_append_of_mem (htarget ▸ hknown)).symm
      · exact (firstLabel_append_of_ne htarget).symm
  · next labelled hinsert =>
    cases hvisit
    obtain ⟨hlt, hnew, rfl⟩ := StateSet.insert_eq_ok hinsert
    rw [h.fits.states_eq] at hlt
    have hunknown : ¬ ∃ other ∈ seen, other.target = edge.target := by
      rw [← h.contains_iff]
      simpa using hnew
    refine ⟨h.fits.adjoin hlt, by simp [h.size_eq], fun state => ?_, fun state => ?_⟩
    · rw [h.fits.contains_adjoin hlt, h.contains_iff]
      constructor
      · rintro (rfl | ⟨other, hother, htarget⟩)
        · exact ⟨edge, by simp, rfl⟩
        · exact ⟨other, by simp [hother], htarget⟩
      · rintro ⟨other, hother, rfl⟩
        rcases List.mem_append.1 hother with hother | hother
        · exact .inr ⟨other, hother, rfl⟩
        · rw [List.mem_singleton.1 hother]
          exact .inl rfl
    · by_cases htarget : edge.target = state
      · subst htarget
        rw [firstLabel_append_new hunknown]
        simp [h.size_eq, hlt]
      · rw [firstLabel_append_of_ne htarget, ← h.label_eq]
        simp [htarget]

theorem Labelling.Follows.foldlM {rest : List Edge} (h : labelling.Follows states seen)
    (hrest : rest.foldlM Labelling.visit labelling = .ok next) :
    next.Follows states (seen ++ rest) := by
  induction rest generalizing labelling seen with
  | nil =>
      cases hrest
      simpa using h
  | cons edge rest ih =>
      rw [List.foldlM_cons] at hrest
      obtain ⟨between, hvisit, hrest⟩ := bind_eq_ok.1 hrest
      simpa using ih (h.visit hvisit) hrest

/-- The label of a state is that of the first edge into it, the initial edges before the others. -/
theorem labelOf_eq (hcreate : create graph = .ok checker) (state : Nat) :
    checker.labelOf state = firstLabel (allEdges graph) state := by
  obtain ⟨labelling, hlabelling, hchecker⟩ := bind_eq_ok.1 hcreate
  cases hchecker
  exact ((follows_nothing graph.stateCount).foldlM hlabelling).label_eq state

end Hazard.CtlChecker
