import Hazard.Analysis.Script
import Hazard.Proofs.RecordedCounterexamples
/-!
# Results fit together

The parts of a result are collected apart: critical sets, the sets that were explored,
counterexamples and failures of the model. Whatever heuristics suggest, every exploration leaves
them in step, and what is reported in the end inherits it.
-/

namespace Hazard

def FaultSet.Ascends (sets : List FaultSet) : Prop :=
  sets.Pairwise fun left right => left.bits < right.bits

namespace FaultSet

theorem ascends_insertSorted {sets : List FaultSet} (h : Ascends sets) (set : FaultSet) :
    Ascends (insertSorted set sets) := by
  induction sets with
  | nil => exact List.pairwise_singleton _ set
  | cons first rest ih =>
      obtain ⟨hfirst, hrest⟩ := List.pairwise_cons.1 h
      rw [insertSorted]
      split
      · next hless =>
        refine List.pairwise_cons.2 ⟨fun other hother => ?_, h⟩
        rcases List.mem_cons.1 hother with rfl | hother
        · exact hless
        · exact UInt64.lt_trans hless (hfirst other hother)
      · next hnot =>
        split
        · exact h
        · next hne =>
          have hbits : set.bits ≠ first.bits := fun heq => hne (congrArg IndexSet.mk heq)
          have hless : first.bits < set.bits :=
            UInt64.lt_of_le_of_ne (UInt64.not_lt.1 hnot) hbits.symm
          refine List.pairwise_cons.2 ⟨fun other hother => ?_, ih hrest⟩
          rcases mem_insertSorted.1 hother with rfl | hother
          · exact hless
          · exact hfirst other hother

theorem ascends_mergeSort {sets : List FaultSet} (h : sets.Nodup) :
    Ascends (sets.mergeSort IndexSet.le) := by
  have hnodup : (sets.mergeSort IndexSet.le).Nodup :=
    (List.mergeSort_perm sets IndexSet.le).nodup_iff.2 h
  refine (pairwise_mergeSort_le sets).imp₂ ?_ hnodup
  intro left right hle hne
  have hbits : left.bits ≠ right.bits := fun heq => hne (congrArg IndexSet.mk heq)
  exact UInt64.lt_of_le_of_ne (by simpa [IndexSet.le] using hle) hbits

end FaultSet

/-! ## What explorations keep in step -/

namespace Findings

variable {β : Type} {entries : List (FaultSet × β)} {findings after : Findings} {set : FaultSet}

theorem nodup_keep (h : (entries.map (·.1)).Nodup) (entry : β) :
    ((keep entries set entry).map (·.1)).Nodup := by
  have hkept : ((entries.filter (·.1 != set)).map (·.1)).Nodup :=
    h.sublist (List.filter_sublist.map _)
  rw [keep, List.map_append]
  refine hkept.append (List.nodup_singleton set) ?_
  simp

/-- Every critical set found is fit to be reported, was explored, and has a counterexample or a
failure to show for it. -/
structure Documented (findings : Findings) (fit : FaultSet → Prop) : Prop where
  bucketed : findings.critical.Bucketed
  ascends : FaultSet.Ascends findings.checked
  fit : ∀ set ∈ findings.critical.toList, fit set
  checked : ∀ set ∈ findings.critical.toList, set ∈ findings.checked
  shown : ∀ set ∈ findings.critical.toList,
    set ∈ findings.counterexamples.map (·.1) ∨ set ∈ findings.exceptions.map (·.1)
  counterexamples_once : (findings.counterexamples.map (·.1)).Nodup
  exceptions_once : (findings.exceptions.map (·.1)).Nodup

variable {fit : FaultSet → Prop}

theorem documented_start (count : Nat) : (start count).Documented fit where
  bucketed := FaultSetCollection.bucketed_empty count
  ascends := List.Pairwise.nil
  fit := by simp [start]
  checked := by simp [start]
  shown := by simp [start]
  counterexamples_once := List.nodup_nil
  exceptions_once := List.nodup_nil

theorem Documented.add (h : findings.Documented fit) (hset : fit set)
    (hadd : findings.critical.add set = .ok after.critical)
    (hchecked : after.checked = FaultSet.insertSorted set findings.checked)
    (hcounterexamples : ∀ other ∈ findings.counterexamples.map (·.1),
      other ∈ after.counterexamples.map (·.1))
    (hexceptions : ∀ other ∈ findings.exceptions.map (·.1), other ∈ after.exceptions.map (·.1))
    (hshown : set ∈ after.counterexamples.map (·.1) ∨ set ∈ after.exceptions.map (·.1))
    (hcounterexamplesOnce : (after.counterexamples.map (·.1)).Nodup)
    (hexceptionsOnce : (after.exceptions.map (·.1)).Nodup) : after.Documented fit where
  bucketed := FaultSetCollection.bucketed_of_add h.bucketed hadd
  ascends := by
    rw [hchecked]
    exact FaultSet.ascends_insertSorted h.ascends set
  fit := by
    intro other hother
    rcases (FaultSetCollection.mem_toList_of_add hadd).1 hother with hother | rfl
    · exact h.fit other hother
    · exact hset
  checked := by
    intro other hother
    rw [hchecked, FaultSet.mem_insertSorted]
    rcases (FaultSetCollection.mem_toList_of_add hadd).1 hother with hother | rfl
    · exact .inr (h.checked other hother)
    · exact .inl rfl
  shown := by
    intro other hother
    rcases (FaultSetCollection.mem_toList_of_add hadd).1 hother with hother | rfl
    · exact (h.shown other hother).imp (hcounterexamples other) (hexceptions other)
    · exact hshown
  counterexamples_once := hcounterexamplesOnce
  exceptions_once := hexceptionsOnce

end Findings

namespace Inquiry

variable {α : Type} [Scalar α] {inquiry : Inquiry α} {fit : FaultSet → Prop}

theorem documented_of_explores {findings after : Findings} {set : FaultSet}
    {used : List Activation} {safe : Bool} (hset : fit set) (h : findings.Documented fit)
    (hexplores : inquiry.Explores set used findings safe after) : after.Documented fit := by
  have hstays {β : Type} {entries : List (FaultSet × β)} (entry : β) (other : FaultSet)
      (hother : other ∈ entries.map (·.1)) :
      other ∈ (Findings.keep entries set entry).map (·.1) :=
    Findings.mem_map_keep (.inl hother)
  have hown {β : Type} {entries : List (FaultSet × β)} (entry : β) :
      set ∈ (Findings.keep entries set entry).map (·.1) :=
    Findings.mem_map_keep (.inr rfl)
  cases hexplores with
  | safe =>
      refine ⟨h.bucketed, FaultSet.ascends_insertSorted h.ascends set, h.fit, ?_, h.shown,
        h.counterexamples_once, h.exceptions_once⟩
      exact fun other hother => FaultSet.mem_insertSorted.2 (.inr (h.checked other hother))
  | violated _ _ hadd =>
      exact h.add hset hadd rfl (hstays _) (fun _ hother => hother) (.inl (hown _))
        (Findings.nodup_keep h.counterexamples_once _) h.exceptions_once
  | @failed _ path _ _ _ hadd =>
      by_cases hpath : path.isEmpty = true
      · rw [if_pos hpath]
        exact h.add hset hadd rfl (fun _ hother => hother) (hstays _) (.inr (hown _))
          h.counterexamples_once (Findings.nodup_keep h.exceptions_once _)
      · rw [if_neg hpath]
        exact h.add hset hadd rfl (hstays _) (hstays _) (.inr (hown _))
          (Findings.nodup_keep h.counterexamples_once _)
          (Findings.nodup_keep h.exceptions_once _)

theorem keeps_documented {model : Model α} {config : AnalysisConfig} {hazard : Formula}
    (hinquiry : model.inquire config hazard = .ok inquiry) :
    inquiry.Keeps (Findings.Documented · model.Valid) := by
  have hdescribes := describes_of_inquire hinquiry
  refine keeps_of_explores ?_ ?_ ?_
  · rintro findings safe ⟨h₁, h₂, h₃, h₄, h₅, h₆, h₇⟩
    exact ⟨h₁, h₂, h₃, h₄, h₅, h₆, h₇⟩
  · rintro findings counts ⟨h₁, h₂, h₃, h₄, h₅, h₆, h₇⟩
    exact ⟨h₁, h₂, h₃, h₄, h₅, h₆, h₇⟩
  · intro findings set mode safe after hset hfindings hok
    exact documented_of_explores (hdescribes.excludes_eq_false.1 hset) hfindings
      (explores_of_explore hok)

end Inquiry

/-! ## What is reported -/

variable {α : Type}

structure AnalysisResults.Consistent (results : AnalysisResults α) (model : Model α) : Prop where
  minimal_ascends : FaultSet.Ascends results.minimal
  checked_ascends : FaultSet.Ascends results.checked
  /-- No minimal critical set lies inside another. -/
  incomparable : ∀ left ∈ results.minimal, ∀ right ∈ results.minimal,
    left.isSubset right = true → left = right
  valid : ∀ set ∈ results.minimal, model.Valid set
  checked : ∀ set ∈ results.minimal, set ∈ results.checked
  counterexamples_minimal : ∀ set ∈ results.counterexamples.map (·.1), set ∈ results.minimal
  counterexamples_once : (results.counterexamples.map (·.1)).Nodup
  exceptions_minimal : ∀ set ∈ results.exceptions.map (·.1), set ∈ results.minimal
  exceptions_once : (results.exceptions.map (·.1)).Nodup
  /-- Where the model did not fail there is a counterexample. -/
  shown : ∀ set ∈ results.minimal, set ∉ results.exceptions.map (·.1) →
    set ∈ results.counterexamples.map (·.1)

namespace Findings

variable {β : Type} {entries : List (FaultSet × β)} {kept : List FaultSet} {set : FaultSet}

theorem mem_map_filter :
    set ∈ (entries.filter fun (other, _) => kept.contains other).map (·.1) ↔
      set ∈ entries.map (·.1) ∧ set ∈ kept := by
  constructor
  · intro hset
    obtain ⟨⟨_, entry⟩, hentry, rfl⟩ := List.mem_map.1 hset
    obtain ⟨hmem, hkept⟩ := List.mem_filter.1 hentry
    exact ⟨List.mem_map.2 ⟨_, hmem, rfl⟩, by simpa using hkept⟩
  · rintro ⟨hset, hkept⟩
    obtain ⟨⟨_, entry⟩, hentry, rfl⟩ := List.mem_map.1 hset
    exact List.mem_map.2 ⟨_, List.mem_filter.2 ⟨hentry, by simpa using hkept⟩, rfl⟩

theorem nodup_map_filter (h : (entries.map (·.1)).Nodup) :
    ((entries.filter fun (other, _) => kept.contains other).map (·.1)).Nodup :=
  h.sublist (List.filter_sublist.map _)

theorem Documented.consistent {findings : Findings} {model : Model α} {inquiry : Inquiry α}
    (h : findings.Documented model.Valid) (complete : Bool) (count : Nat) :
    (findings.results inquiry complete count).Consistent model := by
  have hcritical (set : FaultSet) (hset : set ∈ findings.critical.minimal) :
      set ∈ findings.critical.toList :=
    ((FaultSetCollection.mem_minimal h.bucketed).1 hset).1
  constructor
  · exact FaultSet.ascends_mergeSort (FaultSetCollection.nodup_minimal findings.critical)
  · exact h.ascends
  · intro left hleft right hright hsub
    rw [mem_results_minimal] at hleft hright
    exact FaultSetCollection.eq_of_isSubset_of_mem_minimal h.bucketed hleft hright hsub
  · intro set hset
    rw [mem_results_minimal] at hset
    exact h.fit set (hcritical set hset)
  · intro set hset
    rw [mem_results_minimal] at hset
    exact h.checked set (hcritical set hset)
  · intro set hset
    rw [mem_results_minimal]
    exact (mem_map_filter.1 hset).2
  · exact nodup_map_filter h.counterexamples_once
  · intro set hset
    rw [mem_results_minimal]
    exact (mem_map_filter.1 hset).2
  · exact nodup_map_filter h.exceptions_once
  · intro set hset hclean
    rw [mem_results_minimal] at hset
    rcases h.shown set (hcritical set hset) with hshown | hfailed
    · exact mem_map_filter.2 ⟨hshown, hset⟩
    · exact absurd (mem_map_filter.2 ⟨hfailed, hset⟩) hclean

end Findings

namespace Model

variable {η : Type} [Scalar α]

/-- Whatever the model, the hazard, the configuration and the heuristics are, the result of an
analysis that succeeds is consistent. -/
theorem analyze_consistent (model : Model α) (config : AnalysisConfig) (hazard : Formula)
    (heuristic : Heuristic η) (heuristics : List η) (fuel : Nat) {results : AnalysisResults α}
    (hok : (model.analyze config hazard heuristic heuristics fuel).2 = .ok results) :
    results.Consistent model := by
  obtain ⟨inquiry, findings, complete, -, hfindings, rfl⟩ :=
    exists_findings (fun _ => Inquiry.keeps_documented) (Findings.documented_start _) hok
  exact hfindings.consistent complete heuristics.length

/-- A script that suggests both faults at once, a fault that does not exist, and then empties the
queue. -/
def distracting : List Advisor :=
  [.scripted {
      onLevel := [(0, [.front [0, 1], .front [1, 5]]), (1, [.clear])], onSet := [] },
    .maximal { candidates := .below 2, forced := .empty, budget := 128 }]

/-- The set of both faults is explored out of turn and not reported; of the two reported sets, the
first made the model fail. -/
theorem analyze_consistent_distracting :
    ∃ results : AnalysisResults Rat,
      (crashOrDrift.analyze { traversal := smallRuns, behaviour := .forceThenFallback }
        (.atom "hazard") Advisor.heuristic distracting 8).2 = .ok results ∧
      results.checked.map (·.toList) = [[], [0], [1], [0, 1]] ∧
      results.minimal.map (·.toList) = [[0], [1]] ∧
      results.exceptions.map (·.1.toList) = [[0]] ∧ results.Consistent crashOrDrift := by
  have hreport : (crashOrDrift.analyze { traversal := smallRuns, behaviour := .forceThenFallback }
      (.atom "hazard") Advisor.heuristic distracting 8).2.map (fun results =>
        (results.checked.map (·.toList), results.exceptions.map (·.1.toList))) =
      .ok ([[], [0], [1], [0, 1]], [[0]]) := by
    decide +kernel
  obtain ⟨results, hok, hreport⟩ := map_eq_ok.1 hreport
  obtain ⟨hchecked, hexceptions⟩ := Prod.mk.inj hreport
  have hminimal : results.minimal = [⟨1⟩, ⟨2⟩] :=
    minimal_eq_of_climb hok (by decide +kernel) (by decide)
  refine ⟨results, hok, hchecked, ?_, hexceptions,
    analyze_consistent crashOrDrift _ _ Advisor.heuristic distracting 8 hok⟩
  rw [hminimal]
  decide

end Model

end Hazard
