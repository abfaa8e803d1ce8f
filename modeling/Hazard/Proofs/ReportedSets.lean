import Mathlib
import Hazard.Proofs.MinimalCriticalSets
/-!
# What an analysis with a limit reports

A limit on the size ends an analysis before the larger sets are looked at. A heuristic may still
have brought in a critical set beyond the limit, and such a set is reported although a smaller
critical one, beyond the limit as well, was never met. Up to the limit the report is exact.
-/

namespace Hazard

variable {α η : Type} [Scalar α] {model : Model α} {config : AnalysisConfig} {hazard : Formula}
  {fit : FaultSet → Prop} {progress : Progress η}

theorem IndexSet.toNat_lt_of_contains {set : IndexSet} {count : Nat}
    (h : ∀ index, set.contains index = true → index < count) : set.bits.toNat < 2 ^ count := by
  apply Nat.lt_pow_two_of_testBit
  intro index hindex
  by_contra htest
  have := h index (by simpa [contains, BitVec.getLsbD] using htest)
  omega

namespace Inquiry.Finished

/-- A critical set inside a reported one, and different from it, contains a minimal one that the
analysis did not want. -/
theorem exists_unwanted_inside (h : Finished model config hazard fit progress)
    {set small : FaultSet} (hset : set ∈ progress.findings.critical.minimal)
    (hsmall : model.Critical config hazard small) (hsub : small.isSubset set = true)
    (hne : small ≠ set) :
    ∃ least : FaultSet, least.isSubset small = true ∧
      model.MinimalCritical config hazard least ∧ ¬ Wanted config least := by
  obtain ⟨-, hleast⟩ := (FaultSetCollection.mem_minimal h.honest.critical_bucketed).1 hset
  obtain ⟨least, hinside, hminimal⟩ := Model.exists_minimalCritical hsmall
  refine ⟨least, hinside, hminimal, ?_⟩
  intro hwanted
  have heq : least = set :=
    hleast least (h.found least hminimal hwanted) (IndexSet.isSubset_trans hinside hsub)
  subst heq
  exact hne (IndexSet.isSubset_antisymm hsub hinside)

end Inquiry.Finished

namespace Model

/-- Let criticality be monotone on valid sets, and let heuristics do what they like. A set that a
successful analysis reports is critical, and up to the limit the reported sets are exactly the
minimal critical ones. A reported set can have a critical proper subset only if that subset is
beyond the limit too, and then the analysis calls itself incomplete. -/
theorem reported_minimal_up_to_limit (model : Model α) (config : AnalysisConfig) (hazard : Formula)
    (heuristic : Heuristic η) (heuristics : List η) (fuel : Nat)
    (hmonotone : ∀ small large, model.Valid large → small.isSubset large = true →
      model.Critical config hazard small → model.Critical config hazard large)
    {results : AnalysisResults α}
    (hok : (model.analyze config hazard heuristic heuristics fuel).2 = .ok results) :
    (∀ set ∈ results.minimal, model.Critical config hazard set ∧
      ∀ small, small.isSubset set = true → small ≠ set → model.Critical config hazard small →
        results.complete = false ∧
          ∃ greatest, config.maxCardinality = some greatest ∧ greatest < small.card) ∧
      ∀ set, (∀ greatest, config.maxCardinality = some greatest → set.card ≤ greatest) →
        (set ∈ results.minimal ↔ model.MinimalCritical config hazard set) := by
  have hfit : model.MonotoneOn config hazard model.Valid :=
    ⟨fun _ hvalid => hvalid, fun small large _ hlarge => hmonotone small large hlarge⟩
  obtain ⟨inquiry, progress, hfinished, rfl⟩ := finished_of_analyze hfit
    (fun _ hvalid _ _ => hvalid) (Or.inr fun _ hvalid => hvalid) hok
  have hcritical (set : FaultSet) (hset : set ∈ progress.findings.critical.minimal) :
      model.Critical config hazard set :=
    (hfinished.honest.critical set
      ((FaultSetCollection.mem_minimal hfinished.honest.critical_bucketed).1 hset).1).2
  constructor
  · intro set hset
    rw [mem_results_minimal] at hset
    refine ⟨hcritical set hset, fun small hsub hne hsmall => ?_⟩
    obtain ⟨least, hinside, hminimal, hunwanted⟩ :=
      hfinished.exists_unwanted_inside hset hsmall hsub hne
    refine ⟨hfinished.incomplete_iff.2 ⟨least, hminimal.1.1, hminimal.2, hunwanted⟩, ?_⟩
    simp only [Inquiry.Wanted, not_forall, not_le] at hunwanted
    obtain ⟨greatest, hgreatest, hlarge⟩ := hunwanted
    exact ⟨greatest, hgreatest, hlarge.trans_le (IndexSet.card_le_of_isSubset hinside)⟩
  · intro set hwanted
    rw [mem_results_minimal]
    constructor
    · intro hset
      refine ⟨hcritical set hset, fun small hsub hsmall => ?_⟩
      by_contra hne
      obtain ⟨least, hinside, -, hunwanted⟩ :=
        hfinished.exists_unwanted_inside hset hsmall hsub hne
      have hcard := IndexSet.card_le_of_isSubset (IndexSet.isSubset_trans hinside hsub)
      exact hunwanted fun greatest hgreatest => hcard.trans (hwanted greatest hgreatest)
    · intro hminimal
      rw [FaultSetCollection.mem_minimal hfinished.honest.critical_bucketed]
      refine ⟨hfinished.found set hminimal hwanted, fun other hother hsub => ?_⟩
      exact hminimal.2 other hsub (hfinished.honest.critical other hother).2

/-! ## A set beyond the limit -/

/-- Three faults of which the first two are hazardous together. -/
def needsBoth : Model Rat := offsets [1, 1, 0] []

def singlesOnly : AnalysisConfig := { traversal := smallRuns, maxCardinality := some 1 }

theorem needsBoth_safe? {set : FaultSet} (h : needsBoth.Valid set) :
    needsBoth.safe? singlesOnly (.atom "hazard") set =
      some !(set.contains 0 && set.contains 1) := by
  have hall : ∀ bits < 8, needsBoth.safe? singlesOnly (.atom "hazard") ⟨UInt64.ofNat bits⟩ =
      some !((IndexSet.mk (UInt64.ofNat bits)).contains 0 &&
        (IndexSet.mk (UInt64.ofNat bits)).contains 1) := by
    decide +kernel
  have hbits : set.bits.toNat < 2 ^ 3 := IndexSet.toNat_lt_of_contains h.declared
  have heq : set = ⟨UInt64.ofNat set.bits.toNat⟩ := by
    rw [UInt64.ofNat_toNat]
  rw [heq]
  exact hall _ hbits

theorem monotone_needsBoth (small large : FaultSet) (hlarge : needsBoth.Valid large)
    (hsub : small.isSubset large = true)
    (hsmall : needsBoth.Critical singlesOnly (.atom "hazard") small) :
    needsBoth.Critical singlesOnly (.atom "hazard") large := by
  obtain ⟨hvalid, hcritical⟩ := hsmall
  refine ⟨hlarge, ?_⟩
  rw [needsBoth_safe? hvalid] at hcritical
  rw [needsBoth_safe? hlarge]
  rw [IndexSet.isSubset_iff] at hsub
  have hboth : small.contains 0 = true ∧ small.contains 1 = true := by simpa using hcritical
  simp [hsub 0 hboth.1, hsub 1 hboth.2]

def fromAbove : MaximalSafeSet := { candidates := .below 3, forced := .empty, budget := 1 }

theorem analyze_needsBoth : (needsBoth.analyze singlesOnly (.atom "hazard") MaximalSafeSet.heuristic
    [fromAbove] 0).2.map (fun results => (results.minimal, results.complete)) =
      .ok ([.below 3], false) := by
  cbv

theorem critical_below_two : needsBoth.Critical singlesOnly (.atom "hazard") (.below 2) := by
  have hvalid : needsBoth.Valid (.below 2) := by
    have hfault : ∀ fault ∈ needsBoth.faults, fault.activation = .nondeterministic := by
      decide +kernel
    refine ⟨fun position hposition => ?_, fun position fault hget hforced => ?_,
      fun position fault hget hsuppressed => ?_⟩
    · exact ((IndexSet.contains_below 2 position).1 hposition).1.trans (by decide)
    · rw [hfault fault (List.mem_of_getElem? hget)] at hforced
      cases hforced
    · rw [hfault fault (List.mem_of_getElem? hget)] at hsuppressed
      cases hsuppressed
  refine ⟨hvalid, ?_⟩
  rw [needsBoth_safe? hvalid]
  rfl

/-- Sets of two faults are beyond the limit, so the one suggestion is reported. -/
theorem reported_minimal_up_to_limit_needsBoth :
    ∃ results : AnalysisResults Rat,
      (needsBoth.analyze singlesOnly (.atom "hazard") MaximalSafeSet.heuristic [fromAbove] 0).2 =
        .ok results ∧
      (∀ small large, needsBoth.Valid large → small.isSubset large = true →
        needsBoth.Critical singlesOnly (.atom "hazard") small →
          needsBoth.Critical singlesOnly (.atom "hazard") large) ∧
      needsBoth.Critical singlesOnly (.atom "hazard") (.below 3) ∧ results.complete = false ∧
      ∃ greatest, singlesOnly.maxCardinality = some greatest ∧
        greatest < (IndexSet.below 2).card := by
  obtain ⟨results, hok, hreport⟩ := map_eq_ok.1 analyze_needsBoth
  have hminimal : results.minimal = [.below 3] := congrArg Prod.fst hreport
  obtain ⟨hreported, -⟩ := reported_minimal_up_to_limit needsBoth singlesOnly (.atom "hazard")
    MaximalSafeSet.heuristic [fromAbove] 0 monotone_needsBoth hok
  have hset : .below 3 ∈ results.minimal := by
    rw [hminimal]
    exact List.mem_singleton_self _
  obtain ⟨hcritical, hinside⟩ := hreported (.below 3) hset
  obtain ⟨hincomplete, hbeyond⟩ :=
    hinside (.below 2) (by decide) (by decide) critical_below_two
  exact ⟨results, hok, monotone_needsBoth, hcritical, hincomplete, hbeyond⟩

/-- Criticality is monotone, and the set that is reported has a critical proper subset. -/
theorem reported_not_minimal_needsBoth :
    MaximalSafeSet.create needsBoth.faults 1 = .ok fromAbove ∧
      (∀ small large, needsBoth.Valid large → small.isSubset large = true →
        needsBoth.Critical singlesOnly (.atom "hazard") small →
          needsBoth.Critical singlesOnly (.atom "hazard") large) ∧
      ∃ results : AnalysisResults Rat,
        (needsBoth.analyze singlesOnly (.atom "hazard") MaximalSafeSet.heuristic
          [fromAbove] 0).2 = .ok results ∧
        .below 3 ∈ results.minimal ∧ IndexSet.isSubset (.below 2) (.below 3) = true ∧
        IndexSet.below 2 ≠ .below 3 ∧
        needsBoth.Critical singlesOnly (.atom "hazard") (.below 2) := by
  obtain ⟨results, hok, hreport⟩ := map_eq_ok.1 analyze_needsBoth
  have hminimal : results.minimal = [.below 3] := congrArg Prod.fst hreport
  refine ⟨by decide +kernel, monotone_needsBoth, results, hok, ?_, by decide, by decide,
    critical_below_two⟩
  rw [hminimal]
  exact List.mem_singleton_self _

end Model

end Hazard
