import Hazard.Analysis.MaximalSafeSet
import Hazard.Model.Gallery
import Hazard.Proofs.AnalysisRun
/-!
# Exactness of the safety analysis

Without heuristics an analysis finds exactly the minimal critical sets, whatever criticality looks
like. With heuristics it still does, provided that criticality is monotone.
-/

namespace Hazard

variable {α η : Type}

/-! ## Results -/

theorem pairwise_mergeSort_le (sets : List FaultSet) :
    (sets.mergeSort IndexSet.le).Pairwise fun left right => left.le right = true := by
  have htrans : ∀ a b c : FaultSet, a.le b = true → b.le c = true → a.le c = true :=
    fun _ _ _ => IndexSet.le_trans
  exact List.pairwise_mergeSort htrans IndexSet.le_total sets

/-- Ascending lists without repetition are determined by their members. -/
theorem mergeSort_le_eq {left right : List FaultSet} (hleft : left.Nodup) (hright : right.Nodup)
    (hmem : ∀ set, set ∈ left ↔ set ∈ right) :
    left.mergeSort IndexSet.le = right.mergeSort IndexSet.le := by
  have hmembers := (List.perm_ext_iff_of_nodup hleft hright).2 hmem
  have hperm := (List.mergeSort_perm left IndexSet.le).trans
    (hmembers.trans (List.mergeSort_perm right IndexSet.le).symm)
  exact hperm.eq_of_pairwise (fun _ _ _ _ => IndexSet.le_antisymm) (pairwise_mergeSort_le left)
    (pairwise_mergeSort_le right)

theorem mem_results_minimal {findings : Findings} {inquiry : Inquiry α} {complete : Bool}
    {count : Nat} {set : FaultSet} :
    set ∈ (findings.results inquiry complete count).minimal ↔ set ∈ findings.critical.minimal := by
  exact List.mem_mergeSort

theorem AnalysisResults.outcome_eq_safe {results : AnalysisResults α} {set : FaultSet} :
    results.outcome set = .safe ↔
      ∀ member ∈ results.minimal, member.isSubset set = false := by
  unfold AnalysisResults.outcome
  dsimp only
  split
  · rename_i hnone
    simpa using hnone
  · rename_i hsome
    constructor
    · intro hsafe
      split at hsafe
      · cases hsafe
      · cases hsafe
    · intro hnone
      exact absurd (by simpa using hnone) hsome

variable [Scalar α] {model : Model α} {config : AnalysisConfig} {hazard : Formula}
  {fit : FaultSet → Prop} {progress : Progress η}

namespace Inquiry.Finished

theorem mem_minimal (h : Finished model config hazard fit progress)
    (hwanted : ∀ set, fit set → Wanted config set) {set : FaultSet} :
    set ∈ progress.findings.critical.minimal ↔
      Wanted config set ∧ model.MinimalCritical config hazard set := by
  rw [FaultSetCollection.mem_minimal h.honest.critical_bucketed]
  constructor
  · rintro ⟨hset, hleast⟩
    obtain ⟨hfit, hcritical⟩ := h.honest.critical set hset
    obtain ⟨least, hsub, hminimal⟩ := Model.exists_minimalCritical hcritical
    have hwanted' : Wanted config least := fun greatest hgreatest =>
      (IndexSet.card_le_of_isSubset hsub).trans (hwanted set hfit greatest hgreatest)
    have heq := hleast least (h.found least hminimal hwanted') hsub
    subst heq
    exact ⟨hwanted', hminimal⟩
  · rintro ⟨hset, hminimal⟩
    refine ⟨h.found set hminimal hset, fun other hother hsub => ?_⟩
    exact hminimal.2 other hsub (h.honest.critical other hother).2

end Inquiry.Finished

/-! ## The analysis -/

namespace Model

theorem climbed_start {heuristics : List η}
    (hunmoved : heuristics = [] ∨ ∀ set, model.Valid set → fit set) :
    Inquiry.Climbed model config hazard fit 0
      { safe := [], findings := .start model.faults.length, heuristics := heuristics } := by
  refine ⟨Findings.honest_start _ rfl, hunmoved, rfl, ?_, ?_, ?_⟩
  · simp
  · simp
  · simp

theorem minimal_eq_of_climb {heuristic : Heuristic η} {heuristics : List η} {fuel : Nat}
    {results : AnalysisResults α} {sets : List FaultSet}
    (hok : (model.analyze config hazard heuristic heuristics fuel).2 = .ok results)
    (hfound : (model.inquire config hazard).map (fun inquiry =>
      (inquiry.climb heuristic fuel config.maxCardinality (List.range (model.faults.length + 1))
        { safe := [], findings := .start model.faults.length,
          heuristics }).1.findings.critical.minimal) = .ok sets)
    (hordered : sets.Pairwise fun left right => left.le right = true) :
    results.minimal = sets := by
  obtain ⟨inquiry, progress, hinquiry, hclimb, rfl⟩ := exists_climb hok
  obtain ⟨_, hagain, rfl⟩ := map_eq_ok.1 hfound
  cases hinquiry.symm.trans hagain
  rw [hclimb] at hordered ⊢
  exact List.mergeSort_of_pairwise hordered

theorem finished_of_analyze {heuristic : Heuristic η} {heuristics : List η} {fuel : Nat}
    {results : AnalysisResults α}
    (hfit : model.MonotoneOn config hazard fit)
    (hlevel : ∀ set, model.Valid set → FaultSet.ClearBelow (model.Critical config hazard) set →
      Inquiry.Wanted config set → fit set)
    (hunmoved : heuristics = [] ∨ ∀ set, model.Valid set → fit set)
    (hok : (model.analyze config hazard heuristic heuristics fuel).2 = .ok results) :
    ∃ (inquiry : Inquiry α) (progress : Progress η),
      Inquiry.Finished model config hazard fit progress ∧
        results = progress.findings.results inquiry progress.complete heuristics.length := by
  obtain ⟨inquiry, progress, hinquiry, hclimb, rfl⟩ := exists_climb hok
  have hdescribes := Inquiry.describes_of_inquire hinquiry
  rw [List.range_eq_range'] at hclimb
  refine ⟨inquiry, progress, ?_, rfl⟩
  exact hdescribes.climb_finished hfit hlevel (Nat.zero_add _) (climbed_start hunmoved) hclimb

/-- **Exactness without heuristics.** The minimal critical sets of a successful analysis are exactly
the critical sets of a wanted size that have no critical proper subset. The analysis is incomplete
iff it left out a valid set that is too large and has no critical proper subset. Criticality need
not be monotone. -/
theorem analyze_exact (model : Model α) (config : AnalysisConfig) (hazard : Formula)
    (heuristic : Heuristic η) (fuel : Nat) {results : AnalysisResults α}
    (hok : (model.analyze config hazard heuristic [] fuel).2 = .ok results) :
    (∀ set, set ∈ results.minimal ↔
      (∀ greatest, config.maxCardinality = some greatest → set.card ≤ greatest) ∧
        model.Critical config hazard set ∧
          FaultSet.ClearBelow (model.Critical config hazard) set) ∧
      (results.complete = false ↔ ∃ greatest, config.maxCardinality = some greatest ∧
        ∃ set, model.Valid set ∧ greatest < set.card ∧
          FaultSet.ClearBelow (model.Critical config hazard) set) := by
  have hmonotone : model.MonotoneOn config hazard fun set => model.Valid set ∧
      FaultSet.ClearBelow (model.Critical config hazard) set ∧ Inquiry.Wanted config set := by
    refine ⟨fun set hset => hset.1, fun small large _ hlarge hsub hcritical => ?_⟩
    rwa [← hlarge.2.1 small hsub hcritical]
  obtain ⟨inquiry, progress, hfinished, rfl⟩ := finished_of_analyze hmonotone
    (fun set hvalid hclear hwanted => ⟨hvalid, hclear, hwanted⟩) (Or.inl rfl) hok
  constructor
  · intro set
    rw [mem_results_minimal]
    exact hfinished.mem_minimal fun set hset => hset.2.2
  · rw [show (progress.findings.results inquiry progress.complete _).complete = progress.complete
      from rfl, hfinished.incomplete_iff]
    constructor
    · rintro ⟨set, hvalid, hclear, hunwanted⟩
      simp only [Inquiry.Wanted, not_forall, not_le] at hunwanted
      obtain ⟨greatest, hgreatest, hlarge⟩ := hunwanted
      exact ⟨greatest, hgreatest, set, hvalid, hlarge, hclear⟩
    · rintro ⟨greatest, hgreatest, set, hvalid, hlarge, hclear⟩
      refine ⟨set, hvalid, hclear, fun hwanted => ?_⟩
      have := hwanted greatest hgreatest
      omega

def smallRuns : TraversalConfig := { stateCapacity := 8, transitionCapacity := 32 }

/-- Three faults of which the second takes back what the first one does. -/
def cancelling : Model Rat := offsets [2, 255, 0] []

/-- The first fault is hazardous alone and harmless together with the second one; sets of two
faults are not looked at. -/
theorem analyze_exact_cancelling :
    ∃ results : AnalysisResults Rat,
      (cancelling.analyze
        { traversal := smallRuns, behaviour := .forceOnly, maxCardinality := some 1 }
        (.atom "hazard") MaximalSafeSet.heuristic [] 0).2 = .ok results ∧
      results.minimal = [.singleton 0] ∧ results.complete = false ∧
      (∀ set, set ∈ results.minimal ↔
        (∀ greatest, some 1 = some greatest → set.card ≤ greatest) ∧
          cancelling.MinimalCritical
            { traversal := smallRuns, behaviour := .forceOnly, maxCardinality := some 1 }
            (.atom "hazard") set) ∧
      (results.complete = false ↔ ∃ greatest, some 1 = some greatest ∧
        ∃ set, cancelling.Valid set ∧ greatest < set.card ∧
          FaultSet.ClearBelow (cancelling.Critical
            { traversal := smallRuns, behaviour := .forceOnly, maxCardinality := some 1 }
            (.atom "hazard")) set) := by
  have hmap : (cancelling.analyze
      { traversal := smallRuns, behaviour := .forceOnly, maxCardinality := some 1 }
      (.atom "hazard") MaximalSafeSet.heuristic [] 0).2.map
        (fun results => (results.minimal, results.complete)) = .ok ([.singleton 0], false) := by
    decide +kernel
  obtain ⟨results, hok, heq⟩ := map_eq_ok.1 hmap
  exact ⟨results, hok, congrArg Prod.fst heq, congrArg Prod.snd heq,
    analyze_exact _ _ _ _ _ hok⟩

/-! ## Heuristics -/

/-- If every valid set has a verdict, an analysis with heuristics that never fail ends with results,
unless the heuristics add too many sets to a queue. -/
theorem analyze_unhindered {heuristic : Heuristic η} (heuristics : List η) (fuel : Nat)
    {inquiry : Inquiry α} (hinquiry : model.inquire config hazard = .ok inquiry)
    (htotal : Inquiry.Total heuristic)
    (hverdict : ∀ set, model.Valid set → ∃ safe, model.safe? config hazard set = some safe)
    (hfit : model.MonotoneOn config hazard model.Valid) :
    (model.analyze config hazard heuristic heuristics fuel).2 = .error .unfinished ∨
      ∃ results, (model.analyze config hazard heuristic heuristics fuel).2 = .ok results := by
  have hdescribes := Inquiry.describes_of_inquire hinquiry
  have hclimb : Inquiry.Unhindered (inquiry.climb heuristic fuel config.maxCardinality
      (List.range (model.faults.length + 1))
      { safe := [], findings := .start model.faults.length, heuristics := heuristics }) := by
    rw [List.range_eq_range']
    exact hdescribes.climb_unhindered hverdict hfit (fun _ hvalid _ _ => hvalid) htotal
      (climbed_start (Or.inr fun _ hvalid => hvalid))
  unfold analyze
  rw [hinquiry]
  dsimp only
  split
  · rename_i progress error hfailed
    rw [hfailed] at hclimb
    rcases hclimb with hok | hunfinished
    · cases hok
    · cases hunfinished
      exact Or.inl rfl
  · exact Or.inr ⟨_, rfl⟩

theorem analyze_quiet {heuristic : Heuristic η} (fuel : Nat) {inquiry : Inquiry α}
    (hinquiry : model.inquire config hazard = .ok inquiry) :
    (model.analyze config hazard heuristic [] fuel).2 ≠ .error .unfinished := by
  have hclimb : (inquiry.climb heuristic fuel config.maxCardinality
      (List.range (model.faults.length + 1))
      { safe := [], findings := .start model.faults.length, heuristics := [] }).2 ≠
        .error .unfinished := Inquiry.climb_quiet rfl _ _
  unfold analyze
  rw [hinquiry]
  dsimp only
  split
  · rename_i progress error hfailed
    rw [hfailed] at hclimb
    simpa using hclimb
  · simp

theorem total_ofTotal (augment : η → Nat → Queue → η × Queue)
    (update : η → Queue → FaultSet → Bool → η × Queue) :
    Inquiry.Total (.ofTotal augment update) := by
  exact ⟨fun _ _ _ => ⟨_, _, rfl⟩, fun _ _ _ _ => ⟨_, _, rfl⟩⟩

theorem outcome_safe_iff {results : AnalysisResults α}
    (hminimal : ∀ set, set ∈ results.minimal ↔ model.MinimalCritical config hazard set)
    {set : FaultSet} :
    results.outcome set = .safe ↔
      ∀ small, small.isSubset set = true → ¬ model.Critical config hazard small := by
  rw [AnalysisResults.outcome_eq_safe]
  simp only [hminimal]
  constructor
  · intro hnone small hsub hcritical
    obtain ⟨least, hleast, hminimal⟩ := exists_minimalCritical hcritical
    have hinside := IndexSet.isSubset_trans hleast hsub
    rw [hnone least hminimal] at hinside
    cases hinside
  · intro hnone member hmember
    by_contra hsub
    exact hnone member (by simpa using hsub) hmember.1

/-- An analysis of all sizes whose queues are worked off ends with the minimal critical sets. -/
theorem analyze_finishes {heuristic : Heuristic η} {heuristics : List η} {fuel : Nat}
    {inquiry : Inquiry α} (hinquiry : model.inquire config hazard = .ok inquiry)
    (htotal : Inquiry.Total heuristic)
    (hverdict : ∀ set, model.Valid set → ∃ safe, model.safe? config hazard set = some safe)
    (hfit : model.MonotoneOn config hazard model.Valid) (hall : config.maxCardinality = none)
    (hfinite : (model.analyze config hazard heuristic heuristics fuel).2 ≠ .error .unfinished) :
    ∃ (inquiry : Inquiry α) (findings : Findings) (complete : Bool),
      (model.analyze config hazard heuristic heuristics fuel).2 =
        .ok (findings.results inquiry complete heuristics.length) ∧
      ∀ set, set ∈ findings.critical.minimal ↔ model.MinimalCritical config hazard set := by
  obtain ⟨results, hok⟩ := (analyze_unhindered heuristics fuel hinquiry htotal hverdict
    hfit).resolve_left hfinite
  obtain ⟨inquiry, progress, hfinished, rfl⟩ := finished_of_analyze hfit
    (fun _ hvalid _ _ => hvalid) (Or.inr fun _ hvalid => hvalid) hok
  have hwanted : ∀ set, Inquiry.Wanted config set := by
    intro set greatest hgreatest
    rw [hall] at hgreatest
    cases hgreatest
  refine ⟨inquiry, progress.findings, progress.complete, hok, fun set => ?_⟩
  rw [hfinished.mem_minimal fun set _ => hwanted set]
  exact and_iff_right (hwanted set)

/-- **Heuristics change nothing.** Let every valid set have a verdict, let criticality be monotone
on valid sets and let all sizes be wanted. Then heuristics that may add any sets to the queue and
take any sets out of it, as long as every queue is worked off, leave the minimal critical sets as
they are without heuristics: the inclusion-minimal critical sets. A set is called safe iff no
critical set is inside it, and a valid set iff it is not critical. -/
theorem analyze_unmoved (model : Model α) (config : AnalysisConfig) (hazard : Formula)
    (augment : η → Nat → Queue → η × Queue)
    (update : η → Queue → FaultSet → Bool → η × Queue) (heuristics : List η) (fuel : Nat)
    (hcount : model.faults.length ≤ 64)
    (hverdict : ∀ set, model.Valid set → ∃ safe, model.safe? config hazard set = some safe)
    (hmonotone : ∀ small large, model.Valid large → small.isSubset large = true →
      model.Critical config hazard small → model.Critical config hazard large)
    (hall : config.maxCardinality = none)
    (hfinite : (model.analyze config hazard (.ofTotal augment update) heuristics fuel).2 ≠
      .error .unfinished) :
    ∃ guided plain,
      (model.analyze config hazard (.ofTotal augment update) heuristics fuel).2 = .ok guided ∧
      (model.analyze config hazard (.ofTotal augment update) [] fuel).2 = .ok plain ∧
      guided.minimal = plain.minimal ∧
      (∀ set, set ∈ guided.minimal ↔ model.MinimalCritical config hazard set) ∧
      (∀ set, guided.outcome set = .safe ↔
        ∀ small, small.isSubset set = true → ¬ model.Critical config hazard small) ∧
      ∀ set, model.Valid set →
        (guided.outcome set = .safe ↔ ¬ model.Critical config hazard set) := by
  have hfit : model.MonotoneOn config hazard model.Valid :=
    ⟨fun _ hvalid => hvalid, fun small large _ hlarge => hmonotone small large hlarge⟩
  obtain ⟨first, hfirst⟩ := exists_valid hcount
  obtain ⟨safe, hsafe⟩ := hverdict first hfirst
  obtain ⟨inquiry, hinquiry⟩ : ∃ inquiry, model.inquire config hazard = .ok inquiry :=
    Inquiry.exists_inquire hcount (exists_compile_of_safe? hsafe)
  have htotal := total_ofTotal augment update
  obtain ⟨inquiry₁, findings₁, complete₁, hguided, hminimal₁⟩ :=
    analyze_finishes hinquiry htotal hverdict hfit hall hfinite
  obtain ⟨inquiry₂, findings₂, complete₂, hplain, hminimal₂⟩ :=
    analyze_finishes hinquiry htotal hverdict hfit hall (analyze_quiet fuel hinquiry)
  have hmembers : ∀ set, set ∈ (findings₁.results inquiry₁ complete₁ heuristics.length).minimal ↔
      model.MinimalCritical config hazard set :=
    fun set => mem_results_minimal.trans (hminimal₁ set)
  have hsafe : ∀ set, (findings₁.results inquiry₁ complete₁ heuristics.length).outcome set = .safe ↔
      ∀ small, small.isSubset set = true → ¬ model.Critical config hazard small :=
    fun _ => outcome_safe_iff hmembers
  refine ⟨_, _, hguided, hplain, ?_, hmembers, hsafe, fun set hset => ?_⟩
  · apply mergeSort_le_eq (FaultSetCollection.nodup_minimal _) (FaultSetCollection.nodup_minimal _)
    intro set
    rw [hminimal₁, hminimal₂]
  · rw [hsafe set]
    constructor
    · exact fun hnone => hnone set (IndexSet.isSubset_refl set)
    · exact fun hnot small hsub hcritical => hnot (hmonotone small set hset hsub hcritical)

/-- A controller that may crash or drift into the hazard. -/
def crashOrDrift : Model Rat := controller

theorem crashOrDrift_safe? {set : FaultSet} (h : crashOrDrift.Valid set) :
    crashOrDrift.safe? { traversal := smallRuns } (.atom "hazard") set =
      some (set == IndexSet.empty) := by
  have hout : ∀ position, set.contains (position + 2) = false := by
    intro position
    by_contra hcontains
    have hlt : position + 2 < 2 := h.declared _ (by simpa using hcontains)
    omega
  have hsets : ∀ other : FaultSet, set.contains 0 = other.contains 0 →
      set.contains 1 = other.contains 1 → (∀ position, other.contains (position + 2) = false) →
        set = other := by
    intro other hzero hone hrest
    apply IndexSet.ext_contains
    intro position
    match position with
    | 0 => exact hzero
    | 1 => exact hone
    | position + 2 => rw [hout, hrest]
  cases hcrash : set.contains 0 with
  | false =>
      cases hdrift : set.contains 1 with
      | false =>
          rw [hsets .empty (by simpa using hcrash) (by simpa using hdrift) (by simp)]
          decide +kernel
      | true =>
          rw [hsets (.singleton 1) (by simpa using hcrash) (by simpa using hdrift) (by simp)]
          decide +kernel
  | true =>
      cases hdrift : set.contains 1 with
      | false =>
          rw [hsets (.singleton 0) (by simpa using hcrash) (by simpa using hdrift) (by simp)]
          decide +kernel
      | true =>
          rw [hsets (IndexSet.insert (.singleton 0) 1) (by simpa using hcrash)
            (by simpa using hdrift) (by simp)]
          decide +kernel

/-- The search for a large safe set suggests both faults at once, which brings in the sets of the
controller in an order of its own. -/
theorem analyze_unmoved_crashOrDrift :
    ∃ guided plain : AnalysisResults Rat,
      (crashOrDrift.analyze { traversal := smallRuns } (.atom "hazard")
        (.ofTotal MaximalSafeSet.augment MaximalSafeSet.update)
        [{ candidates := .below 2, forced := .empty, budget := 128 }] 8).2 = .ok guided ∧
      (crashOrDrift.analyze { traversal := smallRuns } (.atom "hazard")
        (.ofTotal MaximalSafeSet.augment MaximalSafeSet.update) [] 8).2 = .ok plain ∧
      guided.minimal = plain.minimal ∧
      (∀ set, set ∈ guided.minimal ↔
        crashOrDrift.MinimalCritical { traversal := smallRuns } (.atom "hazard") set) ∧
      (∀ set, guided.outcome set = .safe ↔ ∀ small, small.isSubset set = true →
        ¬ crashOrDrift.Critical { traversal := smallRuns } (.atom "hazard") small) ∧
      ∀ set, crashOrDrift.Valid set → (guided.outcome set = .safe ↔
        ¬crashOrDrift.Critical { traversal := smallRuns } (.atom "hazard") set) := by
  apply analyze_unmoved
  · decide
  · exact fun set hset => ⟨_, crashOrDrift_safe? hset⟩
  · rintro small large hlarge hsub ⟨hsmall, hcritical⟩
    refine ⟨hlarge, ?_⟩
    rw [crashOrDrift_safe? hsmall] at hcritical
    rw [crashOrDrift_safe? hlarge]
    have hne : small ≠ IndexSet.empty := by simpa using hcritical
    have hne' : large ≠ IndexSet.empty := by
      rintro rfl
      exact hne (IndexSet.eq_of_isSubset_of_card_le hsub (by simp [IndexSet.card_eq_zero.2]))
    simpa using hne'
  · rfl
  · decide +kernel

end Model

end Hazard
