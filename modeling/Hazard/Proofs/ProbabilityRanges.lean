import Hazard.Proofs.TimedSchedulers
import Hazard.Proofs.ValidStructures
import Hazard.Proofs.ValueIteration
/-!
# Ranges of probabilities

The least and the greatest probability of a query come from two iterations from below. Sweep by
sweep the values of the one are at most those of the other, but the iterations stop each for itself.
So the lower bound may exceed the upper one, if the iteration for the upper bound was the first to
come to rest.
-/

namespace Hazard

/-! ## The least and the greatest -/

theorem Objective.pick_le_pick {choices : List (Weighted ℚ)} {low high : Array ℚ}
    (hne : choices ≠ []) (hle : ∀ entries ∈ choices,
      entries.mean (low.getD · 0) ≤ entries.mean (high.getD · 0)) :
    minimize.pick (choices.map fun entries => entries.expectation low) ≤
      maximize.pick (choices.map fun entries => entries.expectation high) := by
  obtain ⟨entries, hentries⟩ := List.exists_mem_of_ne_nil choices hne
  have hleast : minimize.IsBest _ (minimize.pick _) := isBest_expectation hne low
  have hgreatest : maximize.IsBest _ (maximize.pick _) := isBest_expectation hne high
  calc minimize.pick (choices.map fun entries => entries.expectation low)
      ≤ entries.mean (low.getD · 0) := hleast.2 ⟨entries, hentries, rfl⟩
    _ ≤ entries.mean (high.getD · 0) := hle entries hentries
    _ ≤ _ := hgreatest.2 ⟨entries, hentries, rfl⟩

namespace DecisionProcess

variable {process : DecisionProcess ℚ} {sets : UntilSets} {state : Nat} {low high : Array ℚ}

namespace Stochastic

variable (hprocess : process.Stochastic)
include hprocess

theorem best_minimize_le (hstate : state < process.stateCount)
    (hle : ∀ other < process.stateCount, low.getD other 0 ≤ high.getD other 0) :
    process.best .minimize low state ≤ process.best .maximize high state := by
  refine Objective.pick_le_pick (hprocess.offers state hstate) fun entries hentries => ?_
  refine Weighted.mean_le_mean (hprocess.distributed state hstate entries hentries).nonneg ?_
  exact fun next hnext => hle next (hprocess.lt_of_support hstate hentries hnext)

theorem reach_minimize_le (steps : Nat) (hstate : state < process.stateCount) :
    process.reach .minimize sets steps state ≤ process.reach .maximize sets steps state := by
  induction steps generalizing state with
  | zero => rw [reach_zero hstate, reach_zero hstate]
  | succ steps ih =>
      rcases decided_cases sets.goal sets.excluded state with hgoal | ⟨hgoal, hexcluded⟩ | hopen
      · rw [reach_goal hstate hgoal, reach_goal hstate hgoal]
      · rw [reach_excluded hstate hgoal hexcluded, reach_excluded hstate hgoal hexcluded]
      · rw [reach_undecided hstate hopen, reach_undecided hstate hopen]
        exact hprocess.best_minimize_le hstate fun other hother => ih hother

end Stochastic

/-! ## Both iterations in step -/

def visit (process : DecisionProcess ℚ) (objective : Objective) (sets : UntilSets)
    (values : Array ℚ) (state : Nat) : Array ℚ :=
  if state ∈ process.remaining objective sets then
    Sweep.put (process.best objective) values state
  else values

structure Ordered (process : DecisionProcess ℚ) (sets : UntilSets) (low high : Array ℚ) :
    Prop where
  least : process.SubSolution .minimize sets low
  greatest : process.SubSolution .maximize sets high
  le : ∀ state < process.stateCount, low.getD state 0 ≤ high.getD state 0

section

variable {objective : Objective} {values : Array ℚ}

theorem SubSolution.getD_visit (hsub : process.SubSolution objective sets values)
    (hstate : state < process.stateCount) (other : Nat) :
    (process.visit objective sets values state).getD other 0 =
      if other = state ∧ state ∈ process.remaining objective sets then
        process.best objective values state
      else values.getD other 0 := by
  rw [visit]
  by_cases hopen : state ∈ process.remaining objective sets
  · rw [if_pos hopen, Sweep.put, getD_setIfInBounds (hsub.size_eq ▸ hstate)]
    simp [hopen]
  · simp [hopen]

namespace Stochastic

variable (hprocess : process.Stochastic) (hsets : sets.Separate process.stateCount)
include hprocess

theorem le_one_of_subSolution (hsub : process.SubSolution objective sets values)
    (hstate : state < process.stateCount) : values.getD state 0 ≤ 1 := by
  refine le_of_forall_pos_le_add fun slack hslack => ?_
  obtain ⟨steps, hsteps⟩ := hsub.approached state hstate slack hslack
  have hle : process.reach objective sets steps state ≤ 1 := hprocess.reach_le_one hstate
  linarith

include hsets

theorem subSolution_visit (hsub : process.SubSolution objective sets values) (state : Nat) :
    process.SubSolution objective sets (process.visit objective sets values state) := by
  rw [visit]
  split
  · next hopen => exact (hprocess.improving_best hsets objective).keeps values hsub state hopen
  · exact hsub

theorem values_once_eq (objective : Objective) (values : Array ℚ) :
    (Sweep.once (process.best objective) (process.remaining objective sets) values).values =
      (List.range ((process.stateCount + 63) / 64 * 64)).foldl
        (process.visit objective sets) values := by
  have hfits := ((hprocess.fits_never hsets objective).union
    (hprocess.fits_surely hsets objective)).complement
  have hremaining : process.remaining objective sets =
      (List.range ((process.stateCount + 63) / 64 * 64)).filter
        (decide <| · ∈ process.remaining objective sets) := by
    nth_rewrite 1 [remaining, StateSet.toList_eq_filter]
    rw [hfits.size_eq]
    refine List.filter_congr fun state _ => ?_
    rw [Bool.eq_iff_iff, decide_eq_true_iff, remaining, StateSet.mem_toList]
  rw [Sweep.values_once]
  nth_rewrite 1 [hremaining]
  rw [List.foldl_filter]
  simp only [decide_eq_true_eq]
  rfl

theorem ordered_visit (h : process.Ordered sets low high) (state : Nat) :
    process.Ordered sets (process.visit .minimize sets low state)
      (process.visit .maximize sets high state) := by
  have hleast := hprocess.subSolution_visit hsets h.least state
  have hgreatest := hprocess.subSolution_visit hsets h.greatest state
  refine ⟨hleast, hgreatest, fun other hother => ?_⟩
  by_cases hsame : other = state
  · subst hsame
    by_cases hopen : other ∈ process.remaining .minimize sets
    · by_cases hopen' : other ∈ process.remaining .maximize sets
      · rw [h.least.getD_visit hother, h.greatest.getD_visit hother, if_pos ⟨rfl, hopen⟩,
          if_pos ⟨rfl, hopen'⟩]
        exact hprocess.best_minimize_le hother h.le
      · have hsurely : (process.surely .maximize sets).contains other = true := by
          rw [hprocess.mem_remaining hsets] at hopen hopen'
          by_contra hsurely
          refine hopen' ⟨hother, ?_, by simpa using hsurely⟩
          by_contra hnever
          simp [hprocess.never_minimize_of_maximize hsets (by simpa using hnever)] at hopen
        have hone : (process.visit .maximize sets high other).getD other 0 = 1 := by
          rw [hgreatest.settled other hopen', Stochastic.getD_start hother, if_pos hsurely]
        rw [hone]
        exact hprocess.le_one_of_subSolution hleast hother
    · rw [h.least.getD_visit hother, if_neg fun hboth => hopen hboth.2]
      refine (h.le other hother).trans ?_
      rw [h.greatest.getD_visit hother]
      split
      · next hopen' => exact h.greatest.le_best other hopen'.2
      · exact le_rfl
  · rcases Nat.lt_or_ge state process.stateCount with hstate | hstate
    · rw [h.least.getD_visit hstate, h.greatest.getD_visit hstate,
        if_neg fun hboth => hsame hboth.1, if_neg fun hboth => hsame hboth.1]
      exact h.le other hother
    · have hout (objective : Objective) : state ∉ process.remaining objective sets :=
        fun hopen => absurd ((hprocess.mem_remaining hsets).1 hopen).1 (by omega)
      rw [visit, visit, if_neg (hout _), if_neg (hout _)]
      exact h.le other hother

theorem ordered_start : process.Ordered sets (process.start .minimize sets)
    (process.start .maximize sets) := by
  refine ⟨hprocess.subSolution_start hsets _, hprocess.subSolution_start hsets _, ?_⟩
  intro state hstate
  rw [Stochastic.getD_start hstate, Stochastic.getD_start hstate]
  by_cases hsurely : (process.surely .minimize sets).contains state = true
  · rw [if_pos hsurely, if_pos (hprocess.surely_maximize_of_minimize hsets hsurely)]
  · rw [if_neg hsurely]
    split <;> norm_num

theorem ordered_foldl (todo : List Nat) (h : process.Ordered sets low high) :
    process.Ordered sets (todo.foldl (process.visit .minimize sets) low)
      (todo.foldl (process.visit .maximize sets) high) := by
  induction todo generalizing low high with
  | nil => exact h
  | cons state rest ih => exact ih (hprocess.ordered_visit hsets h state)

theorem ordered_iterate (sweeps : Nat) : process.Ordered sets
    (process.iterate .minimize sets sweeps) (process.iterate .maximize sets sweeps) := by
  induction sweeps with
  | zero => exact hprocess.ordered_start hsets
  | succ sweeps ih =>
      rw [iterate, iterate, Sweep.after, Sweep.after, hprocess.values_once_eq hsets,
        hprocess.values_once_eq hsets]
      exact hprocess.ordered_foldl hsets _ ih

theorem iterate_mono (objective : Objective) (hstate : state < process.stateCount) :
    Monotone fun sweeps => (process.iterate objective sets sweeps).getD state 0 :=
  monotone_nat_of_le_succ fun sweeps => (hprocess.after_between hsets
    (hprocess.improving_best hsets objective) sweeps hstate).2.2

end Stochastic

end

/-! ## Where the iterations stop -/

theorem iterate_of_remaining_nil {objective : Objective}
    (hnil : process.remaining objective sets = []) (sweeps : Nat) :
    process.iterate objective sets sweeps = process.start objective sets := by
  induction sweeps with
  | zero => rfl
  | succ sweeps ih =>
      rw [iterate, Sweep.after, Sweep.values_once, hnil]
      rw [iterate, hnil] at ih
      exact ih

end DecisionProcess

/-- Nothing changes by less than nothing, so all sweeps are made. -/
theorem Sweep.count_of_nonpos {value : Array ℚ → Nat → ℚ} {states : List Nat} {convergence : ℚ}
    (hconvergence : convergence ≤ 0) (limit : Nat) (values : Array ℚ) :
    count value states convergence limit values = limit := by
  have hchange (values : Array ℚ) : 0 ≤ (once value states values).change := by
    have hfold (sweep : Sweep ℚ) (hsweep : 0 ≤ sweep.change) :
        0 ≤ (states.foldl (update value) sweep).change := by
      induction states generalizing sweep with
      | nil => exact hsweep
      | cons state rest ih => exact ih _ (Scalar.le_greatest.2 (.inl hsweep))
    exact hfold ⟨values, 0⟩ le_rfl
  induction limit generalizing values with
  | zero => rfl
  | succ limit ih =>
      rw [count, if_neg (not_lt.2 (hconvergence.trans (hchange values))), ih]

namespace DecisionProcess

variable {process : DecisionProcess ℚ} {sets : UntilSets}

/-- The iteration for the maximum is not the first to come to rest, or has nothing to do. -/
def KeepsPace (process : DecisionProcess ℚ) (config : CheckerConfig ℚ) (sets : UntilSets) : Prop :=
  process.remaining .maximize sets = [] ∨
    process.sweepCount config .minimize sets ≤ process.sweepCount config .maximize sets

theorem keepsPace_of_nonpos {config : CheckerConfig ℚ} (hconvergence : config.convergence ≤ 0)
    (sets : UntilSets) : process.KeepsPace config sets := by
  rcases hmax : process.remaining .maximize sets with _ | ⟨first, rest⟩
  · exact .inl hmax
  · refine .inr ?_
    have hall : process.sweepCount config .maximize sets = config.iterations := by
      rw [sweepCount, hmax]
      exact Sweep.count_of_nonpos hconvergence _ _
    rw [hall, sweepCount]
    split
    · exact Nat.zero_le _
    · rw [Sweep.count_of_nonpos hconvergence]

def valuesOf (process : DecisionProcess ℚ) (config : CheckerConfig ℚ) (objective : Objective)
    (sets : UntilSets) : Array ℚ :=
  match sets.bound with
  | some steps => process.bounded objective sets.goal sets.excluded steps
  | none => process.unbounded config objective sets.goal sets.excluded

theorem probabilityRange_eq {config : CheckerConfig ℚ} {formula : Formula}
    (hsets : UntilQuery.resolve formula process.propositions process.labels = .ok sets) :
    process.probabilityRange config formula = .ok
      ⟨Objective.minimize.pick (process.initial.map fun entries =>
          entries.expectation (process.valuesOf config .minimize sets)),
        Objective.maximize.pick (process.initial.map fun entries =>
          entries.expectation (process.valuesOf config .maximize sets))⟩ := by
  have hextremal (objective : Objective) : process.extremal config objective formula =
      .ok (objective.pick (process.initial.map fun entries =>
        entries.expectation (process.valuesOf config objective sets))) := by
    simp only [extremal, hsets, bind, Except.bind]
    rfl
  rw [probabilityRange, hextremal, hextremal]
  rfl

theorem Stochastic.valuesOf_le (hprocess : process.Stochastic)
    (hsets : sets.Separate process.stateCount) {config : CheckerConfig ℚ}
    (hpace : sets.bound = none → process.KeepsPace config sets) {state : Nat}
    (hstate : state < process.stateCount) :
    (process.valuesOf config .minimize sets).getD state 0 ≤
      (process.valuesOf config .maximize sets).getD state 0 := by
  cases hbound : sets.bound with
  | some steps =>
      rw [valuesOf, valuesOf, hbound]
      exact hprocess.reach_minimize_le steps hstate
  | none =>
      rw [valuesOf, valuesOf, hbound]
      dsimp only
      rw [unbounded_eq_iterate, unbounded_eq_iterate]
      refine ((hprocess.ordered_iterate hsets _).le state hstate).trans ?_
      rcases hpace hbound with hnil | hle
      · rw [iterate_of_remaining_nil hnil, iterate_of_remaining_nil hnil]
      · exact hprocess.iterate_mono hsets .maximize hstate hle

/-- Sweep by sweep the values for the minimum are at most those for the maximum, so a range is in
order for bounded queries, if all sweeps are made, and whenever the iteration for the maximum is not
the first to come to rest. -/
theorem range_in_order (process : DecisionProcess ℚ) (hvalid : process.validate = .ok ())
    (hchoices : ∀ state < process.stateCount, ∀ entries ∈ process.choicesOf state,
      entries.IsDistribution process.stateCount)
    (hinitial : ∀ entries ∈ process.initial, entries.IsDistribution process.stateCount)
    (config : CheckerConfig ℚ) (formula : Formula) (sets : UntilSets)
    (hsets : UntilQuery.resolve formula process.propositions process.labels = .ok sets) :
    (∀ sweeps, ∀ state < process.stateCount,
      (process.iterate .minimize sets sweeps).getD state 0 ≤
        (process.iterate .maximize sets sweeps).getD state 0) ∧
    ∃ range, process.probabilityRange config formula = .ok range ∧
      (sets.bound.isSome ∨ config.convergence ≤ 0 ∨ process.KeepsPace config sets →
        range.min ≤ range.max) := by
  obtain ⟨hfirst, hstates⟩ := validate_eq_ok.1 hvalid
  have hprocess : process.Stochastic :=
    ⟨fun state hstate => (hstates state hstate).offers, hchoices⟩
  have hseparate : sets.Separate process.stateCount := UntilQuery.separate_of_resolve hsets
  refine ⟨fun sweeps => (hprocess.ordered_iterate hseparate sweeps).le, _,
    probabilityRange_eq hsets, fun hcases => ?_⟩
  have hpace (hbound : sets.bound = none) : process.KeepsPace config sets := by
    rcases hcases with hsome | hconvergence | hpace
    · simp [hbound] at hsome
    · exact keepsPace_of_nonpos hconvergence sets
    · exact hpace
  refine Objective.pick_le_pick hfirst.offers fun entries hentries => ?_
  refine Weighted.mean_le_mean (hinitial entries hentries).nonneg fun state hstate => ?_
  exact hprocess.valuesOf_le hseparate hpace ((hinitial entries hentries).lt_of_support hstate)

/-- State 0 is hardly ever left: for the goal, state 1, for a dead end, state 2, or for state 3,
from which one goes to the goal or tosses a coin for it. -/
def rareExit : DecisionProcess ℚ where
  choices := #[[[(1, 1 / 17592186044416), (2, 3 / 70368744177664), (3, 1 / 70368744177664),
      (0, 1 - 1 / 8796093022208)]], [[(1, 1)]], [[(2, 1)]], [[(1, 1)], [(1, 1 / 2), (2, 1 / 2)]]]
  labels := #[.empty, .below 1, .empty, .empty]
  initial := [[(0, 1)]]
  propositions := ["there"]

def exits : UntilSets := ⟨.ofTest 4 (· == 1), .empty 4, none⟩

theorem resolve_rareExit : UntilQuery.resolve (.eventually (.atom "there") none)
    rareExit.propositions rareExit.labels = .ok exits := by
  decide +kernel

theorem isDistribution_rareExit :
    (∀ state < rareExit.stateCount, ∀ entries ∈ rareExit.choicesOf state,
      entries.IsDistribution rareExit.stateCount) ∧
    ∀ entries ∈ rareExit.initial, entries.IsDistribution rareExit.stateCount := by
  have hinside : (∀ state < 4, ∀ entries ∈ rareExit.choicesOf state, ∀ entry ∈ entries,
      entry.1 < 4) ∧ ∀ entries ∈ rareExit.initial, ∀ entry ∈ entries, entry.1 < 4 := by decide
  have hnonneg : (∀ state < 4, ∀ entries ∈ rareExit.choicesOf state, ∀ entry ∈ entries,
      0 ≤ entry.2) ∧ ∀ entries ∈ rareExit.initial, ∀ entry ∈ entries, 0 ≤ entry.2 := by
    decide +kernel
  have htotal : (∀ state < 4, ∀ entries ∈ rareExit.choicesOf state, entries.total = 1) ∧
      ∀ entries ∈ rareExit.initial, entries.total = 1 := by decide +kernel
  exact ⟨fun state hstate entries hentries => ⟨hinside.1 state hstate entries hentries,
      hnonneg.1 state hstate entries hentries, htotal.1 state hstate entries hentries⟩,
    fun entries hentries =>
      ⟨hinside.2 entries hentries, hnonneg.2 entries hentries, htotal.2 entries hentries⟩⟩

theorem range_in_order_rareExit :
    rareExit.validate = .ok () ∧
      UntilQuery.resolve (.eventually (.atom "there") none) rareExit.propositions
        rareExit.labels = .ok exits ∧
      (rareExit.iterate .minimize exits 2).getD 0 0 ≤
        (rareExit.iterate .maximize exits 2).getD 0 0 ∧
      ∃ range, rareExit.probabilityRange ⟨50, 0⟩ (.eventually (.atom "there") none) = .ok range ∧
        range.min ≤ range.max := by
  have hvalid : rareExit.validate = .ok () := by decide +kernel
  obtain ⟨hsweeps, range, hrange, horder⟩ := range_in_order rareExit hvalid
    isDistribution_rareExit.1 isDistribution_rareExit.2 ⟨50, 0⟩ _ exits resolve_rareExit
  exact ⟨hvalid, resolve_rareExit, hsweeps 2 0 (by decide), range, hrange,
    horder (.inr (.inl le_rfl))⟩

/-- With the standard settings the maximum is left alone after its first sweep, in which state 0
gains less than the settings ask for. The minimum needs a sweep for state 3, and in the second one
state 0 overtakes. -/
theorem range_inverted_rareExit :
    rareExit.validate = .ok () ∧
      (∀ state < rareExit.stateCount, ∀ entries ∈ rareExit.choicesOf state,
        entries.IsDistribution rareExit.stateCount) ∧
      (∀ entries ∈ rareExit.initial, entries.IsDistribution rareExit.stateCount) ∧
      UntilQuery.resolve (.eventually (.atom "there") none) rareExit.propositions
        rareExit.labels = .ok exits ∧
      rareExit.sweepCount .standard .minimize exits = 2 ∧
      rareExit.sweepCount .standard .maximize exits = 1 ∧
      ∃ range, rareExit.probabilityRange .standard (.eventually (.atom "there") none) =
          .ok range ∧ range.max < range.min := by
  have hrange : (rareExit.probabilityRange .standard (.eventually (.atom "there") none)).map
      (fun range => decide (range.max < range.min)) = .ok true := by decide +kernel
  obtain ⟨range, hrange, hless⟩ := map_eq_ok.1 hrange
  exact ⟨by decide +kernel, isDistribution_rareExit.1, isDistribution_rareExit.2,
    resolve_rareExit, by decide +kernel, by decide +kernel, range, hrange, of_decide_eq_true hless⟩

end DecisionProcess

end Hazard
