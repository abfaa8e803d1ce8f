import Mathlib.Algebra.Order.Archimedean.Real.Basic
import Hazard.Proofs.Except
import Hazard.Proofs.Expectation
import Hazard.Proofs.ExtremeStates
/-!
# Reaching a goal within a bound

The values of bounded queries, by number of steps and state. They are probabilities, grow with the
number of steps, and so have a least upper bound, which is what unbounded queries ask for.
-/

namespace Hazard

/-! ## The sets of a query -/

/-- Goal and excluded states among so many states, none of them both. -/
structure UntilSets.Separate (sets : UntilSets) (states : Nat) : Prop where
  goal_fits : sets.goal.Fits states
  excluded_fits : sets.excluded.Fits states
  disjoint : ∀ state, sets.goal.contains state = true → sets.excluded.contains state = false

theorem UntilQuery.separate_of_sets {query : UntilQuery} {propositions : List String}
    {labels : Array Label} {sets : UntilSets}
    (hsets : query.sets propositions labels = .ok sets) : sets.Separate labels.size := by
  obtain ⟨hold, -, hrest⟩ := bind_eq_ok.1 hsets
  obtain ⟨goal, -, hresult⟩ := bind_eq_ok.1 hrest
  cases hresult
  have hstates (predicate : Predicate) := StateSet.comprises_ofTest labels.size fun state =>
    predicate.evaluate (labels.getD state .empty)
  have hexcluded := ((hstates hold).union (hstates goal)).complement
  refine ⟨(hstates goal).toFits, hexcluded.toFits, fun state hgoal => ?_⟩
  rw [← Bool.not_eq_true]
  intro hstate
  exact ((hexcluded.contains_iff state).1 hstate).2
    (.inr (((hstates goal).contains_iff state).1 hgoal).2)

theorem UntilQuery.separate_of_resolve {formula : Formula} {propositions : List String}
    {labels : Array Label} {sets : UntilSets}
    (hsets : UntilQuery.resolve formula propositions labels = .ok sets) :
    sets.Separate labels.size := by
  rw [resolve] at hsets
  split at hsets
  · cases hsets
  · next query _ =>
    split at hsets
    · cases hsets
    · next hquery =>
      cases hsets
      exact separate_of_sets hquery

/-- What each of finitely many items has from some number on, all have from one number on. -/
theorem exists_common {β : Type} (items : List β) (holds : Nat → β → Prop)
    (hmono : ∀ item ∈ items, ∀ fewer more, fewer ≤ more → holds fewer item → holds more item)
    (hall : ∀ item ∈ items, ∃ number, holds number item) :
    ∃ number, ∀ item ∈ items, holds number item := by
  induction items with
  | nil => exact ⟨0, by simp⟩
  | cons first rest ih =>
      obtain ⟨number, hnumber⟩ := ih (fun item hitem => hmono item (by simp [hitem]))
        fun item hitem => hall item (by simp [hitem])
      obtain ⟨other, hother⟩ := hall first (by simp)
      refine ⟨max number other, fun item hitem => ?_⟩
      rcases List.mem_cons.1 hitem with rfl | hrest
      · exact hmono _ hitem other _ (le_max_right _ _) hother
      · exact hmono item hitem number _ (le_max_left _ _) (hnumber item hrest)

namespace DecisionProcess

/-- Every state has a choice, and every choice is a distribution over the states. -/
structure Stochastic (process : DecisionProcess ℚ) : Prop where
  offers : ∀ state < process.stateCount, process.choicesOf state ≠ []
  distributed : ∀ state < process.stateCount, ∀ entries ∈ process.choicesOf state,
    entries.IsDistribution process.stateCount

variable {process : DecisionProcess ℚ} {objective : Objective} {sets : UntilSets}
  {state steps : Nat} {bound : ℚ} {values : Array ℚ}

theorem Stochastic.proper (hprocess : process.Stochastic) : process.Proper where
  offers := hprocess.offers
  inside := fun state hstate entries hentries =>
    (hprocess.distributed state hstate entries hentries).inside
  moves := fun state hstate entries hentries =>
    (hprocess.distributed state hstate entries hentries).exists_positive

theorem le_best_iff (hoffers : process.choicesOf state ≠ []) :
    bound ≤ process.best objective values state ↔
      objective.Secures (process.choicesOf state) fun entries =>
        bound ≤ entries.mean (values.getD · 0) := by
  rw [best, Objective.le_pick_iff (by simpa using hoffers)]
  simp only [Weighted.expectation_eq_mean]
  cases objective with
  | maximize => simp [Objective.Secures]
  | minimize => simp [Objective.Secures]

/-! ## The recurrence -/

/-- The best probability to reach the goal within so many steps. -/
def reach (process : DecisionProcess ℚ) (objective : Objective) (sets : UntilSets)
    (steps state : Nat) : ℚ :=
  (process.bounded objective sets.goal sets.excluded steps).getD state 0

theorem boundedFrom_succ (values : Array ℚ) :
    process.boundedFrom objective sets.goal sets.excluded (steps + 1) values =
      process.boundedStep objective sets.goal sets.excluded
        (process.boundedFrom objective sets.goal sets.excluded steps values) := by
  induction steps generalizing values with
  | zero => rfl
  | succ steps ih => exact ih _

theorem getD_map_range {count : Nat} (value : Nat → ℚ) (hstate : state < count) :
    (((List.range count).map value).toArray).getD state 0 = value state := by
  simp [Array.getD_eq_getD_getElem?, hstate]

theorem reach_zero (hstate : state < process.stateCount) :
    process.reach objective sets 0 state = if sets.goal.contains state then 1 else 0 :=
  getD_map_range (fun state => if sets.goal.contains state then 1 else 0) hstate

theorem reach_succ (hstate : state < process.stateCount) :
    process.reach objective sets (steps + 1) state =
      if sets.goal.contains state then 1
      else if sets.excluded.contains state then 0
      else process.best objective (process.bounded objective sets.goal sets.excluded steps)
        state := by
  rw [reach, bounded, boundedFrom_succ]
  exact getD_map_range _ hstate

theorem reach_goal (hstate : state < process.stateCount)
    (hgoal : sets.goal.contains state = true) : process.reach objective sets steps state = 1 := by
  cases steps with
  | zero => rw [reach_zero hstate, if_pos hgoal]
  | succ steps => rw [reach_succ hstate, if_pos hgoal]

theorem reach_excluded (hstate : state < process.stateCount)
    (hgoal : sets.goal.contains state = false) (hexcluded : sets.excluded.contains state = true) :
    process.reach objective sets steps state = 0 := by
  cases steps with
  | zero => simp [reach_zero hstate, hgoal]
  | succ steps => simp [reach_succ hstate, hgoal, hexcluded]

theorem reach_undecided (hstate : state < process.stateCount)
    (hundecided : Undecided sets.goal sets.excluded state) :
    process.reach objective sets (steps + 1) state =
      process.best objective (process.bounded objective sets.goal sets.excluded steps) state := by
  simp [reach_succ hstate, hundecided.1, hundecided.2]

theorem decided_cases (goal excluded : StateSet) (state : Nat) :
    goal.contains state = true ∨
      goal.contains state = false ∧ excluded.contains state = true ∨
        Undecided goal excluded state := by
  unfold Undecided
  cases goal.contains state <;> cases excluded.contains state <;> simp

namespace Stochastic

variable (hprocess : process.Stochastic)
include hprocess

theorem le_best_iff (hstate : state < process.stateCount) :
    bound ≤ process.best objective values state ↔
      objective.Secures (process.choicesOf state) fun entries =>
        bound ≤ entries.mean (values.getD · 0) :=
  DecisionProcess.le_best_iff (hprocess.offers state hstate)

theorem lt_of_support {entries : Weighted ℚ} {next : Nat} (hstate : state < process.stateCount)
    (hentries : entries ∈ process.choicesOf state) (hnext : next ∈ entries.support) :
    next < process.stateCount :=
  hprocess.proper.lt_of_support hstate hentries hnext

theorem le_reach_succ_iff (hstate : state < process.stateCount)
    (hundecided : Undecided sets.goal sets.excluded state) :
    bound ≤ process.reach objective sets (steps + 1) state ↔
      objective.Secures (process.choicesOf state) fun entries =>
        bound ≤ entries.mean (process.reach objective sets steps) := by
  rw [reach_undecided hstate hundecided, hprocess.le_best_iff hstate]
  rfl

theorem secures_reach (objective : Objective) (steps : Nat) (hstate : state < process.stateCount)
    (hundecided : Undecided sets.goal sets.excluded state) :
    objective.Secures (process.choicesOf state) fun entries =>
      process.reach objective sets (steps + 1) state ≤
        entries.mean (process.reach objective sets steps) :=
  (hprocess.le_reach_succ_iff hstate hundecided).1 le_rfl

theorem best_mono {lesser greater : Array ℚ} (hstate : state < process.stateCount)
    (hle : ∀ next < process.stateCount, lesser.getD next 0 ≤ greater.getD next 0) :
    process.best objective lesser state ≤ process.best objective greater state := by
  rw [hprocess.le_best_iff hstate]
  apply ((hprocess.le_best_iff hstate).1 le_rfl).imp
  intro entries hentries hbound
  have hnonneg := (hprocess.distributed state hstate entries hentries).nonneg
  refine hbound.trans (Weighted.mean_le_mean hnonneg fun next hnext => ?_)
  exact hle next (hprocess.lt_of_support hstate hentries hnext)

theorem reach_nonneg (hstate : state < process.stateCount) :
    0 ≤ process.reach objective sets steps state := by
  induction steps generalizing state with
  | zero =>
      rw [reach_zero hstate]
      split <;> norm_num
  | succ steps ih =>
      rcases decided_cases sets.goal sets.excluded state with hgoal | ⟨hgoal, hexcluded⟩ | hopen
      · rw [reach_goal hstate hgoal]
        norm_num
      · rw [reach_excluded hstate hgoal hexcluded]
      · rw [hprocess.le_reach_succ_iff hstate hopen]
        refine Objective.secures_of_forall (hprocess.offers state hstate) fun entries hentries => ?_
        exact (hprocess.distributed state hstate entries hentries).le_mean fun next hnext =>
          ih (hprocess.lt_of_support hstate hentries hnext)

theorem reach_le_one (hstate : state < process.stateCount) :
    process.reach objective sets steps state ≤ 1 := by
  induction steps generalizing state with
  | zero =>
      rw [reach_zero hstate]
      split <;> norm_num
  | succ steps ih =>
      rcases decided_cases sets.goal sets.excluded state with hgoal | ⟨hgoal, hexcluded⟩ | hopen
      · rw [reach_goal hstate hgoal]
      · rw [reach_excluded hstate hgoal hexcluded]
        norm_num
      · obtain ⟨entries, hentries, hbound⟩ :=
          (hprocess.secures_reach objective steps hstate hopen).exists
            (hprocess.offers state hstate)
        exact hbound.trans <| (hprocess.distributed state hstate entries hentries).mean_le
          fun next hnext => ih (hprocess.lt_of_support hstate hentries hnext)

theorem reach_le_succ (hstate : state < process.stateCount) :
    process.reach objective sets steps state ≤ process.reach objective sets (steps + 1) state := by
  induction steps generalizing state with
  | zero =>
      rcases hgoal : sets.goal.contains state with _ | _
      · rw [reach_zero hstate, hgoal]
        exact hprocess.reach_nonneg hstate
      · rw [reach_goal hstate hgoal, reach_goal hstate hgoal]
  | succ steps ih =>
      rcases decided_cases sets.goal sets.excluded state with hgoal | ⟨hgoal, hexcluded⟩ | hopen
      · rw [reach_goal hstate hgoal, reach_goal hstate hgoal]
      · rw [reach_excluded hstate hgoal hexcluded, reach_excluded hstate hgoal hexcluded]
      · rw [reach_undecided hstate hopen, reach_undecided hstate hopen]
        exact hprocess.best_mono hstate fun next hnext => ih hnext

theorem reach_mono (objective : Objective) (sets : UntilSets)
    (hstate : state < process.stateCount) :
    Monotone fun steps => process.reach objective sets steps state :=
  monotone_nat_of_le_succ fun _ => hprocess.reach_le_succ hstate

end Stochastic

/-! ## The least upper bound -/

/-- The best probability to reach the goal at all: the least upper bound of the bounded ones. -/
noncomputable def supremum (process : DecisionProcess ℚ) (objective : Objective)
    (sets : UntilSets) (state : Nat) : ℝ :=
  ⨆ steps, (process.reach objective sets steps state : ℝ)

/-- The bounded probabilities come as close to a bound as one likes, or exceed it. -/
def Approached (process : DecisionProcess ℚ) (objective : Objective) (sets : UntilSets)
    (state : Nat) (bound : ℚ) : Prop :=
  ∀ slack > 0, ∃ steps, bound ≤ process.reach objective sets steps state + slack

namespace Stochastic

variable (hprocess : process.Stochastic)
include hprocess

theorem isLUB_supremum (objective : Objective) (sets : UntilSets)
    (hstate : state < process.stateCount) :
    IsLUB (Set.range fun steps => (process.reach objective sets steps state : ℝ))
      (process.supremum objective sets state) := by
  apply isLUB_ciSup
  refine ⟨1, ?_⟩
  rintro _ ⟨steps, rfl⟩
  dsimp only
  exact_mod_cast hprocess.reach_le_one hstate

theorem approached_iff (hstate : state < process.stateCount) :
    process.Approached objective sets state bound ↔
      (bound : ℝ) ≤ process.supremum objective sets state := by
  have hlub := hprocess.isLUB_supremum objective sets hstate
  constructor
  · intro happroached
    refine le_of_forall_pos_le_add fun slack hslack => ?_
    obtain ⟨small, hsmall, hless⟩ := exists_rat_btwn hslack
    obtain ⟨steps, hsteps⟩ := happroached small (by exact_mod_cast hsmall)
    have hreach : (process.reach objective sets steps state : ℝ) ≤ _ := hlub.1 ⟨steps, rfl⟩
    have hsteps : (bound : ℝ) ≤ process.reach objective sets steps state + small := by
      exact_mod_cast hsteps
    linarith
  · intro hle slack hslack
    by_contra hnone
    push Not at hnone
    have hupper : process.supremum objective sets state ≤ ((bound - slack : ℚ) : ℝ) := by
      apply hlub.2
      rintro _ ⟨steps, rfl⟩
      have hreach : process.reach objective sets steps state ≤ bound - slack := by
        linarith [hnone steps]
      dsimp only
      exact_mod_cast hreach
    have hless : bound ≤ bound - slack := by exact_mod_cast hle.trans hupper
    linarith

theorem exists_steps {target : Nat → ℚ} {slack : ℚ} (hslack : 0 < slack)
    (happroached : ∀ state < process.stateCount,
      process.Approached objective sets state (target state)) :
    ∃ steps, ∀ state < process.stateCount,
      target state ≤ process.reach objective sets steps state + slack := by
  have hcommon := exists_common (List.range process.stateCount)
    (fun steps state => target state ≤ process.reach objective sets steps state + slack) ?_ ?_
  · simpa using hcommon
  · intro state hstate fewer more hle hfewer
    have hmono := hprocess.reach_mono objective sets (List.mem_range.1 hstate) hle
    dsimp only at hmono
    linarith
  · exact fun state hstate => happroached state (List.mem_range.1 hstate) slack hslack

theorem approached_best (happroached : ∀ state < process.stateCount,
      process.Approached objective sets state (values.getD state 0))
    (hstate : state < process.stateCount) (hopen : Undecided sets.goal sets.excluded state) :
    process.Approached objective sets state (process.best objective values state) := by
  intro slack hslack
  obtain ⟨steps, hsteps⟩ := hprocess.exists_steps hslack happroached
  refine ⟨steps + 1, ?_⟩
  rw [← sub_le_iff_le_add, hprocess.le_reach_succ_iff hstate hopen]
  apply ((hprocess.le_best_iff hstate).1 le_rfl).imp
  intro entries hentries hbound
  have hdistribution := hprocess.distributed state hstate entries hentries
  rw [sub_le_iff_le_add, ← hdistribution.mean_add_const]
  refine hbound.trans (Weighted.mean_le_mean hdistribution.nonneg fun next hnext => ?_)
  exact hsteps next (hprocess.lt_of_support hstate hentries hnext)

end Stochastic

end DecisionProcess

end Hazard
