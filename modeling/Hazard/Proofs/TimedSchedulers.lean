import Hazard.Proofs.BoundedReach
import Hazard.Proofs.LabelSequences
/-!
# Schedulers that count the steps

A bounded query leaves it to a scheduler what to choose, and the scheduler may take into account how
many steps are left. Under a fixed scheduler the probability to succeed is the total weight of the
ways that come to the goal in time. The checker's values are the best of these probabilities, and a
single scheduler attains them all.
-/

namespace Hazard

/-! ## The better and the best -/

namespace Objective

def Prefers : Objective → ℚ → ℚ → Prop
  | .minimize, value, other => value ≤ other
  | .maximize, value, other => other ≤ value

def IsBest : Objective → Set ℚ → ℚ → Prop
  | .minimize => IsLeast
  | .maximize => IsGreatest

variable {objective : Objective} {value other third : ℚ} {values : List ℚ}

theorem isBest_iff {all : Set ℚ} :
    objective.IsBest all value ↔ value ∈ all ∧ ∀ other ∈ all, objective.Prefers value other := by
  cases objective <;> rfl

theorem prefers_refl (objective : Objective) (value : ℚ) : objective.Prefers value value := by
  cases objective with
  | minimize => exact le_refl value
  | maximize => exact le_refl value

theorem Prefers.trans (h : objective.Prefers value other) (h' : objective.Prefers other third) :
    objective.Prefers value third := by
  cases objective with
  | minimize => exact le_trans h h'
  | maximize => exact le_trans h' h

theorem prefers_mean {entries : Weighted ℚ} {better worse : Nat → ℚ}
    (hnonneg : ∀ entry ∈ entries, 0 ≤ entry.2)
    (hprefers : ∀ state, objective.Prefers (better state) (worse state)) :
    objective.Prefers (entries.mean better) (entries.mean worse) := by
  cases objective with
  | minimize => exact Weighted.mean_le_mean hnonneg fun state _ => hprefers state
  | maximize => exact Weighted.mean_le_mean hnonneg fun state _ => hprefers state

end Objective

theorem Scalar.foldl_mem {choose : ℚ → ℚ → ℚ} (hchoose : ∀ x y, choose x y = x ∨ choose x y = y)
    (first : ℚ) (rest : List ℚ) : rest.foldl choose first ∈ first :: rest := by
  induction rest generalizing first with
  | nil => simp
  | cons second rest ih =>
      rcases hchoose first second with heq | heq
      · have := ih first
        simp only [List.foldl_cons, heq, List.mem_cons] at this ⊢
        tauto
      · rw [List.foldl_cons, heq]
        exact List.mem_cons_of_mem _ (ih second)

namespace Objective

variable {objective : Objective} {values : List ℚ}

theorem pick_mem (hne : values ≠ []) : objective.pick values ∈ values := by
  obtain ⟨first, rest, rfl⟩ := List.exists_cons_of_ne_nil hne
  cases objective with
  | minimize =>
      rw [pick, Scalar.leastOf, Scalar.select_cons, Option.getD_some]
      refine Scalar.foldl_mem (fun x y => ?_) first rest
      exact (ite_eq_or_eq (y < x) y x).symm
  | maximize =>
      rw [pick, Scalar.greatestOf, Scalar.select_cons, Option.getD_some]
      refine Scalar.foldl_mem (fun x y => ?_) first rest
      exact (ite_eq_or_eq (x < y) y x).symm

theorem isBest_pick (objective : Objective) (hne : values ≠ []) :
    objective.IsBest {value | value ∈ values} (objective.pick values) := by
  refine isBest_iff.2 ⟨pick_mem hne, fun value hvalue => ?_⟩
  cases objective with
  | minimize =>
      have hall : minimize.Secures values (minimize.pick values ≤ ·) := (le_pick_iff hne).1 le_rfl
      exact hall value hvalue
  | maximize => exact (le_pick_iff hne).2 ⟨value, hvalue, le_rfl⟩

theorem isBest_expectation {choices : List (Weighted ℚ)} (hne : choices ≠ []) (values : Array ℚ) :
    objective.IsBest {value | ∃ entries ∈ choices, entries.mean (values.getD · 0) = value}
      (objective.pick (choices.map fun entries => entries.expectation values)) := by
  simpa only [List.mem_map, Weighted.expectation_eq_mean] using
    isBest_pick objective (List.map_eq_nil_iff.not.2 hne)

end Objective

namespace DecisionProcess

/-- A scheduler picks a distribution from the number of steps that remain and the state. -/
structure TimedScheduler (process : DecisionProcess ℚ) where
  choice : (remaining state : Nat) → Weighted ℚ
  offered : ∀ remaining, ∀ state < process.stateCount,
    choice remaining state ∈ process.choicesOf state
  idle : ∀ remaining state, process.stateCount ≤ state → choice remaining state = []

namespace TimedScheduler

variable {process : DecisionProcess ℚ}

/-- The ways to the goal: the moves that a scheduler can make until it comes there for the first
time, in the steps that remain and past no excluded state. -/
def successes (scheduler : process.TimedScheduler) (sets : UntilSets) :
    (remaining state : Nat) → List (List (Nat × ℚ))
  | 0, state => if sets.goal.contains state then [[]] else []
  | remaining + 1, state =>
    if sets.goal.contains state then [[]]
    else if sets.excluded.contains state then []
    else (scheduler.choice (remaining + 1) state).flatMap fun move =>
      (scheduler.successes sets remaining move.1).map (move :: ·)

/-- The probability to succeed: the sum over all ways of the product of their moves. -/
def probability (scheduler : process.TimedScheduler) (sets : UntilSets)
    (remaining state : Nat) : ℚ :=
  ((scheduler.successes sets remaining state).map fun way => (way.map (·.2)).prod).sum

variable {scheduler : process.TimedScheduler} {sets : UntilSets} {remaining steps state : Nat}

theorem probability_goal (hgoal : sets.goal.contains state = true) :
    scheduler.probability sets remaining state = 1 := by
  cases remaining <;> simp [probability, successes, hgoal]

theorem probability_zero (hgoal : sets.goal.contains state = false) :
    scheduler.probability sets 0 state = 0 := by
  simp [probability, successes, hgoal]

theorem probability_excluded (hgoal : sets.goal.contains state = false)
    (hexcluded : sets.excluded.contains state = true) :
    scheduler.probability sets remaining state = 0 := by
  cases remaining <;> simp [probability, successes, hgoal, hexcluded]

/-- The first move is weighed, and the scheduler goes on from where it leads. -/
theorem probability_undecided (hopen : Undecided sets.goal sets.excluded state) :
    scheduler.probability sets (remaining + 1) state =
      (scheduler.choice (remaining + 1) state).mean (scheduler.probability sets remaining) := by
  rw [probability, successes, if_neg (by simp [hopen.1]), if_neg (by simp [hopen.2])]
  exact sum_map_sequences _ _ fun move rest => by rw [List.map_cons, List.prod_cons]

theorem probability_outside (hsets : sets.Separate process.stateCount)
    (hstate : process.stateCount ≤ state) : scheduler.probability sets remaining state = 0 := by
  have hgoal : sets.goal.contains state = false := by
    rw [← Bool.not_eq_true]
    exact fun hgoal => absurd (hsets.goal_fits.lt_of_contains hgoal) (not_lt.2 hstate)
  cases remaining with
  | zero => exact probability_zero hgoal
  | succ remaining =>
      cases hexcluded : sets.excluded.contains state with
      | true => exact probability_excluded hgoal hexcluded
      | false =>
          rw [probability_undecided ⟨hgoal, hexcluded⟩, scheduler.idle _ _ hstate,
            Weighted.mean_nil]

end TimedScheduler

variable {process : DecisionProcess ℚ} {objective : Objective} {sets : UntilSets}
  {steps state : Nat}

theorem reach_outside (hstate : process.stateCount ≤ state) :
    process.reach objective sets steps state = 0 := by
  have hmap (value : Nat → ℚ) :
      (((List.range process.stateCount).map value).toArray).getD state 0 = 0 := by
    simp [Array.getD_eq_getD_getElem?, hstate]
  cases steps with
  | zero => exact hmap _
  | succ steps =>
      rw [reach, bounded, boundedFrom_succ]
      exact hmap _

theorem isBest_reach_succ (objective : Objective) (steps : Nat)
    (hoffers : process.choicesOf state ≠ []) (hstate : state < process.stateCount)
    (hopen : Undecided sets.goal sets.excluded state) :
    objective.IsBest
      {value | ∃ entries ∈ process.choicesOf state,
        entries.mean (process.reach objective sets steps) = value}
      (process.reach objective sets (steps + 1) state) := by
  rw [reach_undecided hstate hopen]
  exact Objective.isBest_expectation hoffers _

/-- To compare the checker's values with a scheduler's probabilities it is enough to compare them
where a choice is made. -/
theorem reach_related {related : ℚ → ℚ → Prop} (hrefl : ∀ value, related value value)
    (hsets : sets.Separate process.stateCount) (scheduler : process.TimedScheduler)
    (hchoice : ∀ steps state, state < process.stateCount → Undecided sets.goal sets.excluded state →
      (∀ next, related (process.reach objective sets steps next)
        (scheduler.probability sets steps next)) →
      related (process.reach objective sets (steps + 1) state)
        ((scheduler.choice (steps + 1) state).mean (scheduler.probability sets steps)))
    (steps state : Nat) :
    related (process.reach objective sets steps state)
      (scheduler.probability sets steps state) := by
  induction steps generalizing state with
  | zero =>
      rcases Nat.lt_or_ge state process.stateCount with hstate | hstate
      · cases hgoal : sets.goal.contains state with
        | true =>
            rw [reach_goal hstate hgoal, TimedScheduler.probability_goal hgoal]
            exact hrefl 1
        | false =>
            rw [reach_zero hstate, hgoal, TimedScheduler.probability_zero hgoal]
            exact hrefl 0
      · rw [reach_outside hstate, TimedScheduler.probability_outside hsets hstate]
        exact hrefl 0
  | succ steps ih =>
      rcases Nat.lt_or_ge state process.stateCount with hstate | hstate
      · rcases decided_cases sets.goal sets.excluded state with hgoal | ⟨hgoal, hexcluded⟩ | hopen
        · rw [reach_goal hstate hgoal, TimedScheduler.probability_goal hgoal]
          exact hrefl 1
        · rw [reach_excluded hstate hgoal hexcluded,
            TimedScheduler.probability_excluded hgoal hexcluded]
          exact hrefl 0
        · rw [TimedScheduler.probability_undecided hopen]
          exact hchoice steps state hstate hopen ih
      · rw [reach_outside hstate, TimedScheduler.probability_outside hsets hstate]
        exact hrefl 0

theorem prefers_probability (hsets : sets.Separate process.stateCount)
    (hoffers : ∀ state < process.stateCount, process.choicesOf state ≠ [])
    (hnonneg : ∀ state < process.stateCount, ∀ entries ∈ process.choicesOf state,
      ∀ entry ∈ entries, 0 ≤ entry.2)
    (scheduler : process.TimedScheduler) (steps state : Nat) :
    objective.Prefers (process.reach objective sets steps state)
      (scheduler.probability sets steps state) := by
  refine reach_related objective.prefers_refl hsets scheduler ?_ steps state
  intro steps state hstate hopen ih
  have hchosen := scheduler.offered (steps + 1) state hstate
  have hbest := Objective.isBest_iff.1
    (isBest_reach_succ objective steps (hoffers state hstate) hstate hopen)
  exact (hbest.2 _ ⟨_, hchosen, rfl⟩).trans
    (Objective.prefers_mean (hnonneg state hstate _ hchosen) ih)

/-- One scheduler attains the checker's values for every number of steps and in every state. -/
theorem exists_optimal (objective : Objective) (hsets : sets.Separate process.stateCount)
    (hoffers : ∀ state < process.stateCount, process.choicesOf state ≠ []) :
    ∃ scheduler : process.TimedScheduler, ∀ steps state,
      process.reach objective sets steps state = scheduler.probability sets steps state := by
  have hexists (steps state : Nat) : ∃ entries : Weighted ℚ,
      (state < process.stateCount → entries ∈ process.choicesOf state ∧
        (Undecided sets.goal sets.excluded state →
          process.reach objective sets (steps + 1) state =
            entries.mean (process.reach objective sets steps))) ∧
      (process.stateCount ≤ state → entries = []) := by
    rcases Nat.lt_or_ge state process.stateCount with hstate | hstate
    · by_cases hopen : Undecided sets.goal sets.excluded state
      · obtain ⟨entries, hentries, hmean⟩ := (Objective.isBest_iff.1
          (isBest_reach_succ objective steps (hoffers state hstate) hstate hopen)).1
        exact ⟨entries, fun _ => ⟨hentries, fun _ => hmean.symm⟩, fun hle => by omega⟩
      · obtain ⟨entries, hentries⟩ := List.exists_mem_of_ne_nil _ (hoffers state hstate)
        exact ⟨entries, fun _ => ⟨hentries, fun h => absurd h hopen⟩, fun hle => by omega⟩
    · exact ⟨[], fun hlt => by omega, fun _ => rfl⟩
  choose choice hchoice hidle using hexists
  refine ⟨⟨fun remaining => choice (remaining - 1),
    fun remaining state hstate => (hchoice _ state hstate).1,
    fun remaining state hstate => hidle _ state hstate⟩, fun steps state => ?_⟩
  refine reach_related (fun _ => rfl) hsets _ ?_ steps state
  intro steps state hstate hopen ih
  rw [(hchoice steps state hstate).2 hopen, funext ih]
  rfl

theorem extremal_of_bound {formula : Formula}
    (hsets : UntilQuery.resolve formula process.propositions process.labels = .ok sets)
    (hbound : sets.bound = some steps) (config : CheckerConfig ℚ) (objective : Objective) :
    process.extremal config objective formula =
      .ok (objective.pick (process.initial.map fun entries =>
        entries.expectation (process.bounded objective sets.goal sets.excluded steps))) := by
  simp only [extremal, hsets, bind, Except.bind]
  rw [hbound]
  rfl

/-- The checker's value of a bounded query is, in every state, the attained optimum over all
schedulers, and its answer is the best expectation of these values over the initial choices. -/
theorem bounded_optimal (process : DecisionProcess ℚ)
    (hoffers : ∀ state < process.stateCount, process.choicesOf state ≠ [])
    (hnonneg : ∀ state < process.stateCount, ∀ entries ∈ process.choicesOf state,
      ∀ entry ∈ entries, 0 ≤ entry.2)
    (formula : Formula) (sets : UntilSets)
    (hsets : UntilQuery.resolve formula process.propositions process.labels = .ok sets)
    (steps : Nat) (hbound : sets.bound = some steps) (objective : Objective) :
    (∀ state < process.stateCount,
      objective.IsBest
        (Set.range fun scheduler : process.TimedScheduler =>
          scheduler.probability sets steps state)
        ((process.bounded objective sets.goal sets.excluded steps).getD state 0)) ∧
    ∀ config, ∃ answer, process.extremal config objective formula = .ok answer ∧
      (process.initial ≠ [] → objective.IsBest
        {value | ∃ entries ∈ process.initial, entries.mean
          ((process.bounded objective sets.goal sets.excluded steps).getD · 0) = value}
        answer) := by
  have hseparate : sets.Separate process.stateCount := UntilQuery.separate_of_resolve hsets
  constructor
  · intro state _
    obtain ⟨scheduler, hscheduler⟩ := exists_optimal objective hseparate hoffers
    refine Objective.isBest_iff.2 ⟨⟨scheduler, (hscheduler steps state).symm⟩, ?_⟩
    rintro _ ⟨other, rfl⟩
    exact prefers_probability hseparate hoffers hnonneg other steps state
  · intro config
    refine ⟨_, extremal_of_bound hsets hbound config objective, fun hinitial => ?_⟩
    exact Objective.isBest_expectation hinitial _

/-- State 0 takes a gamble on the goal, state 1, or a detour through state 2, which is safe but
takes one step more. One starts in state 0 or goes on from state 2. -/
def gamble : DecisionProcess ℚ where
  choices := #[[[(1, 1 / 2), (3, 1 / 2)], [(2, 1)]], [[(1, 1)]], [[(1, 1)]], [[(3, 1)]]]
  labels := #[.empty, .below 1, .empty, .empty]
  initial := [[(0, 1)], [(2, 1)]]
  propositions := ["there"]

def inTime (steps : Nat) : UntilSets := ⟨.ofTest 4 (· == 1), .empty 4, some steps⟩

theorem bounded_optimal_gamble :
    (∀ state < gamble.stateCount, gamble.choicesOf state ≠ []) ∧
      (∀ state < gamble.stateCount, ∀ entries ∈ gamble.choicesOf state,
        ∀ entry ∈ entries, 0 ≤ entry.2) ∧
      UntilQuery.resolve (.eventually (.atom "there") (some 2)) gamble.propositions gamble.labels =
        .ok (inTime 2) ∧
      IsGreatest (Set.range fun scheduler : gamble.TimedScheduler =>
        scheduler.probability (inTime 1) 1 0) (1 / 2) ∧
      IsGreatest (Set.range fun scheduler : gamble.TimedScheduler =>
        scheduler.probability (inTime 2) 2 0) 1 ∧
      IsLeast (Set.range fun scheduler : gamble.TimedScheduler =>
        scheduler.probability (inTime 2) 2 0) (1 / 2) ∧
      ∃ answer, gamble.extremal ⟨0, 0⟩ .minimize (.eventually (.atom "there") (some 2)) =
          .ok answer ∧
        IsLeast {value | ∃ entries ∈ gamble.initial, entries.mean
          ((gamble.bounded .minimize (inTime 2).goal (inTime 2).excluded 2).getD · 0) = value}
          answer := by
  have hoffers : ∀ state < gamble.stateCount, gamble.choicesOf state ≠ [] := by decide
  have hnonneg : ∀ state < gamble.stateCount, ∀ entries ∈ gamble.choicesOf state,
      ∀ entry ∈ entries, 0 ≤ entry.2 := by decide +kernel
  have hone : UntilQuery.resolve (.eventually (.atom "there") (some 1)) gamble.propositions
      gamble.labels = .ok (inTime 1) := by decide +kernel
  have htwo : UntilQuery.resolve (.eventually (.atom "there") (some 2)) gamble.propositions
      gamble.labels = .ok (inTime 2) := by decide +kernel
  have hmax := (bounded_optimal gamble hoffers hnonneg _ _ htwo 2 rfl .maximize).1 0 (by decide)
  have hmin := bounded_optimal gamble hoffers hnonneg _ _ htwo 2 rfl .minimize
  have hless := (bounded_optimal gamble hoffers hnonneg _ _ hone 1 rfl .maximize).1 0 (by decide)
  obtain ⟨answer, hanswer, hbest⟩ := hmin.2 ⟨0, 0⟩
  refine ⟨hoffers, hnonneg, htwo, ?_, ?_, ?_, answer, hanswer, hbest (by decide)⟩
  · rwa [show (gamble.bounded .maximize (inTime 1).goal (inTime 1).excluded 1).getD 0 0 = 1 / 2
      by decide +kernel] at hless
  · rwa [show (gamble.bounded .maximize (inTime 2).goal (inTime 2).excluded 2).getD 0 0 = 1
      by decide +kernel] at hmax
  · have hstate := hmin.1 0 (by decide)
    rwa [show (gamble.bounded .minimize (inTime 2).goal (inTime 2).excluded 2).getD 0 0 = 1 / 2
      by decide +kernel] at hstate

end DecisionProcess

end Hazard
