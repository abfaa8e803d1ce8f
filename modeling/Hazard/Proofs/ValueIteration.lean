import Hazard.Proofs.CertainReach
/-!
# Value iteration from below

Sweeps update values in place, state by state. What carries through the middle of a sweep is that
the values are a sub-solution: no open state is worth more than its best choice makes of the values
around it, and none is worth more than the bounded probabilities come close to. On sub-solutions an
update can only increase a value, and it gains at least what one more step gains.
-/

namespace Hazard

/-! ## Sweeps that are counted -/

namespace Sweep

variable {α : Type} [Scalar α]

def put (value : Array α → Nat → α) (values : Array α) (state : Nat) : Array α :=
  values.setIfInBounds state (value values state)

theorem values_once (value : Array α → Nat → α) (states : List Nat) (values : Array α) :
    (once value states values).values = states.foldl (put value) values := by
  have hfold (sweep : Sweep α) :
      (states.foldl (update value) sweep).values = states.foldl (put value) sweep.values := by
    induction states generalizing sweep with
    | nil => rfl
    | cons state rest ih => exact ih (update value sweep state)
  exact hfold ⟨values, 0⟩

def after (value : Array α → Nat → α) (states : List Nat) (start : Array α) : Nat → Array α
  | 0 => start
  | sweeps + 1 => (once value states (after value states start sweeps)).values

/-- How many sweeps are made until the limit, or until one changes too little. -/
def count (value : Array α → Nat → α) (states : List Nat) (convergence : α) :
    (limit : Nat) → Array α → Nat
  | 0, _ => 0
  | limit + 1, values =>
    let sweep := once value states values
    if sweep.change < convergence then 1
    else count value states convergence limit sweep.values + 1

theorem after_succ (value : Array α → Nat → α) (states : List Nat) (start : Array α)
    (sweeps : Nat) :
    after value states start (sweeps + 1) =
      after value states (once value states start).values sweeps := by
  induction sweeps with
  | zero => rfl
  | succ sweeps ih => rw [after, ih, after]

theorem repeated_eq_after (value : Array α → Nat → α) (states : List Nat) (convergence : α)
    (limit : Nat) (start : Array α) :
    repeated value states convergence limit start =
      after value states start (count value states convergence limit start) := by
  induction limit generalizing start with
  | zero => rfl
  | succ limit ih =>
      rw [repeated, count]
      split
      · rfl
      · rw [ih, after_succ]

end Sweep

namespace DecisionProcess

variable {process : DecisionProcess ℚ} {objective : Objective} {sets : UntilSets} {state : Nat}
  {values : Array ℚ} {value : Array ℚ → Nat → ℚ}

def remaining (process : DecisionProcess ℚ) (objective : Objective) (sets : UntilSets) :
    List Nat :=
  ((process.never objective sets).union (process.surely objective sets)).complement.toList

def start (process : DecisionProcess ℚ) (objective : Objective) (sets : UntilSets) : Array ℚ :=
  MarkovChain.indicator process.stateCount (process.surely objective sets)

/-! ## Sub-solutions -/

structure SubSolution (process : DecisionProcess ℚ) (objective : Objective) (sets : UntilSets)
    (values : Array ℚ) : Prop where
  size_eq : values.size = process.stateCount
  settled : ∀ state, state ∉ process.remaining objective sets →
    values.getD state 0 = (process.start objective sets).getD state 0
  le_best : ∀ state ∈ process.remaining objective sets,
    values.getD state 0 ≤ process.best objective values state
  approached : ∀ state < process.stateCount,
    process.Approached objective sets state (values.getD state 0)

theorem getD_setIfInBounds (hstate : state < values.size) (new : ℚ) (other : Nat) :
    (values.setIfInBounds state new).getD other 0 =
      if other = state then new else values.getD other 0 := by
  rw [Array.getD_eq_getD_getElem?, Array.getD_eq_getD_getElem?, Array.getElem?_setIfInBounds]
  by_cases hother : other = state
  · subst hother
    simp [hstate]
  · simp [hother, Ne.symm hother]

namespace Stochastic

variable (hprocess : process.Stochastic) (hsets : sets.Separate process.stateCount)
include hprocess hsets

theorem mem_remaining :
    state ∈ process.remaining objective sets ↔ state < process.stateCount ∧
      (process.never objective sets).contains state = false ∧
      (process.surely objective sets).contains state = false := by
  have hnever := hprocess.fits_never hsets objective
  have hsurely := hprocess.fits_surely hsets objective
  rw [remaining, StateSet.mem_toList, (hnever.union hsurely).contains_complement,
    StateSet.contains_union hnever hsurely]
  simp

theorem undecided_remaining (hstate : state ∈ process.remaining objective sets) :
    Undecided sets.goal sets.excluded state := by
  obtain ⟨-, hnever, hsurely⟩ := (hprocess.mem_remaining hsets).1 hstate
  exact hprocess.undecided_of_remaining hsets hnever hsurely

omit hprocess hsets in
theorem getD_start (hstate : state < process.stateCount) :
    (process.start objective sets).getD state 0 =
      if (process.surely objective sets).contains state then 1 else 0 :=
  getD_map_range (fun state => if (process.surely objective sets).contains state then 1 else 0)
    hstate

theorem subSolution_start (objective : Objective) :
    process.SubSolution objective sets (process.start objective sets) := by
  have hnonneg (state : Nat) (hstate : state < process.stateCount) :
      0 ≤ (process.start objective sets).getD state 0 := by
    rw [getD_start hstate]
    split <;> norm_num
  refine ⟨by simp [start, MarkovChain.indicator], fun _ _ => rfl, ?_, ?_⟩
  · intro state hstate
    obtain ⟨hlt, -, hsurely⟩ := (hprocess.mem_remaining hsets).1 hstate
    rw [getD_start hlt, hsurely, hprocess.le_best_iff hlt]
    refine Objective.secures_of_forall (hprocess.offers state hlt) fun entries hentries => ?_
    exact (hprocess.distributed state hlt entries hentries).le_mean fun next hnext =>
      hnonneg next (hprocess.lt_of_support hlt hentries hnext)
  · intro state hstate
    rw [getD_start hstate]
    split
    · next hsurely => exact hprocess.approached_surely hsets hsurely
    · intro slack hslack
      exact ⟨0, add_nonneg (hprocess.reach_nonneg hstate) hslack.le⟩

/-- A better value that the values around it still bear out may replace the old one. -/
theorem subSolution_set (hsub : process.SubSolution objective sets values) {new : ℚ}
    (hstate : state ∈ process.remaining objective sets) (hle : values.getD state 0 ≤ new)
    (hbest : new ≤ process.best objective (values.setIfInBounds state new) state)
    (happroached : process.Approached objective sets state new) :
    process.SubSolution objective sets (values.setIfInBounds state new) := by
  have hlt := ((hprocess.mem_remaining hsets).1 hstate).1
  have hget := getD_setIfInBounds (hsub.size_eq ▸ hlt) new
  have hmono (other : Nat) :
      values.getD other 0 ≤ (values.setIfInBounds state new).getD other 0 := by
    rw [hget]
    split
    · next heq => rwa [heq]
    · exact le_rfl
  refine ⟨by simpa using hsub.size_eq, ?_, ?_, ?_⟩
  · intro other hother
    rw [hget, if_neg (by rintro rfl; exact hother hstate), hsub.settled other hother]
  · intro other hother
    rw [hget]
    split
    · next heq => rwa [heq]
    · exact (hsub.le_best other hother).trans (hprocess.best_mono
        ((hprocess.mem_remaining hsets).1 hother).1 fun next _ => hmono next)
  · intro other hother
    rw [hget]
    split
    · next heq => rwa [heq]
    · exact hsub.approached other hother

end Stochastic

/-! ## Updates that improve -/

/-- A rule for the new value of a state that makes sub-solutions better ones, and gains at least
what one more step does. -/
structure Improving (process : DecisionProcess ℚ) (objective : Objective) (sets : UntilSets)
    (value : Array ℚ → Nat → ℚ) : Prop where
  increases : ∀ values, process.SubSolution objective sets values →
    ∀ state ∈ process.remaining objective sets, values.getD state 0 ≤ value values state
  keeps : ∀ values, process.SubSolution objective sets values →
    ∀ state ∈ process.remaining objective sets,
      process.SubSolution objective sets (Sweep.put value values state)
  gains : ∀ values, process.SubSolution objective sets values →
    ∀ state ∈ process.remaining objective sets, ∀ steps,
      (∀ other < process.stateCount,
        process.reach objective sets steps other ≤ values.getD other 0) →
      process.reach objective sets (steps + 1) state ≤ value values state

namespace Stochastic

variable (hprocess : process.Stochastic) (hsets : sets.Separate process.stateCount)
include hprocess hsets

theorem foldl_put (hvalue : process.Improving objective sets value) {todo : List Nat}
    (htodo : ∀ state ∈ todo, state ∈ process.remaining objective sets)
    (hsub : process.SubSolution objective sets values) :
    process.SubSolution objective sets (todo.foldl (Sweep.put value) values) ∧
      (∀ other, values.getD other 0 ≤ (todo.foldl (Sweep.put value) values).getD other 0) ∧
      ∀ steps, (∀ other < process.stateCount,
          process.reach objective sets steps other ≤ values.getD other 0) →
        ∀ state ∈ todo, process.reach objective sets (steps + 1) state ≤
          (todo.foldl (Sweep.put value) values).getD state 0 := by
  induction todo generalizing values with
  | nil => exact ⟨hsub, fun _ => le_rfl, by simp⟩
  | cons state rest ih =>
      have hstate := htodo state (by simp)
      have hlt : state < values.size :=
        hsub.size_eq ▸ ((hprocess.mem_remaining hsets).1 hstate).1
      have hget := getD_setIfInBounds hlt (value values state)
      have hput (other : Nat) :
          values.getD other 0 ≤ (Sweep.put value values state).getD other 0 := by
        rw [Sweep.put, hget]
        split
        · next heq => exact heq ▸ hvalue.increases values hsub state hstate
        · exact le_rfl
      obtain ⟨hrest, hmono, hgains⟩ := ih (fun other hother => htodo other (by simp [hother]))
        (hvalue.keeps values hsub state hstate)
      refine ⟨hrest, fun other => (hput other).trans (hmono other), ?_⟩
      intro steps hbelow other hother
      rcases List.mem_cons.1 hother with rfl | hother
      · calc process.reach objective sets (steps + 1) other
            ≤ value values other := hvalue.gains values hsub other hstate steps hbelow
          _ = (Sweep.put value values other).getD other 0 := by rw [Sweep.put, hget, if_pos rfl]
          _ ≤ _ := hmono other
      · exact hgains steps (fun next hnext => (hbelow next hnext).trans (hput next)) other hother

/-- So many sweeps by an improving rule gain at least what as many steps do. -/
theorem subSolution_after (hvalue : process.Improving objective sets value) (sweeps : Nat) :
    process.SubSolution objective sets (Sweep.after value (process.remaining objective sets)
        (process.start objective sets) sweeps) ∧
      ∀ state < process.stateCount, process.reach objective sets sweeps state ≤
        (Sweep.after value (process.remaining objective sets) (process.start objective sets)
          sweeps).getD state 0 := by
  have hsettled (values : Array ℚ) (hsub : process.SubSolution objective sets values)
      (steps state : Nat) (hlt : state < process.stateCount)
      (hstate : state ∉ process.remaining objective sets) :
      process.reach objective sets steps state ≤ values.getD state 0 := by
    rw [hsub.settled state hstate, getD_start hlt]
    split
    · exact hprocess.reach_le_one hlt
    · next hsurely =>
      rw [hprocess.mem_remaining hsets] at hstate
      exact (hprocess.reach_never hsets (by simp_all)).le
  induction sweeps with
  | zero =>
      have hsub := hprocess.subSolution_start hsets objective
      refine ⟨hsub, fun state hlt => ?_⟩
      by_cases hstate : state ∈ process.remaining objective sets
      · have hgoal := (hprocess.undecided_remaining hsets hstate).1
        obtain ⟨-, -, hsurely⟩ := (hprocess.mem_remaining hsets).1 hstate
        rw [Sweep.after, reach_zero hlt, getD_start hlt, hgoal, hsurely]
      · exact hsettled _ hsub 0 state hlt hstate
  | succ sweeps ih =>
      obtain ⟨hsub, hbelow⟩ := ih
      obtain ⟨hnew, -, hgains⟩ := hprocess.foldl_put hsets hvalue (fun _ h => h) hsub
      rw [Sweep.after, Sweep.values_once]
      refine ⟨hnew, fun state hlt => ?_⟩
      by_cases hstate : state ∈ process.remaining objective sets
      · exact hgains sweeps hbelow state hstate
      · exact hsettled _ hnew _ state hlt hstate

/-- Sweeps by an improving rule increase the values, which stay between the bounded probability of
as many steps and the least upper bound of all. -/
theorem after_between (hvalue : process.Improving objective sets value) (sweeps : Nat)
    (hstate : state < process.stateCount) :
    process.reach objective sets sweeps state ≤
        (Sweep.after value (process.remaining objective sets) (process.start objective sets)
          sweeps).getD state 0 ∧
      ((Sweep.after value (process.remaining objective sets) (process.start objective sets)
        sweeps).getD state 0 : ℝ) ≤ process.supremum objective sets state ∧
      (Sweep.after value (process.remaining objective sets) (process.start objective sets)
          sweeps).getD state 0 ≤
        (Sweep.after value (process.remaining objective sets) (process.start objective sets)
          (sweeps + 1)).getD state 0 := by
  obtain ⟨hsub, hbelow⟩ := hprocess.subSolution_after hsets hvalue sweeps
  refine ⟨hbelow state hstate, ?_, ?_⟩
  · exact (hprocess.approached_iff hstate).1 (hsub.approached state hstate)
  · rw [Sweep.after.eq_2, Sweep.values_once]
    exact (hprocess.foldl_put hsets hvalue (fun _ h => h) hsub).2.1 state

theorem improving_best (objective : Objective) :
    process.Improving objective sets (process.best objective) where
  increases := fun values hsub state hstate => hsub.le_best state hstate
  keeps := by
    intro values hsub state hstate
    have hlt := ((hprocess.mem_remaining hsets).1 hstate).1
    have hle := hsub.le_best state hstate
    apply hprocess.subSolution_set hsets hsub hstate hle
    · apply hprocess.best_mono hlt
      intro other _
      rw [getD_setIfInBounds (hsub.size_eq ▸ hlt)]
      split
      · next heq => rwa [heq]
      · exact le_rfl
    · exact hprocess.approached_best hsub.approached hlt
        (hprocess.undecided_remaining hsets hstate)
  gains := by
    intro values hsub state hstate steps hbelow
    have hlt := ((hprocess.mem_remaining hsets).1 hstate).1
    rw [reach_undecided hlt (hprocess.undecided_remaining hsets hstate)]
    exact hprocess.best_mono hlt hbelow

end Stochastic

/-! ## The checker's iteration -/

def iterate (process : DecisionProcess ℚ) (objective : Objective) (sets : UntilSets)
    (sweeps : Nat) : Array ℚ :=
  Sweep.after (process.best objective) (process.remaining objective sets)
    (process.start objective sets) sweeps

def sweepCount (process : DecisionProcess ℚ) (config : CheckerConfig ℚ) (objective : Objective)
    (sets : UntilSets) : Nat :=
  match process.remaining objective sets with
  | [] => 0
  | remaining => Sweep.count (process.best objective) remaining config.convergence
      config.iterations (process.start objective sets)

theorem unbounded_eq_iterate (process : DecisionProcess ℚ) (config : CheckerConfig ℚ)
    (objective : Objective) (sets : UntilSets) :
    process.unbounded config objective sets.goal sets.excluded =
      process.iterate objective sets (process.sweepCount config objective sets) := by
  change (match process.remaining objective sets with
    | [] => process.start objective sets
    | remaining => Sweep.repeated (process.best objective) remaining config.convergence
        config.iterations (process.start objective sets)) = _
  rw [iterate, sweepCount]
  cases process.remaining objective sets with
  | nil => rfl
  | cons first rest => exact Sweep.repeated_eq_after _ _ _ _ _

/-- The values of an unbounded query lie between the bounded probability with as many steps as there
were sweeps and the least upper bound of all bounded ones, and no sweep decreases one. States that
the graph settles have exactly the least upper bounds 0 and 1. -/
theorem unbounded_between_bounded (process : DecisionProcess ℚ) (hprocess : process.Stochastic)
    (config : CheckerConfig ℚ) (objective : Objective) (formula : Formula) (sets : UntilSets)
    (hsets : UntilQuery.resolve formula process.propositions process.labels = .ok sets) :
    process.unbounded config objective sets.goal sets.excluded =
        process.iterate objective sets (process.sweepCount config objective sets) ∧
      ∀ state < process.stateCount,
        IsLUB (Set.range fun steps => (process.reach objective sets steps state : ℝ))
            (process.supremum objective sets state) ∧
          (∀ sweeps,
            process.reach objective sets sweeps state ≤
                (process.iterate objective sets sweeps).getD state 0 ∧
              ((process.iterate objective sets sweeps).getD state 0 : ℝ) ≤
                process.supremum objective sets state ∧
              (process.iterate objective sets sweeps).getD state 0 ≤
                (process.iterate objective sets (sweeps + 1)).getD state 0) ∧
          ((process.never objective sets).contains state = true →
            process.supremum objective sets state = 0) ∧
          ((process.surely objective sets).contains state = true →
            process.supremum objective sets state = 1) := by
  have hseparate : sets.Separate process.stateCount := UntilQuery.separate_of_resolve hsets
  refine ⟨unbounded_eq_iterate process config objective sets, fun state hstate => ?_⟩
  refine ⟨hprocess.isLUB_supremum objective sets hstate, fun sweeps => ?_,
    hprocess.supremum_never hseparate, hprocess.supremum_surely hseparate⟩
  exact hprocess.after_between hseparate (hprocess.improving_best hseparate objective) sweeps hstate

/-- From state 0 one comes with equal chances to the goal, state 2, to a dead end, or back. State 1
goes on to state 0, or dawdles on the way. -/
def detour : DecisionProcess ℚ where
  choices := #[[[(2, 1 / 3), (3, 1 / 3), (0, 1 / 3)]], [[(0, 1)], [(1, 1 / 2), (0, 1 / 2)]],
    [[(2, 1)]], [[(3, 1)]]]
  labels := #[.empty, .empty, .below 1, .empty]
  initial := [[(1, 1)]]
  propositions := ["there"]

def arrival : UntilSets := ⟨.ofTest 4 (· == 2), .empty 4, none⟩

theorem stochastic_detour : detour.Stochastic where
  offers := by decide
  distributed := by
    have hinside : ∀ state < 4, ∀ entries ∈ detour.choicesOf state, ∀ entry ∈ entries,
        entry.1 < 4 := by decide
    have hnonneg : ∀ state < 4, ∀ entries ∈ detour.choicesOf state, ∀ entry ∈ entries,
        0 ≤ entry.2 := by decide +kernel
    have htotal : ∀ state < 4, ∀ entries ∈ detour.choicesOf state, entries.total = 1 := by
      decide +kernel
    exact fun state hstate entries hentries => ⟨hinside state hstate entries hentries,
      hnonneg state hstate entries hentries, htotal state hstate entries hentries⟩

theorem unbounded_between_bounded_detour :
    detour.Stochastic ∧
      UntilQuery.resolve (.eventually (.atom "there") none) detour.propositions detour.labels =
        .ok arrival ∧
      detour.unbounded ⟨1, 0⟩ .minimize arrival.goal arrival.excluded =
        detour.iterate .minimize arrival 1 ∧
      detour.reach .minimize arrival 1 1 = 0 ∧
      (detour.iterate .minimize arrival 1).getD 1 0 = 1 / 6 ∧
      ((1 / 6 : ℚ) : ℝ) ≤ detour.supremum .minimize arrival 1 ∧
      detour.supremum .minimize arrival 2 = 1 ∧ detour.supremum .minimize arrival 3 = 0 := by
  have hsets : UntilQuery.resolve (.eventually (.atom "there") none) detour.propositions
      detour.labels = .ok arrival := by decide +kernel
  have hiterate : (detour.iterate .minimize arrival 1).getD 1 0 = 1 / 6 := by decide +kernel
  have hsweeps : detour.sweepCount ⟨1, 0⟩ .minimize arrival = 1 := by decide +kernel
  obtain ⟨hunbounded, hstates⟩ := unbounded_between_bounded detour stochastic_detour ⟨1, 0⟩
    .minimize (.eventually (.atom "there") none) arrival hsets
  rw [hsweeps] at hunbounded
  refine ⟨stochastic_detour, hsets, hunbounded, by decide +kernel, hiterate, ?_, ?_, ?_⟩
  · have hle := ((hstates 1 (by decide)).2.1 1).2.1
    rwa [hiterate] at hle
  · exact (hstates 2 (by decide)).2.2.2 (by decide +kernel)
  · exact (hstates 3 (by decide)).2.2.1 (by decide +kernel)

end DecisionProcess

end Hazard
