import Hazard.Proofs.ValueIteration
/-!
# Markov chains, solved from below

A chain is a decision process that leaves no choice, so bounded probabilities, their least upper
bounds and the two classes of certain states carry over. Sweeps over a chain differ from those over
a process in that a state's own loop is solved for. That is an improving rule as well: it gives at
once what repeating the plain update would tend to.
-/

namespace Hazard

namespace MarkovChain

open Relation

/-- A chain as a process that leaves no choice. -/
def asProcess {α : Type} (chain : MarkovChain α) : DecisionProcess α where
  choices := ((List.range chain.stateCount).map fun state => [chain.matrix.row state]).toArray
  labels := chain.labels
  initial := [chain.initial]
  propositions := chain.propositions

structure Stochastic (chain : MarkovChain ℚ) : Prop where
  rowCount_eq : chain.matrix.rowCount = chain.stateCount
  distributed : ∀ state < chain.stateCount,
    (chain.matrix.row state).IsDistribution chain.stateCount

variable {chain : MarkovChain ℚ} {objective : Objective} {sets : UntilSets} {state steps : Nat}
  {values : Array ℚ}

theorem choicesOf_asProcess {α : Type} {chain : MarkovChain α} (hstate : state < chain.stateCount) :
    chain.asProcess.choicesOf state = [chain.matrix.row state] := by
  simp [DecisionProcess.choicesOf, asProcess, Array.getD_eq_getD_getElem?, hstate]

theorem Stochastic.process (hchain : chain.Stochastic) : chain.asProcess.Stochastic where
  offers := by
    intro state hstate
    simp [choicesOf_asProcess hstate]
  distributed := by
    intro state hstate entries hentries
    rw [choicesOf_asProcess hstate, List.mem_singleton] at hentries
    exact hentries ▸ hchain.distributed state hstate

/-! ## The same values -/

theorem best_asProcess (objective : Objective) (values : Array ℚ)
    (hstate : state < chain.stateCount) :
    chain.asProcess.best objective values state =
      (chain.matrix.row state).expectation values := by
  rw [DecisionProcess.best, choicesOf_asProcess hstate]
  cases objective <;> rfl

theorem bounded_asProcess (objective : Objective) (goal excluded : StateSet) (steps : Nat) :
    chain.asProcess.bounded objective goal excluded steps = chain.bounded goal excluded steps := by
  have hstep (values : Array ℚ) : chain.asProcess.boundedStep objective goal excluded values =
      chain.boundedStep goal excluded values := by
    rw [DecisionProcess.boundedStep, boundedStep]
    congr 1
    apply List.map_congr_left
    intro state hstate
    rw [best_asProcess objective values (List.mem_range.1 hstate)]
  have hfrom (values : Array ℚ) : chain.asProcess.boundedFrom objective goal excluded steps values =
      chain.boundedFrom goal excluded steps values := by
    induction steps generalizing values with
    | zero => rfl
    | succ steps ih => rw [DecisionProcess.boundedFrom, boundedFrom, hstep, ih]
  exact hfrom _

def reach (chain : MarkovChain ℚ) (sets : UntilSets) (steps state : Nat) : ℚ :=
  (chain.bounded sets.goal sets.excluded steps).getD state 0

noncomputable def supremum (chain : MarkovChain ℚ) (sets : UntilSets) (state : Nat) : ℝ :=
  ⨆ steps, (chain.reach sets steps state : ℝ)

theorem reach_asProcess (objective : Objective) :
    chain.asProcess.reach objective sets = chain.reach sets := by
  funext steps state
  rw [DecisionProcess.reach, bounded_asProcess, reach]

theorem supremum_asProcess (objective : Objective) :
    chain.asProcess.supremum objective sets = chain.supremum sets := by
  funext state
  rw [DecisionProcess.supremum, reach_asProcess, supremum]

/-! ## The same classes -/

theorem Stochastic.zipIdx_rows (hchain : chain.Stochastic) :
    chain.matrix.rows.toList.zipIdx =
      (List.range chain.stateCount).map fun state => (chain.matrix.row state, state) := by
  have hsize : chain.matrix.rows.size = chain.stateCount := hchain.rowCount_eq
  apply List.ext_getElem?
  intro state
  rw [List.getElem?_zipIdx, List.getElem?_map, Array.getElem?_toList]
  by_cases hstate : state < chain.stateCount
  · simp [hstate, hsize, SparseMatrix.row]
  · simp [hstate, hsize]

theorem Stochastic.arcs_eq (hchain : chain.Stochastic) : chain.asProcess.arcs = chain.arcs := by
  rw [arcs, SparseMatrix.entries, hchain.zipIdx_rows, List.flatMap_map, List.filterMap_flatMap,
    DecisionProcess.arcs]
  apply List.flatMap_congr
  intro state hstate
  rw [choicesOf_asProcess (List.mem_range.1 hstate), List.flatMap_singleton, List.filterMap_map,
    Weighted.support, List.map_map]
  induction chain.matrix.row state with
  | nil => rfl
  | cons entry rest ih =>
      by_cases hpos : 0 < entry.2
      · simp [hpos, ih]
      · simp [hpos, ih]

theorem Stochastic.neverStates_eq (hchain : chain.Stochastic) :
    chain.neverStates sets.goal sets.excluded = chain.asProcess.never .maximize sets := by
  rw [neverStates, predecessors, ← hchain.arcs_eq]
  rfl

theorem Stochastic.never_minimize (hchain : chain.Stochastic)
    (hsets : sets.Separate chain.stateCount) :
    chain.asProcess.never .minimize sets = chain.asProcess.never .maximize sets := by
  have hprocess := hchain.process
  apply (hprocess.fits_never hsets .minimize).ext (hprocess.fits_never hsets .maximize)
  intro state
  rw [Bool.eq_iff_iff]
  constructor
  · intro hstate
    refine (hprocess.never_maximize_iff hsets).2
      ⟨(hprocess.fits_never hsets .minimize).lt_of_contains hstate, fun steps => ?_⟩
    rw [reach_asProcess, ← reach_asProcess .minimize]
    exact hprocess.reach_never hsets hstate
  · exact hprocess.never_minimize_of_maximize hsets

theorem Stochastic.surelyStates_eq (hchain : chain.Stochastic)
    (hsets : sets.Separate chain.stateCount) :
    chain.surelyStates sets.goal sets.excluded = chain.asProcess.surely .minimize sets := by
  rw [surelyStates, hchain.neverStates_eq, ← hchain.never_minimize hsets, predecessors,
    ← hchain.arcs_eq]
  rfl

/-! ## Solving for the loop -/

def others (state : Nat) (value : Nat → ℚ) (next : Nat) : ℚ :=
  if next = state then 0 else value next

def loopWeight (row : Weighted ℚ) (state : Nat) : ℚ :=
  row.mean fun next => if next = state then 1 else 0

theorem splitLoop_eq (state : Nat) (values : Array ℚ) (row : Weighted ℚ) :
    splitLoop state values row =
      (loopWeight row state, row.mean (others state (values.getD · 0))) := by
  have hfold (sums : ℚ × ℚ) :
      row.foldl (fun (loop, sum) (target, probability) =>
          if target = state then (loop + probability, sum)
          else (loop, sum + probability * values.getD target 0)) sums =
        (sums.1 + loopWeight row state,
          sums.2 + row.mean (others state (values.getD · 0))) := by
    induction row generalizing sums with
    | nil => simp [loopWeight]
    | cons entry rest ih =>
        rw [List.foldl_cons, ih]
        dsimp only
        rw [loopWeight, loopWeight, Weighted.mean_cons, Weighted.mean_cons, others]
        split
        · rw [mul_one, mul_zero, zero_add, add_assoc]
        · rw [mul_zero, zero_add, add_assoc]
  have hzero := hfold (0, 0)
  rw [zero_add, zero_add] at hzero
  exact hzero

theorem mean_eq_loop_add (row : Weighted ℚ) (state : Nat) (value : Nat → ℚ) :
    row.mean value = loopWeight row state * value state + row.mean (others state value) := by
  induction row with
  | nil => simp [loopWeight]
  | cons entry rest ih =>
      rw [loopWeight] at ih ⊢
      rw [Weighted.mean_cons, Weighted.mean_cons, Weighted.mean_cons, ih, others]
      split
      · next heq =>
        rw [heq]
        ring
      · ring

theorem loopWeight_nonneg {row : Weighted ℚ} {states : Nat} (hrow : row.IsDistribution states)
    (state : Nat) : 0 ≤ loopWeight row state :=
  hrow.le_mean fun next _ => by split <;> norm_num

theorem mean_others_le {row : Weighted ℚ} (hnonneg : ∀ entry ∈ row, 0 ≤ entry.2) (state : Nat)
    {value other : Nat → ℚ} (hle : ∀ next ∈ row.support, value next ≤ other next) :
    row.mean (others state value) ≤ row.mean (others state other) := by
  apply Weighted.mean_le_mean hnonneg
  intro next hnext
  rw [others, others]
  split
  · exact le_rfl
  · exact hle next hnext

theorem mean_others_add {row : Weighted ℚ} {states : Nat} (hrow : row.IsDistribution states)
    (state : Nat) (value : Nat → ℚ) (bound : ℚ) :
    row.mean (others state fun next => value next + bound) =
      row.mean (others state value) + (1 - loopWeight row state) * bound := by
  have hmean := mean_eq_loop_add row state fun next => value next + bound
  rw [hrow.mean_add_const, mean_eq_loop_add row state value] at hmean
  linarith

/-- A sequence that loses a fixed part of its distance to a target comes close to it. -/
theorem exists_le_add_of_contracts {sequence : Nat → ℚ} {target factor slack : ℚ}
    (hnonneg : 0 ≤ factor) (hfactor : factor < 1)
    (hstep : ∀ index, target - sequence (index + 1) ≤ factor * (target - sequence index))
    (hslack : 0 < slack) : ∃ index, target ≤ sequence index + slack := by
  have hgap (index : Nat) : target - sequence index ≤ factor ^ index * |target - sequence 0| := by
    induction index with
    | zero => simpa using le_abs_self (target - sequence 0)
    | succ index ih =>
        calc target - sequence (index + 1)
            ≤ factor * (target - sequence index) := hstep index
          _ ≤ factor * (factor ^ index * |target - sequence 0|) :=
              mul_le_mul_of_nonneg_left ih hnonneg
          _ = factor ^ (index + 1) * |target - sequence 0| := by ring
  have hpos : 0 < |target - sequence 0| + 1 := by positivity
  obtain ⟨index, hindex⟩ := exists_pow_lt_of_lt_one (div_pos hslack hpos) hfactor
  rw [lt_div_iff₀ hpos] at hindex
  refine ⟨index, ?_⟩
  nlinarith [hgap index, pow_nonneg hnonneg index]

theorem reach_succ (hstate : state < chain.stateCount)
    (hundecided : DecisionProcess.Undecided sets.goal sets.excluded state) (steps : Nat) :
    chain.reach sets (steps + 1) state =
      (chain.matrix.row state).mean (chain.reach sets steps) := by
  rw [← reach_asProcess .minimize, DecisionProcess.reach_undecided hstate hundecided,
    best_asProcess _ _ hstate, Weighted.expectation_eq_mean]
  rfl

namespace Stochastic

variable (hchain : chain.Stochastic) (hsets : sets.Separate chain.stateCount)
include hchain hsets

/-- A state with nothing but its loop would not be able to reach the goal. -/
theorem loopWeight_lt_one (hstate : state ∈ chain.asProcess.remaining .minimize sets) :
    loopWeight (chain.matrix.row state) state < 1 := by
  have hprocess := hchain.process
  obtain ⟨hlt, hnever, -⟩ := (hprocess.mem_remaining hsets).1 hstate
  have hundecided := hprocess.undecided_remaining hsets hstate
  have hrow := hchain.distributed state hlt
  by_contra hloop
  have hself : ∀ next ∈ (chain.matrix.row state).support, next = state := by
    intro next hnext
    by_contra hne
    obtain ⟨weight, hentry, hweight⟩ := Weighted.mem_support.1 hnext
    have hindicator : ∀ other ∈ (chain.matrix.row state).support,
        (if other = state then (1 : ℚ) else 0) ≤ 1 := by
      intro other _
      split <;> norm_num
    have hdrop := hrow.mean_le_drop _ hindicator hentry
    rw [if_neg hne] at hdrop
    exact hloop (by rw [loopWeight]; linarith)
  have hzero (steps : Nat) : chain.reach sets steps state = 0 := by
    induction steps with
    | zero =>
        rw [← reach_asProcess .minimize, DecisionProcess.reach_zero hlt, hundecided.1]
        rfl
    | succ steps ih =>
        rw [reach_succ hlt hundecided]
        apply le_antisymm
        · exact hrow.mean_le fun next hnext => (hself next hnext ▸ ih).le
        · exact hrow.le_mean fun next hnext => (hself next hnext ▸ ih).ge
  rw [hchain.never_minimize hsets, ← Bool.not_eq_true, hprocess.never_maximize_iff hsets] at hnever
  exact hnever ⟨hlt, fun steps => by rw [reach_asProcess]; exact hzero steps⟩

/-- The solved value is the one that the loop and the other successors bear out. -/
theorem solved_eq (hstate : state ∈ chain.asProcess.remaining .minimize sets)
    (values : Array ℚ) :
    (1 - loopWeight (chain.matrix.row state) state) * chain.solved values state =
      (chain.matrix.row state).mean (others state (values.getD · 0)) := by
  have hloop := hchain.loopWeight_lt_one hsets hstate
  rw [solved, splitLoop_eq]
  dsimp only
  rw [if_pos hloop]
  exact mul_div_cancel₀ _ (sub_pos.2 hloop).ne'

/-- Where the other successors are approached, the solved value is approached as well: every step
more takes the same part off what is missing. -/
theorem approached_solved (hstate : state ∈ chain.asProcess.remaining .minimize sets)
    (happroached : ∀ other < chain.stateCount,
      chain.asProcess.Approached .minimize sets other (values.getD other 0)) :
    chain.asProcess.Approached .minimize sets state (chain.solved values state) := by
  have hprocess := hchain.process
  have hlt := ((hprocess.mem_remaining hsets).1 hstate).1
  have hundecided := hprocess.undecided_remaining hsets hstate
  have hrow := hchain.distributed state hlt
  have hsolved := hchain.solved_eq hsets hstate values
  have hloop := hchain.loopWeight_lt_one hsets hstate
  have hnonneg := loopWeight_nonneg hrow state
  intro slack hslack
  obtain ⟨steps, hsteps⟩ := hprocess.exists_steps (half_pos hslack) happroached
  rw [reach_asProcess] at hsteps ⊢
  have hstep (more : Nat) : chain.solved values state - slack / 2 -
        chain.reach sets (steps + (more + 1)) state ≤
      loopWeight (chain.matrix.row state) state *
        (chain.solved values state - slack / 2 - chain.reach sets (steps + more) state) := by
    have hothers : (chain.matrix.row state).mean (others state (values.getD · 0)) ≤
        (chain.matrix.row state).mean
          (others state fun next => chain.reach sets (steps + more) next + slack / 2) := by
      apply mean_others_le hrow.nonneg state
      intro next hnext
      have hin := hrow.lt_of_support hnext
      have hmono := hprocess.reach_mono .minimize sets hin (Nat.le_add_right steps more)
      rw [reach_asProcess] at hmono
      dsimp only at hmono
      linarith [hsteps next hin]
    rw [mean_others_add hrow, ← hsolved] at hothers
    rw [← Nat.add_assoc, reach_succ hlt hundecided, mean_eq_loop_add _ state]
    linarith
  obtain ⟨more, hmore⟩ := exists_le_add_of_contracts hnonneg hloop hstep (half_pos hslack)
  exact ⟨steps + more, by linarith⟩

theorem improving_solved : chain.asProcess.Improving .minimize sets chain.solved := by
  have hprocess := hchain.process
  have hbest (state : Nat) (hstate : state ∈ chain.asProcess.remaining .minimize sets)
      (values : Array ℚ) : chain.asProcess.best .minimize values state =
        loopWeight (chain.matrix.row state) state * values.getD state 0 +
          (1 - loopWeight (chain.matrix.row state) state) * chain.solved values state := by
    rw [best_asProcess _ _ ((hprocess.mem_remaining hsets).1 hstate).1,
      Weighted.expectation_eq_mean, mean_eq_loop_add _ state, hchain.solved_eq hsets hstate]
  have hincreases (values : Array ℚ) (hsub : chain.asProcess.SubSolution .minimize sets values)
      (state : Nat) (hstate : state ∈ chain.asProcess.remaining .minimize sets) :
      values.getD state 0 ≤ chain.solved values state := by
    have hloop := hchain.loopWeight_lt_one hsets hstate
    have hle := hsub.le_best state hstate
    rw [hbest state hstate] at hle
    nlinarith
  refine ⟨hincreases, ?_, ?_⟩
  · intro values hsub state hstate
    have hlt := ((hprocess.mem_remaining hsets).1 hstate).1
    apply hprocess.subSolution_set hsets hsub hstate (hincreases values hsub state hstate)
    · have hget := DecisionProcess.getD_setIfInBounds (hsub.size_eq ▸ hlt)
        (chain.solved values state)
      have hsame : others state
            ((values.setIfInBounds state (chain.solved values state)).getD · 0) =
          others state (values.getD · 0) := by
        funext next
        simp only [others, hget]
        split <;> simp_all
      have hsolved := hchain.solved_eq hsets hstate values
      rw [best_asProcess _ _ hlt, Weighted.expectation_eq_mean, mean_eq_loop_add _ state, hsame,
        ← hsolved, hget, if_pos rfl]
      linarith
    · exact hchain.approached_solved hsets hstate hsub.approached
  · intro values hsub state hstate steps hbelow
    have hlt := ((hprocess.mem_remaining hsets).1 hstate).1
    have hrow := hchain.distributed state hlt
    have hloop := hchain.loopWeight_lt_one hsets hstate
    have hsucc : chain.asProcess.reach .minimize sets steps state ≤
        chain.asProcess.reach .minimize sets (steps + 1) state := hprocess.reach_le_succ hlt
    rw [reach_asProcess] at hbelow hsucc ⊢
    have hothers := mean_others_le hrow.nonneg state fun next hnext =>
      hbelow next (hrow.lt_of_support hnext)
    rw [← hchain.solved_eq hsets hstate] at hothers
    have hreach := reach_succ hlt (hprocess.undecided_remaining hsets hstate) steps
    rw [mean_eq_loop_add _ state] at hreach
    nlinarith [loopWeight_nonneg hrow state]

end Stochastic

/-! ## The checker's iteration -/

def remaining (chain : MarkovChain ℚ) (sets : UntilSets) : List Nat :=
  ((chain.neverStates sets.goal sets.excluded).union
    (chain.surelyStates sets.goal sets.excluded)).complement.toList

def iterate (chain : MarkovChain ℚ) (sets : UntilSets) (sweeps : Nat) : Array ℚ :=
  Sweep.after chain.solved (chain.remaining sets)
    (indicator chain.stateCount (chain.surelyStates sets.goal sets.excluded)) sweeps

def sweepCount (chain : MarkovChain ℚ) (config : CheckerConfig ℚ) (sets : UntilSets) : Nat :=
  match chain.remaining sets with
  | [] => 0
  | remaining => Sweep.count chain.solved remaining config.convergence config.iterations
      (indicator chain.stateCount (chain.surelyStates sets.goal sets.excluded))

theorem unbounded_eq_iterate (chain : MarkovChain ℚ) (config : CheckerConfig ℚ)
    (sets : UntilSets) :
    chain.unbounded config sets.goal sets.excluded =
      chain.iterate sets (chain.sweepCount config sets) := by
  change (match chain.remaining sets with
    | [] => indicator chain.stateCount (chain.surelyStates sets.goal sets.excluded)
    | remaining => Sweep.repeated chain.solved remaining config.convergence config.iterations
        (indicator chain.stateCount (chain.surelyStates sets.goal sets.excluded))) = _
  rw [iterate, sweepCount]
  cases chain.remaining sets with
  | nil => rfl
  | cons first rest => exact Sweep.repeated_eq_after _ _ _ _ _

theorem Stochastic.remaining_eq (hchain : chain.Stochastic)
    (hsets : sets.Separate chain.stateCount) :
    chain.remaining sets = chain.asProcess.remaining .minimize sets := by
  rw [remaining, DecisionProcess.remaining, hchain.neverStates_eq, hchain.surelyStates_eq hsets,
    hchain.never_minimize hsets]

theorem Stochastic.iterate_eq (hchain : chain.Stochastic) (hsets : sets.Separate chain.stateCount)
    (sweeps : Nat) :
    chain.iterate sets sweeps = Sweep.after chain.solved (chain.asProcess.remaining .minimize sets)
      (chain.asProcess.start .minimize sets) sweeps := by
  rw [iterate, hchain.remaining_eq hsets, hchain.surelyStates_eq hsets]
  rfl

/-- The graph finds exactly the states whose bounded probabilities are all 0, and exactly those
whose least upper bound is 1. The values of the others lie between the bounded probability with as
many steps as there were sweeps and the least upper bound, no sweep decreases one, and solving for a
loop divides by a positive number. -/
theorem solved_between_bounded (chain : MarkovChain ℚ) (hchain : chain.Stochastic)
    (config : CheckerConfig ℚ) (formula : Formula) (sets : UntilSets)
    (hsets : UntilQuery.resolve formula chain.propositions chain.labels = .ok sets) :
    chain.unbounded config sets.goal sets.excluded =
        chain.iterate sets (chain.sweepCount config sets) ∧
      ∀ state < chain.stateCount,
        ((chain.neverStates sets.goal sets.excluded).contains state = true ↔
            ∀ steps, chain.reach sets steps state = 0) ∧
          IsLUB (Set.range fun steps => (chain.reach sets steps state : ℝ))
            (chain.supremum sets state) ∧
          ((chain.surelyStates sets.goal sets.excluded).contains state = true ↔
            chain.supremum sets state = 1) ∧
          (∀ sweeps,
            chain.reach sets sweeps state ≤ (chain.iterate sets sweeps).getD state 0 ∧
              ((chain.iterate sets sweeps).getD state 0 : ℝ) ≤ chain.supremum sets state ∧
              (chain.iterate sets sweeps).getD state 0 ≤
                (chain.iterate sets (sweeps + 1)).getD state 0) ∧
          (state ∈ chain.remaining sets → ∀ values,
            0 < 1 - (splitLoop state values (chain.matrix.row state)).1) := by
  have hseparate : sets.Separate chain.stateCount := UntilQuery.separate_of_resolve hsets
  have hprocess := hchain.process
  refine ⟨unbounded_eq_iterate chain config sets, fun state hstate => ⟨?_, ?_, ?_, ?_, ?_⟩⟩
  · have hnever : _ ↔ state < chain.stateCount ∧ _ := hprocess.never_maximize_iff hseparate
    rw [hchain.neverStates_eq, hnever, reach_asProcess]
    exact and_iff_right hstate
  · rw [← reach_asProcess .minimize, ← supremum_asProcess .minimize]
    exact hprocess.isLUB_supremum .minimize sets hstate
  · have hsurely : _ ↔ state < chain.stateCount ∧ _ := hprocess.surely_minimize_iff hseparate
    rw [hchain.surelyStates_eq hseparate, hsurely, supremum_asProcess]
    exact and_iff_right hstate
  · intro sweeps
    rw [hchain.iterate_eq hseparate, hchain.iterate_eq hseparate, ← reach_asProcess .minimize,
      ← supremum_asProcess .minimize]
    exact hprocess.after_between hseparate (hchain.improving_solved hseparate) sweeps hstate
  · intro hremaining values
    rw [hchain.remaining_eq hseparate] at hremaining
    rw [splitLoop_eq, sub_pos]
    exact hchain.loopWeight_lt_one hseparate hremaining

/-- State 0 hesitates, passes on to state 1 or gives up in state 2; state 1 passes back or comes to
the goal, state 3. -/
def relay : MarkovChain ℚ where
  matrix := ⟨#[[(1, 1 / 2), (0, 1 / 4), (2, 1 / 4)], [(0, 1 / 2), (3, 1 / 2)], [(2, 1)], [(3, 1)]]⟩
  labels := #[.empty, .empty, .empty, .below 1]
  initial := [(0, 1)]
  propositions := ["there"]

def delivery : UntilSets := ⟨.ofTest 4 (· == 3), .empty 4, none⟩

theorem stochastic_relay : relay.Stochastic where
  rowCount_eq := rfl
  distributed := by
    have hinside : ∀ state < 4, ∀ entry ∈ relay.matrix.row state, entry.1 < 4 := by decide
    have hnonneg : ∀ state < 4, ∀ entry ∈ relay.matrix.row state, 0 ≤ entry.2 := by decide +kernel
    have htotal : ∀ state < 4, (relay.matrix.row state).total = 1 := by decide +kernel
    exact fun state hstate => ⟨hinside state hstate, hnonneg state hstate, htotal state hstate⟩

theorem solved_between_bounded_relay :
    relay.Stochastic ∧
      UntilQuery.resolve (.eventually (.atom "there") none) relay.propositions relay.labels =
        .ok delivery ∧
      relay.unbounded ⟨2, 0⟩ delivery.goal delivery.excluded = relay.iterate delivery 2 ∧
      relay.reach delivery 2 0 = 1 / 4 ∧ (relay.iterate delivery 2).getD 0 0 = 1 / 3 ∧
      ((1 / 3 : ℚ) : ℝ) ≤ relay.supremum delivery 0 ∧ relay.supremum delivery 0 ≠ 1 ∧
      relay.supremum delivery 3 = 1 ∧ (∀ steps, relay.reach delivery steps 2 = 0) ∧
      0 < 1 - (splitLoop 0 #[] (relay.matrix.row 0)).1 := by
  have hsets : UntilQuery.resolve (.eventually (.atom "there") none) relay.propositions
      relay.labels = .ok delivery := by decide +kernel
  have hiterate : (relay.iterate delivery 2).getD 0 0 = 1 / 3 := by decide +kernel
  have hsweeps : relay.sweepCount ⟨2, 0⟩ delivery = 2 := by decide +kernel
  obtain ⟨hunbounded, hstates⟩ := solved_between_bounded relay stochastic_relay ⟨2, 0⟩
    (.eventually (.atom "there") none) delivery hsets
  rw [hsweeps] at hunbounded
  obtain ⟨-, -, hsurely, hbetween, hdivisor⟩ := hstates 0 (by decide)
  refine ⟨stochastic_relay, hsets, hunbounded, by decide +kernel, hiterate, ?_, ?_, ?_, ?_, ?_⟩
  · have hle := (hbetween 2).2.1
    rwa [hiterate] at hle
  · exact fun hone => absurd (hsurely.2 hone) (by decide +kernel)
  · exact (hstates 3 (by decide)).2.2.1.1 (by decide +kernel)
  · exact (hstates 2 (by decide)).1.1 (by decide +kernel)
  · exact hdivisor (by decide +kernel) #[]

end MarkovChain

end Hazard
