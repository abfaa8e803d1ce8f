import Hazard.Proofs.ChainIteration
import Hazard.Proofs.StateFormulas
/-!
# Probabilities on drafted chains

A chain that was put together call by call leads to states of its own only, so the checkers never
look beyond the values they have. Its rows are accepted by their sums. If their entries are weights
as well, what the checkers compute are probabilities: a mean of probabilities is one, and a state's
loop takes from the mean of the others no more than it takes from the divisor. A negative entry that
a larger one makes up for is accepted too, and then a value may exceed one.
-/

namespace Hazard

/-! ## Drafts -/

namespace MarkovChainDraft

variable {α : Type} {draft : MarkovChainDraft α} {state source target : Nat} {probability : α}

inductive Call (α : Type) where
  | start (state : Nat) (probability : α)
  | mark (state : Nat) (label : Label)
  | connect (source target : Nat) (probability : α)

def perform (draft : MarkovChainDraft α) : Call α → MarkovChainDraft α
  | .start state probability => draft.start state probability
  | .mark state label => draft.mark state label
  | .connect source target probability => draft.connect source target probability

def ofCalls (propositions : List String) (calls : List (Call α)) : MarkovChainDraft α :=
  calls.foldl perform { propositions }

/-- Every state has a row and a label, and no entry leads to anything but a state. -/
structure Closed (draft : MarkovChainDraft α) : Prop where
  labels_size : draft.labels.size = draft.rows.size
  initial_lt : ∀ entry ∈ draft.initial, entry.1 < draft.rows.size
  target_lt : ∀ row ∈ draft.rows, ∀ entry ∈ row, entry.1 < draft.rows.size

theorem size_le_ensure (draft : MarkovChainDraft α) (state : Nat) :
    draft.rows.size ≤ (draft.ensure state).rows.size := by
  simp [ensure]

theorem lt_ensure (draft : MarkovChainDraft α) (state : Nat) :
    state < (draft.ensure state).rows.size := by
  simp only [ensure, Array.size_append, Array.size_replicate]
  omega

theorem Closed.ensure (h : draft.Closed) (state : Nat) : (draft.ensure state).Closed where
  labels_size := by simp [MarkovChainDraft.ensure, h.labels_size]
  initial_lt entry hentry := (h.initial_lt entry hentry).trans_le (draft.size_le_ensure state)
  target_lt := by
    intro row hrow entry hentry
    rcases Array.mem_append.1 hrow with hrow | hrow
    · exact (h.target_lt row hrow entry hentry).trans_le (draft.size_le_ensure state)
    · rw [(Array.mem_replicate.1 hrow).2] at hentry
      cases hentry

theorem Closed.start (h : draft.Closed) : (draft.start state probability).Closed where
  labels_size := (h.ensure state).labels_size
  initial_lt := by
    intro entry hentry
    rcases List.mem_append.1 hentry with hentry | hentry
    · exact (h.ensure state).initial_lt entry hentry
    · rw [List.mem_singleton.1 hentry]
      exact draft.lt_ensure state
  target_lt := (h.ensure state).target_lt

theorem Closed.mark (h : draft.Closed) {label : Label} : (draft.mark state label).Closed where
  labels_size := by
    rw [MarkovChainDraft.mark, Array.size_setIfInBounds]
    exact (h.ensure state).labels_size
  initial_lt := (h.ensure state).initial_lt
  target_lt := (h.ensure state).target_lt

theorem Closed.extend (h : draft.Closed) (htarget : target < draft.rows.size) :
    Closed { draft with
      rows := draft.rows.modify source (· ++ [(target, probability)]) } := by
  refine ⟨?_, ?_, ?_⟩
  · rw [Array.size_modify]
    exact h.labels_size
  · rw [Array.size_modify]
    exact h.initial_lt
  · intro row hrow entry hentry
    rw [Array.size_modify]
    obtain ⟨state, hstate⟩ := Array.mem_iff_getElem?.1 hrow
    rw [Array.getElem?_modify] at hstate
    split at hstate
    · obtain ⟨before, hbefore, rfl⟩ := Option.map_eq_some_iff.1 hstate
      rcases List.mem_append.1 hentry with hentry | hentry
      · exact h.target_lt before (Array.mem_of_getElem? hbefore) entry hentry
      · rw [List.mem_singleton.1 hentry]
        exact htarget
    · exact h.target_lt row (Array.mem_of_getElem? hstate) entry hentry

theorem Closed.connect (h : draft.Closed) : (draft.connect source target probability).Closed :=
  ((h.ensure source).ensure target).extend ((draft.ensure source).lt_ensure target)

theorem Closed.perform (h : draft.Closed) (call : Call α) : (draft.perform call).Closed := by
  cases call with
  | start state probability => exact h.start
  | mark state label => exact h.mark
  | connect source target probability => exact h.connect

theorem Closed.foldl_perform (h : draft.Closed) (calls : List (Call α)) :
    (calls.foldl MarkovChainDraft.perform draft).Closed := by
  induction calls generalizing draft with
  | nil => exact h
  | cons call rest ih => exact ih (h.perform call)

theorem closed_ofCalls (propositions : List String) (calls : List (Call α)) :
    (ofCalls propositions calls).Closed :=
  Closed.foldl_perform ⟨rfl, by simp, by simp⟩ calls

theorem eq_of_build [Scalar α] {chain : MarkovChain α} (h : draft.build = .ok chain) :
    chain = ⟨⟨draft.rows⟩, draft.labels, draft.initial, draft.propositions⟩ := by
  obtain ⟨_, -, hchain⟩ := bind_eq_ok.1 h
  cases hchain
  rfl

end MarkovChainDraft

/-! ## Queries -/

/-- A path formula that can be asked, with operands that can be evaluated. -/
def UntilQuery.Supported (formula : Formula) (propositions : List String) : Prop :=
  ∃ query, UntilQuery.ofFormula formula = .ok query ∧ query.hold.StateOver propositions ∧
    query.goal.StateOver propositions

theorem UntilQuery.resolve_succeeds {formula : Formula} {propositions : List String}
    (h : UntilQuery.Supported formula propositions) (labels : Array Label) :
    ∃ sets, UntilQuery.resolve formula propositions labels = .ok sets := by
  obtain ⟨query, hquery, hhold, hgoal⟩ := h
  obtain ⟨hold, hhold⟩ := Predicate.compile_succeeds hhold
  obtain ⟨goal, hgoal⟩ := Predicate.compile_succeeds hgoal
  have hsets : ∃ sets, query.sets propositions labels = .ok sets :=
    ⟨_, bind_eq_ok.2 ⟨hold, hhold, bind_eq_ok.2 ⟨goal, hgoal, rfl⟩⟩⟩
  obtain ⟨sets, hsets⟩ := hsets
  refine ⟨sets, ?_⟩
  rw [resolve, hquery]
  dsimp only
  rw [hsets]

/-! ## Values that are probabilities -/

/-- A probability for each of so many states. -/
structure AreProbabilities (states : Nat) (values : Array ℚ) : Prop where
  size_eq : values.size = states
  mem_unit : ∀ value ∈ values, value ∈ Set.Icc (0 : ℚ) 1

namespace AreProbabilities

variable {states : Nat} {values : Array ℚ}

theorem getD_mem_unit (h : AreProbabilities states values) (state : Nat) :
    values.getD state 0 ∈ Set.Icc (0 : ℚ) 1 := by
  rw [Array.getD_eq_getD_getElem?]
  cases hvalue : values[state]? with
  | none => exact ⟨le_rfl, zero_le_one⟩
  | some value => exact h.mem_unit value (Array.mem_of_getElem? hvalue)

theorem ofStates {value : Nat → ℚ} (hvalue : ∀ state < states, value state ∈ Set.Icc (0 : ℚ) 1) :
    AreProbabilities states ((List.range states).map value).toArray := by
  refine ⟨by simp, fun number hnumber => ?_⟩
  obtain ⟨state, hstate, rfl⟩ := List.mem_map.1 (List.mem_toArray.1 hnumber)
  exact hvalue state (List.mem_range.1 hstate)

theorem indicator (states : Nat) (set : StateSet) :
    AreProbabilities states (MarkovChain.indicator states set) := by
  apply ofStates
  intro state _
  split
  · exact ⟨zero_le_one, le_rfl⟩
  · exact ⟨le_rfl, zero_le_one⟩

theorem setIfInBounds (h : AreProbabilities states values) {new : ℚ}
    (hnew : new ∈ Set.Icc (0 : ℚ) 1) (state : Nat) :
    AreProbabilities states (values.setIfInBounds state new) := by
  refine ⟨by rw [Array.size_setIfInBounds, h.size_eq], fun value hvalue => ?_⟩
  rcases Array.mem_or_eq_of_mem_setIfInBounds hvalue with hvalue | rfl
  · exact h.mem_unit value hvalue
  · exact hnew

theorem expectation (h : AreProbabilities states values) {entries : Weighted ℚ}
    (hentries : entries.IsDistribution states) :
    entries.expectation values ∈ Set.Icc (0 : ℚ) 1 := by
  rw [Weighted.expectation_eq_mean]
  exact ⟨hentries.le_mean fun state _ => (h.getD_mem_unit state).1,
    hentries.mean_le fun state _ => (h.getD_mem_unit state).2⟩

end AreProbabilities

namespace MarkovChain

variable {chain : MarkovChain ℚ} {state states : Nat} {values : Array ℚ} {sets : UntilSets}

/-- The loop takes at least as much from the divisor as from the mean of the others. -/
theorem mean_others_mem (hvalues : AreProbabilities states values) {row : Weighted ℚ}
    (hrow : row.IsDistribution states) (state : Nat) :
    row.mean (others state (values.getD · 0)) ∈ Set.Icc 0 (1 - loopWeight row state) := by
  constructor
  · apply hrow.le_mean
    intro next _
    rw [others]
    split
    · exact le_rfl
    · exact (hvalues.getD_mem_unit next).1
  · have hone := mean_eq_loop_add row state fun _ => 1
    rw [hrow.mean_const, mul_one] at hone
    calc row.mean (others state (values.getD · 0))
        ≤ row.mean (others state fun _ => 1) :=
          mean_others_le hrow.nonneg state fun next _ => (hvalues.getD_mem_unit next).2
      _ = 1 - loopWeight row state := by linarith

theorem solved_mem_unit (hvalues : AreProbabilities states values)
    (hrow : (chain.matrix.row state).IsDistribution states) :
    chain.solved values state ∈ Set.Icc (0 : ℚ) 1 := by
  obtain ⟨hnonneg, hle⟩ := mean_others_mem hvalues hrow state
  rw [solved, splitLoop_eq]
  dsimp only
  split
  · next hloop =>
    have hpositive : 0 < 1 - loopWeight (chain.matrix.row state) state := sub_pos.2 hloop
    exact ⟨div_nonneg hnonneg hpositive.le, (div_le_one hpositive).2 hle⟩
  · exact ⟨le_rfl, zero_le_one⟩

namespace Stochastic

variable (hchain : chain.Stochastic)
include hchain

theorem areProbabilities_boundedStep (goal excluded : StateSet)
    (hvalues : AreProbabilities chain.stateCount values) :
    AreProbabilities chain.stateCount (chain.boundedStep goal excluded values) := by
  apply AreProbabilities.ofStates
  intro state hstate
  split
  · exact ⟨zero_le_one, le_rfl⟩
  · split
    · exact ⟨le_rfl, zero_le_one⟩
    · exact hvalues.expectation (hchain.distributed state hstate)

theorem areProbabilities_boundedFrom (goal excluded : StateSet) (steps : Nat)
    (hvalues : AreProbabilities chain.stateCount values) :
    AreProbabilities chain.stateCount (chain.boundedFrom goal excluded steps values) := by
  induction steps generalizing values with
  | zero => exact hvalues
  | succ steps ih => exact ih (hchain.areProbabilities_boundedStep goal excluded hvalues)

theorem areProbabilities_sweep {todo : List Nat} (htodo : ∀ state ∈ todo, state < chain.stateCount)
    (hvalues : AreProbabilities chain.stateCount values) :
    AreProbabilities chain.stateCount (todo.foldl (Sweep.put chain.solved) values) := by
  induction todo generalizing values with
  | nil => exact hvalues
  | cons state rest ih =>
      obtain ⟨hstate, hrest⟩ := List.forall_mem_cons.1 htodo
      have hsolved := solved_mem_unit hvalues (hchain.distributed state hstate)
      exact ih hrest (hvalues.setIfInBounds hsolved state)

theorem areProbabilities_after {todo : List Nat} (htodo : ∀ state ∈ todo, state < chain.stateCount)
    (hvalues : AreProbabilities chain.stateCount values) (sweeps : Nat) :
    AreProbabilities chain.stateCount (Sweep.after chain.solved todo values sweeps) := by
  induction sweeps with
  | zero => exact hvalues
  | succ sweeps ih =>
      rw [Sweep.after, Sweep.values_once]
      exact hchain.areProbabilities_sweep htodo ih

theorem areProbabilities_unbounded (hsets : sets.Separate chain.stateCount)
    (config : CheckerConfig ℚ) :
    AreProbabilities chain.stateCount (chain.unbounded config sets.goal sets.excluded) := by
  have htodo : ∀ state ∈ chain.remaining sets, state < chain.stateCount := by
    intro state hstate
    rw [hchain.remaining_eq hsets] at hstate
    exact ((hchain.process.mem_remaining hsets).1 hstate).1
  rw [unbounded_eq_iterate]
  exact hchain.areProbabilities_after htodo (.indicator _ _) _

theorem areProbabilities_stateProbabilities {formula : Formula}
    (hformula : UntilQuery.Supported formula chain.propositions) (config : CheckerConfig ℚ) :
    ∃ values, chain.stateProbabilities config formula = .ok values ∧
      AreProbabilities chain.stateCount values := by
  obtain ⟨sets, hsets⟩ := UntilQuery.resolve_succeeds hformula chain.labels
  refine ⟨_, bind_eq_ok.2 ⟨sets, hsets, rfl⟩, ?_⟩
  cases sets.bound with
  | some steps => exact hchain.areProbabilities_boundedFrom _ _ steps (.indicator _ _)
  | none => exact hchain.areProbabilities_unbounded (UntilQuery.separate_of_resolve hsets) config

end Stochastic

end MarkovChain

namespace MarkovChainDraft

variable {propositions : List String} {calls : List (Call ℚ)} {chain : MarkovChain ℚ}

theorem stateCount_of_build (hbuild : (ofCalls propositions calls).build = .ok chain) :
    chain.stateCount = chain.matrix.rowCount := by
  rw [eq_of_build hbuild]
  exact (closed_ofCalls propositions calls).labels_size

theorem inside_of_build (hbuild : (ofCalls propositions calls).build = .ok chain) :
    (∀ entry ∈ chain.initial, entry.1 < chain.stateCount) ∧
      ∀ state, ∀ entry ∈ chain.matrix.row state, entry.1 < chain.stateCount := by
  have hclosed := closed_ofCalls propositions calls
  rw [stateCount_of_build hbuild, eq_of_build hbuild]
  refine ⟨hclosed.initial_lt, fun state entry hentry => ?_⟩
  rw [SparseMatrix.row, Array.getD_eq_getD_getElem?] at hentry
  cases hrow : (ofCalls propositions calls).rows[state]? with
  | none => simp [hrow] at hentry
  | some row =>
      rw [hrow, Option.getD_some] at hentry
      exact hclosed.target_lt row (Array.mem_of_getElem? hrow) entry hentry

theorem stochastic_of_build (hbuild : (ofCalls propositions calls).build = .ok chain)
    (htotal : ∀ state < chain.stateCount, (chain.matrix.row state).total = 1)
    (hnonneg : ∀ state < chain.stateCount, ∀ entry ∈ chain.matrix.row state, 0 ≤ entry.2) :
    chain.Stochastic where
  rowCount_eq := (stateCount_of_build hbuild).symm
  distributed state hstate :=
    ⟨(inside_of_build hbuild).2 state, hnonneg state hstate, htotal state hstate⟩

/-- Let a chain be accepted whose rows and initial distribution add up to exactly one, and let no
row have a negative entry. Every query that can be asked has an answer, no entry leads beyond the
values it has, and the values are probabilities, whatever number of sweeps is allowed and whenever
they are taken to have converged. The overall value is a probability too unless the initial
distribution has a negative entry. -/
theorem probabilities_of_nonneg (propositions : List String) (calls : List (Call ℚ))
    (chain : MarkovChain ℚ) (hbuild : (ofCalls propositions calls).build = .ok chain)
    (htotal : ∀ state < chain.stateCount, (chain.matrix.row state).total = 1)
    (hinitial : chain.initial.total = 1)
    (hnonneg : ∀ state < chain.stateCount, ∀ entry ∈ chain.matrix.row state, 0 ≤ entry.2)
    (config : CheckerConfig ℚ) (formula : Formula)
    (hformula : UntilQuery.Supported formula chain.propositions) :
    ∃ values probability, chain.stateProbabilities config formula = .ok values ∧
      chain.probability config formula = .ok probability ∧
      values.size = chain.stateCount ∧
      (∀ entry ∈ chain.initial, entry.1 < values.size) ∧
      (∀ state, ∀ entry ∈ chain.matrix.row state, entry.1 < values.size) ∧
      (∀ value ∈ values, 0 ≤ value ∧ value ≤ 1) ∧
      ((∀ entry ∈ chain.initial, 0 ≤ entry.2) → 0 ≤ probability ∧ probability ≤ 1) := by
  have hchain := stochastic_of_build hbuild htotal hnonneg
  obtain ⟨hstarts, htargets⟩ := inside_of_build hbuild
  obtain ⟨values, hrun, hvalues⟩ := hchain.areProbabilities_stateProbabilities hformula config
  refine ⟨values, chain.initial.expectation values, hrun, ?_, hvalues.size_eq, ?_, ?_,
    hvalues.mem_unit, ?_⟩
  · rw [MarkovChain.probability, hrun]
    rfl
  · rwa [hvalues.size_eq]
  · rwa [hvalues.size_eq]
  · intro hweights
    exact hvalues.expectation ⟨hstarts, hweights, hinitial⟩

/-- A sender that waits, sends or gives up. What it sends comes back in one case out of three. -/
def sending : List (Call ℚ) :=
  [.start 0 1, .connect 0 0 (1 / 4), .connect 0 1 (1 / 2), .connect 0 2 (1 / 4),
    .connect 1 0 (1 / 3), .connect 1 3 (2 / 3), .connect 2 2 1, .connect 3 3 1,
    .mark 3 (.below 1)]

def sender : MarkovChain ℚ where
  matrix := ⟨#[[(0, 1 / 4), (1, 1 / 2), (2, 1 / 4)], [(0, 1 / 3), (3, 2 / 3)], [(2, 1)], [(3, 1)]]⟩
  labels := #[.empty, .empty, .empty, .below 1]
  initial := [(0, 1)]
  propositions := ["received"]

/-- Three sweeps find 44/81 for a sender that succeeds in four cases out of seven. -/
theorem probabilities_of_nonneg_sender :
    (ofCalls ["received"] sending).build = .ok sender ∧
      (∀ state < sender.stateCount, (sender.matrix.row state).total = 1) ∧
      sender.initial.total = 1 ∧
      (∀ state < sender.stateCount, ∀ entry ∈ sender.matrix.row state, 0 ≤ entry.2) ∧
      UntilQuery.Supported (.eventually (.atom "received") none) sender.propositions ∧
      ∃ values, sender.stateProbabilities ⟨3, 0⟩ (.eventually (.atom "received") none) =
          .ok values ∧
        sender.probability ⟨3, 0⟩ (.eventually (.atom "received") none) = .ok (44 / 81) ∧
        values.size = 4 ∧ ∀ value ∈ values, 0 ≤ value ∧ value ≤ 1 := by
  have hbuild : (ofCalls ["received"] sending).build = .ok sender := by decide +kernel
  have htotal : ∀ state < sender.stateCount, (sender.matrix.row state).total = 1 := by
    decide +kernel
  have hinitial : sender.initial.total = 1 := by decide +kernel
  have hnonneg : ∀ state < sender.stateCount, ∀ entry ∈ sender.matrix.row state, 0 ≤ entry.2 := by
    decide +kernel
  have hformula : UntilQuery.Supported (.eventually (.atom "received") none) sender.propositions :=
    ⟨_, rfl, ⟨rfl, by decide⟩, ⟨rfl, by decide⟩⟩
  have hprobability : sender.probability ⟨3, 0⟩ (.eventually (.atom "received") none) =
      .ok (44 / 81) := by decide +kernel
  obtain ⟨values, _, hvalues, -, hsize, -, -, hunit, -⟩ :=
    probabilities_of_nonneg _ _ _ hbuild htotal hinitial hnonneg ⟨3, 0⟩ _ hformula
  exact ⟨hbuild, htotal, hinitial, hnonneg, hformula, values, hvalues, hprobability, hsize, hunit⟩

/-- A row that adds up to one only because a negative entry makes up for the others. -/
def overdrawn : MarkovChain ℚ where
  matrix := ⟨#[[(1, 3 / 2), (2, 1 / 2), (3, -1)], [(1, 1)], [(2, 1)], [(3, 1)]]⟩
  labels := #[.empty, .below 1, .empty, .empty]
  initial := [(0, 1)]
  propositions := ["goal"]

/-- Such a chain is accepted, but the goal is reached with probability 3/2, be it within one step or
in any number of steps. -/
theorem probability_exceeds_one_overdrawn :
    (ofCalls ["goal"] [.start 0 1, .connect 0 1 (3 / 2), .connect 0 2 (1 / 2), .connect 0 3 (-1),
        .connect 1 1 1, .connect 2 2 1, .connect 3 3 1, .mark 1 (.below 1)]).build =
        .ok overdrawn ∧
      (∀ state < overdrawn.stateCount, (overdrawn.matrix.row state).total = 1) ∧
      overdrawn.initial.total = 1 ∧ (∀ entry ∈ overdrawn.initial, 0 ≤ entry.2) ∧
      ∀ bound ∈ [none, some 1],
        overdrawn.stateProbabilities .standard (.eventually (.atom "goal") bound) =
          .ok #[3 / 2, 1, 0, 0] ∧
        overdrawn.probability .standard (.eventually (.atom "goal") bound) = .ok (3 / 2) := by
  decide +kernel

end MarkovChainDraft

end Hazard
