import Hazard.Decimal.Text
import Hazard.Markov.ChainChecker
import Hazard.Markov.Process
/-!
# Probabilities on decision processes

The least and the greatest probability of an until query over all ways to choose, in a process of
fewer than 2^32 states.
-/

namespace Hazard

inductive Objective where
  | minimize
  | maximize
  deriving DecidableEq, Repr

def Objective.pick {α : Type} [Scalar α] : Objective → List α → α
  | .minimize, values => Scalar.leastOf values
  | .maximize, values => Scalar.greatestOf values

structure ProbabilityRange (α : Type) where
  min : α
  max : α
  deriving DecidableEq, Repr

def ProbabilityRange.render (range : ProbabilityRange Float) : String :=
  "[" ++ NumberStyle.message.text range.min ++ "," ++ NumberStyle.message.text range.max ++ "]"

namespace DecisionProcess

variable {α : Type} [Scalar α]

def arcs (process : DecisionProcess α) : List (Nat × Nat) :=
  (List.range process.stateCount).flatMap fun state =>
    (process.choicesOf state).flatMap fun entries =>
      entries.support.map fun target => (state, target)

def predecessors (process : DecisionProcess α) : Predecessors :=
  .ofEdges process.stateCount process.arcs

def best (process : DecisionProcess α) (objective : Objective) (values : Array α) (state : Nat) :
    α :=
  objective.pick ((process.choicesOf state).map fun entries => entries.expectation values)

def boundedStep (process : DecisionProcess α) (objective : Objective) (goal excluded : StateSet)
    (values : Array α) : Array α :=
  ((List.range process.stateCount).map fun state =>
    if goal.contains state then (1 : α)
    else if excluded.contains state then 0
    else process.best objective values state).toArray

def boundedFrom (process : DecisionProcess α) (objective : Objective) (goal excluded : StateSet) :
    (steps : Nat) → Array α → Array α
  | 0, values => values
  | steps + 1, values =>
    process.boundedFrom objective goal excluded steps
      (process.boundedStep objective goal excluded values)

def bounded (process : DecisionProcess α) (objective : Objective) (goal excluded : StateSet)
    (steps : Nat) : Array α :=
  process.boundedFrom objective goal excluded steps
    (MarkovChain.indicator process.stateCount goal)

/-! ## States of probability 0 and 1 -/

/-- Adds to a set the states that pass a test on the set so far, in one pass over all states. -/
def absorbPass (states : Nat) (test : StateSet → Nat → Bool) (set : StateSet) : StateSet :=
  (List.range states).foldl
    (fun current state =>
      if !current.contains state && test current state then current.adjoin state else current)
    set

def absorbWithin (states : Nat) (test : StateSet → Nat → Bool) : (fuel : Nat) → StateSet → StateSet
  | 0, set => set
  | fuel + 1, set =>
    let larger := absorbPass states test set
    if larger = set then set else absorbWithin states test fuel larger

/-- The least superset that no state outside passes the test on. A pass that is not the last adds a
state, so the states bound the number of passes. -/
def absorb (states : Nat) (test : StateSet → Nat → Bool) (set : StateSet) : StateSet :=
  absorbWithin states test (states + 1) set

def neverStates (process : DecisionProcess α) (goal excluded : StateSet) : StateSet :=
  (process.predecessors.ancestors goal excluded).complement

def forces (process : DecisionProcess α) (set : StateSet) (state : Nat) : Bool :=
  (process.choicesOf state).all fun entries => entries.support.any set.contains

/-- States that can choose to avoid `goal` with certainty: they are not forced towards it. -/
def avoidableStates (process : DecisionProcess α) (goal excluded : StateSet) : StateSet :=
  (absorb process.stateCount
    (fun set state => !excluded.contains state && process.forces set state) goal).complement

/-- Does some choice of a state stay in `outer` and have a successor in `inner`? -/
def leads (process : DecisionProcess α) (outer inner : StateSet) (state : Nat) : Bool :=
  (process.choicesOf state).any fun entries =>
    entries.support.all outer.contains && entries.support.any inner.contains

def approach (process : DecisionProcess α) (goal excluded outer : StateSet) : StateSet :=
  absorb process.stateCount
    (fun inner state =>
      !excluded.contains state && outer.contains state && process.leads outer inner state)
    goal

def attainableWithin (process : DecisionProcess α) (goal excluded : StateSet) :
    (fuel : Nat) → StateSet → StateSet
  | 0, outer => outer
  | fuel + 1, outer =>
    let inner := process.approach goal excluded outer
    if inner = outer then inner else process.attainableWithin goal excluded fuel inner

/-- States that can choose to reach `goal` with certainty: the greatest set whose states approach
the goal inside the set. A round that is not the last drops a state, or is the first. -/
def attainableStates (process : DecisionProcess α) (goal excluded : StateSet) : StateSet :=
  process.attainableWithin goal excluded (process.stateCount + 2) (.full process.stateCount)

def extremes (process : DecisionProcess α) (objective : Objective) (goal excluded : StateSet) :
    StateSet × StateSet :=
  match objective with
  | .maximize => (process.neverStates goal excluded, process.attainableStates goal excluded)
  | .minimize =>
    let avoidable := process.avoidableStates goal excluded
    (avoidable,
      (process.predecessors.ancestors avoidable (excluded.union goal)).complement)

/-! ## Unbounded queries -/

def unbounded (process : DecisionProcess α) (config : CheckerConfig α) (objective : Objective)
    (goal excluded : StateSet) : Array α :=
  let (never, surely) := process.extremes objective goal excluded
  let start := MarkovChain.indicator process.stateCount surely
  match (never.union surely).complement.toList with
  | [] => start
  | remaining =>
    Sweep.repeated (process.best objective) remaining config.convergence config.iterations start

def extremal (process : DecisionProcess α) (config : CheckerConfig α) (objective : Objective)
    (formula : Formula) : Except CheckError α := do
  let sets ← UntilQuery.resolve formula process.propositions process.labels
  let values := match sets.bound with
    | some steps => process.bounded objective sets.goal sets.excluded steps
    | none => process.unbounded config objective sets.goal sets.excluded
  return objective.pick (process.initial.map fun entries => entries.expectation values)

def probabilityRange (process : DecisionProcess α) (config : CheckerConfig α)
    (formula : Formula) : Except CheckError (ProbabilityRange α) := do
  let min ← process.extremal config .minimize formula
  let max ← process.extremal config .maximize formula
  return ⟨min, max⟩

end DecisionProcess

end Hazard
