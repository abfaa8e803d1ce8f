import Hazard.Config
import Hazard.Graph.Predecessors
import Hazard.Markov.Chain
import Hazard.Markov.Until
/-!
# Probabilities on Markov chains

The probability of an until query from every state. Bounded queries follow the recurrence step by
step. For unbounded ones the states with probability 0 and 1 are found on the graph, and sweeps over
the others approximate the rest from below.
-/

namespace Hazard

namespace MarkovChain

variable {α : Type} [Scalar α]

def indicator (states : Nat) (set : StateSet) : Array α :=
  ((List.range states).map fun state => if set.contains state then (1 : α) else 0).toArray

def arcs (chain : MarkovChain α) : List (Nat × Nat) :=
  chain.matrix.entries.filterMap fun (source, target, probability) =>
    if 0 < probability then some (source, target) else none

def predecessors (chain : MarkovChain α) : Predecessors := .ofEdges chain.stateCount chain.arcs

def boundedStep (chain : MarkovChain α) (goal excluded : StateSet) (values : Array α) : Array α :=
  ((List.range chain.stateCount).map fun state =>
    if goal.contains state then (1 : α)
    else if excluded.contains state then 0
    else Weighted.expectation (chain.matrix.row state) values).toArray

def boundedFrom (chain : MarkovChain α) (goal excluded : StateSet) :
    (steps : Nat) → Array α → Array α
  | 0, values => values
  | steps + 1, values =>
    chain.boundedFrom goal excluded steps (chain.boundedStep goal excluded values)

def bounded (chain : MarkovChain α) (goal excluded : StateSet) (steps : Nat) : Array α :=
  chain.boundedFrom goal excluded steps (indicator chain.stateCount goal)

def neverStates (chain : MarkovChain α) (goal excluded : StateSet) : StateSet :=
  (chain.predecessors.ancestors goal excluded).complement

/-- States from which `goal` is reached with certainty: none that cannot reach it is ahead. -/
def surelyStates (chain : MarkovChain α) (goal excluded : StateSet) : StateSet :=
  (chain.predecessors.ancestors (chain.neverStates goal excluded)
    (excluded.union goal)).complement

/-- The weight of the loop at a state, and the weighted sum of the values of its other successors.
-/
def splitLoop (state : Nat) (values : Array α) (row : Weighted α) : α × α :=
  row.foldl
    (fun (loop, sum) (target, probability) =>
      if target = state then (loop + probability, sum)
      else (loop, sum + probability * values.getD target 0))
    (0, 0)

/-- The value of a state given those of the others, its own loop solved for. -/
def solved (chain : MarkovChain α) (values : Array α) (state : Nat) : α :=
  let (loop, sum) := splitLoop state values (chain.matrix.row state)
  if loop < 1 then sum / (1 - loop) else 0

end MarkovChain

/-- Values under iteration, and the greatest change of the sweep so far. -/
structure Sweep (α : Type) where
  values : Array α
  change : α

namespace Sweep

variable {α : Type} [Scalar α]

def update (value : Array α → Nat → α) (sweep : Sweep α) (state : Nat) : Sweep α :=
  let new := value sweep.values state
  let change := Scalar.magnitude (new - sweep.values.getD state 0)
  ⟨sweep.values.setIfInBounds state new, Scalar.greatest sweep.change change⟩

/-- One sweep over the given states, each update using the ones before it. -/
def once (value : Array α → Nat → α) (states : List Nat) (values : Array α) : Sweep α :=
  states.foldl (update value) ⟨values, 0⟩

def repeated (value : Array α → Nat → α) (states : List Nat) (convergence : α) :
    (limit : Nat) → Array α → Array α
  | 0, values => values
  | limit + 1, values =>
    let sweep := once value states values
    if sweep.change < convergence then sweep.values
    else repeated value states convergence limit sweep.values

end Sweep

namespace MarkovChain

variable {α : Type} [Scalar α]

def unbounded (chain : MarkovChain α) (config : CheckerConfig α) (goal excluded : StateSet) :
    Array α :=
  let never := chain.neverStates goal excluded
  let surely := chain.surelyStates goal excluded
  let start := indicator chain.stateCount surely
  match (never.union surely).complement.toList with
  | [] => start
  | remaining => Sweep.repeated chain.solved remaining config.convergence config.iterations start

def stateProbabilities (chain : MarkovChain α) (config : CheckerConfig α) (formula : Formula) :
    Except CheckError (Array α) := do
  let sets ← UntilQuery.resolve formula chain.propositions chain.labels
  return match sets.bound with
    | some steps => chain.bounded sets.goal sets.excluded steps
    | none => chain.unbounded config sets.goal sets.excluded

def probability (chain : MarkovChain α) (config : CheckerConfig α) (formula : Formula) :
    Except CheckError α :=
  (chain.stateProbabilities config formula).map chain.initial.expectation

end MarkovChain

end Hazard
