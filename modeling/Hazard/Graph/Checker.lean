import Hazard.Formula.Ctl
import Hazard.Graph.Cycles
import Hazard.Graph.Predecessors
/-!
# Checking CTL on a state graph

The states that satisfy a formula in existential normal form, computed from those of its parts.
Sets once found are kept for later formulas. A graph is meant to have fewer than 2^32 states.
-/

namespace Hazard

/-- What the checker derives from a graph: the label of every state, which is the label of the first
edge that leads there, and the edges read backwards. -/
structure CtlChecker where
  graph : StateGraph
  labels : Array Label
  predecessors : Predecessors
  deriving Repr

namespace CtlChecker

structure Labelling where
  labels : Array Label
  labelled : StateSet

def Labelling.visit (labelling : Labelling) (edge : Edge) : Except Misuse Labelling :=
  match labelling.labelled.insert edge.target with
  | .error misuse => .error misuse
  | .ok (false, _) => .ok labelling
  | .ok (true, labelled) =>
    .ok ⟨labelling.labels.setIfInBounds edge.target edge.label, labelled⟩

def arcs (graph : StateGraph) : List (Nat × Nat) :=
  (List.range graph.stateCount).flatMap fun state =>
    (graph.successors state).map fun target => (state, target)

def allEdges (graph : StateGraph) : List Edge :=
  graph.initial ++ (List.range graph.stateCount).flatMap graph.outgoing

/-- Every edge must lead to a state of the graph. -/
def create (graph : StateGraph) : Except Misuse CtlChecker := do
  let states := graph.stateCount
  let labelling ← (allEdges graph).foldlM Labelling.visit
    ⟨Array.replicate states .empty, .empty states⟩
  return ⟨graph, labelling.labels, .ofEdges states (arcs graph)⟩

abbrev Memory := List (Ctl × StateSet)

/-- An evaluation that may fail. What it found before it failed stays in memory. -/
abbrev Evaluation := ExceptT FormulaError (StateM Memory)

/-- The remembered set of a formula, or else the computed one, which is remembered. -/
def remembered (formula : Ctl) (compute : Evaluation StateSet) : Evaluation StateSet := do
  match (← get).lookup formula with
  | some set => return set
  | none =>
    let set ← compute
    modify ((formula, set) :: ·)
    return set

def labelOf (checker : CtlChecker) (state : Nat) : Label := checker.labels.getD state .empty

def atomStates (checker : CtlChecker) (name : String) : Except FormulaError StateSet :=
  match checker.graph.propositions.idxOf? name with
  | some position =>
    .ok (.ofTest checker.graph.stateCount fun state =>
      (checker.labelOf state).contains position)
  | none => .error (.unknownProposition name)

def before (checker : CtlChecker) (set : StateSet) : StateSet :=
  (set.toList.flatMap checker.predecessors.of).foldl StateSet.adjoin
    (.empty checker.graph.stateCount)

def untilStates (checker : CtlChecker) (hold goal : StateSet) : StateSet :=
  checker.predecessors.ancestors goal hold.complement

/-- The states from which a path stays in `hold` forever: it ends up in a cycle. -/
def alwaysStates (checker : CtlChecker) (hold : StateSet) : StateSet :=
  checker.predecessors.ancestors (checker.graph.cyclicStates hold) hold.complement

def evaluate (checker : CtlChecker) : Ctl → Evaluation StateSet
  | .atom name => remembered (.atom name) (liftExcept (checker.atomStates name))
  | .const true => remembered (.const true) (pure (.full checker.graph.stateCount))
  | .const false => remembered (.const false) (pure (.empty checker.graph.stateCount))
  | .not a => remembered (.not a) do return (← checker.evaluate a).complement
  | .and a b => remembered (.and a b) do
    let left ← checker.evaluate a
    let right ← checker.evaluate b
    return left.inter right
  | .or a b => remembered (.or a b) do
    let left ← checker.evaluate a
    let right ← checker.evaluate b
    return left.union right
  | .someNext a => remembered (.someNext a) do return checker.before (← checker.evaluate a)
  | .someUntil a b => remembered (.someUntil a b) do
    let hold ← checker.evaluate a
    let goal ← checker.evaluate b
    return checker.untilStates hold goal
  | .someAlways a => remembered (.someAlways a) do
    return checker.alwaysStates (← checker.evaluate a)
where
  liftExcept {β : Type} : Except FormulaError β → Evaluation β
    | .ok value => pure value
    | .error error => throw error

def satisfying (checker : CtlChecker) (formula : Formula) : Evaluation StateSet :=
  match formula.normalize with
  | .ok normal => checker.evaluate normal
  | .error error => throw error

def check (checker : CtlChecker) (formula : Formula) : Evaluation Bool := do
  let set ← checker.satisfying formula
  return checker.graph.initial.all fun edge => set.contains edge.target

end CtlChecker

end Hazard
