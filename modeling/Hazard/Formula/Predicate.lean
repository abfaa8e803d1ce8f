import Hazard.Formula.Basic
import Hazard.Label
/-!
# Compiled state formulas

A state formula is flattened, level by level, into a list of nodes that refer to each other by
position. A node's operands stand after it, so one sweep from the last node to the first evaluates
the formula.
-/

namespace Hazard

/-- One operator of a compiled formula; operands are positions of other nodes. -/
inductive PredicateNode where
  | holds (proposition : Nat)
  | const (value : Bool)
  | not (body : Nat)
  | and (left right : Nat)
  | or (left right : Nat)
  | implies (left right : Nat)
  | iff (left right : Nat)
  deriving DecidableEq, Repr

structure Predicate where
  nodes : Array PredicateNode
  source : Formula
  deriving DecidableEq, Repr

namespace Formula

def weight : Formula → Nat
  | .atom _ | .const _ => 1
  | .not a | .next a | .eventually a _ | .always a => a.weight + 1
  | .somePath a | .everyPath a | .probability a => a.weight + 1
  | .and a b | .or a b | .implies a b | .iff a b | .until a b _ => a.weight + b.weight + 1

def totalWeight : List Formula → Nat
  | [] => 0
  | formula :: rest => formula.weight + totalWeight rest

theorem totalWeight_append (left right : List Formula) :
    totalWeight (left ++ right) = totalWeight left + totalWeight right := by
  induction left with
  | nil => simp [totalWeight]
  | cons formula rest ih => simp [totalWeight, ih, Nat.add_assoc]

end Formula

namespace Predicate

/-- Turns the formulas in `waiting` into nodes, first come first served. The operands of a formula
join the end of the queue, which fixes the positions they will get. -/
def flatten (propositions : List String) (waiting : List Formula) (nodes : Array PredicateNode) :
    Except FormulaError (Array PredicateNode) :=
  match waiting with
  | [] => .ok nodes
  | formula :: rest =>
    let operand := nodes.size + rest.length + 1
    match formula with
    | .atom name =>
      match propositions.idxOf? name with
      | some position => flatten propositions rest (nodes.push (.holds position))
      | none => .error (.unknownProposition name)
    | .const value => flatten propositions rest (nodes.push (.const value))
    | .not a => flatten propositions (rest ++ [a]) (nodes.push (.not operand))
    | .and a b => flatten propositions (rest ++ [a, b]) (nodes.push (.and operand (operand + 1)))
    | .or a b => flatten propositions (rest ++ [a, b]) (nodes.push (.or operand (operand + 1)))
    | .implies a b =>
      flatten propositions (rest ++ [a, b]) (nodes.push (.implies operand (operand + 1)))
    | .iff a b => flatten propositions (rest ++ [a, b]) (nodes.push (.iff operand (operand + 1)))
    | other => .error (.notStateFormula other)
termination_by Formula.totalWeight waiting
decreasing_by
  all_goals simp [Formula.totalWeight, Formula.totalWeight_append, Formula.weight]
  all_goals omega

/-- Compiles a state formula against the names of the propositions; a name that occurs twice stands
for its first occurrence. -/
def compile (formula : Formula) (propositions : List String) : Except FormulaError Predicate :=
  if formula.isStateFormula then do
    let nodes ← flatten propositions [formula] #[]
    return ⟨nodes, formula⟩
  else .error (.notStateFormula formula)

def nodeValue (label : Label) (values : Array Bool) : PredicateNode → Bool
  | .holds proposition => label.contains proposition
  | .const value => value
  | .not a => !values.getD a false
  | .and a b => values.getD a false && values.getD b false
  | .or a b => values.getD a false || values.getD b false
  | .implies a b => !values.getD a false || values.getD b false
  | .iff a b => values.getD a false == values.getD b false

def sweep (predicate : Predicate) (label : Label) : Array Bool :=
  predicate.nodes.toList.zipIdx.foldr
    (fun (node, position) values =>
      values.setIfInBounds position (nodeValue label values node))
    (Array.replicate predicate.nodes.size false)

def evaluate (predicate : Predicate) (label : Label) : Bool :=
  (predicate.sweep label).getD 0 false

def positions (predicate : Predicate) : List Nat :=
  predicate.nodes.toList.filterMap fun
    | .holds proposition => some proposition
    | _ => none

def dependencies (predicate : Predicate) : Except Misuse Label := Label.ofList predicate.positions

def render (predicate : Predicate) : String := predicate.source.render

end Predicate

end Hazard
