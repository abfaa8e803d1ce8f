import Hazard.Formula.Predicate
import Hazard.State.Set
/-!
# Until queries

The path formulas whose probability can be computed: reach a goal, within a number of steps if there
is a bound, through states where something holds.
-/

namespace Hazard

inductive CheckError where
  | formula (error : FormulaError)
  | unsupported (formula : Formula)
  deriving DecidableEq, Repr

def CheckError.message : CheckError → String
  | .formula error => error.message
  | .unsupported query => "formula '" ++ query.render ++ "' is not supported by this checker"

structure UntilQuery where
  hold : Formula
  goal : Formula
  bound : Option Nat
  deriving DecidableEq, Repr

/-- The sets a query is decided by. Excluded states satisfy neither operand. -/
structure UntilSets where
  goal : StateSet
  excluded : StateSet
  bound : Option Nat
  deriving DecidableEq, Repr

namespace UntilQuery

def body : Formula → Formula
  | .probability path => path
  | other => other

def ofFormula (formula : Formula) : Except CheckError UntilQuery :=
  match body formula with
  | .eventually goal bound => .ok ⟨.const true, goal, bound⟩
  | .until hold goal bound => .ok ⟨hold, goal, bound⟩
  | _ => .error (.unsupported formula)

private def states (labels : Array Label) (predicate : Predicate) : StateSet :=
  .ofTest labels.size fun state => predicate.evaluate (labels.getD state .empty)

def sets (query : UntilQuery) (propositions : List String) (labels : Array Label) :
    Except FormulaError UntilSets := do
  let hold ← Predicate.compile query.hold propositions
  let goal ← Predicate.compile query.goal propositions
  let goalStates := states labels goal
  return ⟨goalStates, ((states labels hold).union goalStates).complement, query.bound⟩

def resolve (formula : Formula) (propositions : List String) (labels : Array Label) :
    Except CheckError UntilSets :=
  match ofFormula formula with
  | .error error => .error error
  | .ok query =>
    match query.sets propositions labels with
    | .error error => .error (.formula error)
    | .ok sets => .ok sets

end UntilQuery

end Hazard
