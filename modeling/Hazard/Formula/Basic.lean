/-!
# Temporal formulas

One syntax for state formulas, CTL, bounded path formulas and probability queries. Every checker
takes the fragment it can decide and refuses the rest.
-/

namespace Hazard

inductive Formula where
  | atom (name : String)
  | const (value : Bool)
  | not (body : Formula)
  | and (left right : Formula)
  | or (left right : Formula)
  | implies (left right : Formula)
  | iff (left right : Formula)
  | next (body : Formula)
  /-- At some point, within `bound` steps if there is a bound. -/
  | eventually (body : Formula) (bound : Option Nat)
  | always (body : Formula)
  /-- The left side until the right one, within `bound` steps if there is a bound. -/
  | until (left right : Formula) (bound : Option Nat)
  | somePath (path : Formula)
  | everyPath (path : Formula)
  | probability (path : Formula)
  deriving DecidableEq, Repr

inductive FormulaError where
  | unknownProposition (name : String)
  | notStateFormula (formula : Formula)
  | notCtl (formula : Formula)
  deriving DecidableEq, Repr

namespace Formula

/-- No temporal operator, path quantifier or probability query anywhere. -/
def isStateFormula : Formula → Bool
  | .atom _ | .const _ => true
  | .not a => a.isStateFormula
  | .and a b | .or a b | .implies a b | .iff a b => a.isStateFormula && b.isStateFormula
  | _ => false

/-- Every temporal operator is unbounded and stands directly below a path quantifier. -/
def isCtl : Formula → Bool
  | .atom _ | .const _ => true
  | .not a => a.isCtl
  | .and a b | .or a b | .implies a b | .iff a b => a.isCtl && b.isCtl
  | .somePath (.next a) | .everyPath (.next a) => a.isCtl
  | .somePath (.eventually a none) | .everyPath (.eventually a none) => a.isCtl
  | .somePath (.always a) | .everyPath (.always a) => a.isCtl
  | .somePath (.until a b none) | .everyPath (.until a b none) => a.isCtl && b.isCtl
  | _ => false

def names : Formula → List String
  | .atom name => [name]
  | .const _ => []
  | .not a | .next a | .eventually a _ | .always a => a.names
  | .somePath a | .everyPath a | .probability a => a.names
  | .and a b | .or a b | .implies a b | .iff a b | .until a b _ => a.names ++ b.names

def atoms (formula : Formula) : List String :=
  formula.names.foldl (fun seen name => if seen.contains name then seen else seen ++ [name]) []

private def withinText : Option Nat → String
  | none => ""
  | some bound => "≤" ++ toString bound

def render : Formula → String
  | .atom name => name
  | .const true => "true"
  | .const false => "false"
  | .not a => "¬" ++ a.render
  | .and a b => "(" ++ a.render ++ " ∧ " ++ b.render ++ ")"
  | .or a b => "(" ++ a.render ++ " ∨ " ++ b.render ++ ")"
  | .implies a b => "(" ++ a.render ++ " → " ++ b.render ++ ")"
  | .iff a b => "(" ++ a.render ++ " ↔ " ++ b.render ++ ")"
  | .next a => "X " ++ a.render
  | .eventually a bound => "F" ++ withinText bound ++ " " ++ a.render
  | .always a => "G " ++ a.render
  | .until a b bound => "(" ++ a.render ++ " U" ++ withinText bound ++ " " ++ b.render ++ ")"
  | .somePath a => "E " ++ a.render
  | .everyPath a => "A " ++ a.render
  | .probability a => "P=? [" ++ a.render ++ "]"

end Formula

def FormulaError.message : FormulaError → String
  | .unknownProposition name => "unknown atomic proposition '" ++ name ++ "'"
  | .notStateFormula formula => "'" ++ formula.render ++ "' is not a state formula"
  | .notCtl formula => "only CTL formulas can be normalized, got '" ++ formula.render ++ "'"

end Hazard
