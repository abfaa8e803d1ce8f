import Hazard.Formula.Basic
/-!
# Existential normal form of CTL

The temporal operators that remain are "some successor", "some path until" and "some path always".
No negation stands on a negation or on a constant.
-/

namespace Hazard

inductive Ctl where
  | atom (name : String)
  | const (value : Bool)
  | not (body : Ctl)
  | and (left right : Ctl)
  | or (left right : Ctl)
  | someNext (body : Ctl)
  | someUntil (left right : Ctl)
  | someAlways (body : Ctl)
  deriving DecidableEq, Repr

namespace Ctl

/-- Negation that cancels a negation and flips a constant. -/
def negate : Ctl → Ctl
  | .not a => a
  | .const value => .const !value
  | other => .not other

def render : Ctl → String
  | .atom name => name
  | .const true => "true"
  | .const false => "false"
  | .not a => "¬" ++ a.render
  | .and a b => "(" ++ a.render ++ " ∧ " ++ b.render ++ ")"
  | .or a b => "(" ++ a.render ++ " ∨ " ++ b.render ++ ")"
  | .someNext a => "EX " ++ a.render
  | .someUntil a b => "E[" ++ a.render ++ " U " ++ b.render ++ "]"
  | .someAlways a => "EG " ++ a.render

/-- No path satisfies `a` until `b`: `b` fails up to a state without both, or fails forever. -/
def neverUntil (a b : Ctl) : Ctl :=
  .or (.someUntil b.negate (.and a.negate b.negate)) (.someAlways b.negate)

end Ctl

namespace Formula

/-- The existential form of a formula in which every temporal operator stands below a quantifier. -/
@[simp]
def toCtl? : Formula → Option Ctl
  | .atom name => some (.atom name)
  | .const value => some (.const value)
  | .not a => return (← a.toCtl?).negate
  | .and a b => return .and (← a.toCtl?) (← b.toCtl?)
  | .or a b => return .or (← a.toCtl?) (← b.toCtl?)
  | .implies a b => return .or (← a.toCtl?).negate (← b.toCtl?)
  | .iff a b => do
    let left ← a.toCtl?
    let right ← b.toCtl?
    return .or (.and left right) (.and left.negate right.negate)
  | .somePath (.next a) => return .someNext (← a.toCtl?)
  | .somePath (.eventually a _) => return .someUntil (.const true) (← a.toCtl?)
  | .somePath (.always a) => return .someAlways (← a.toCtl?)
  | .somePath (.until a b _) => return .someUntil (← a.toCtl?) (← b.toCtl?)
  | .everyPath (.next a) => return (Ctl.someNext (← a.toCtl?).negate).negate
  | .everyPath (.eventually a _) => return (Ctl.someAlways (← a.toCtl?).negate).negate
  | .everyPath (.always a) =>
    return (Ctl.someUntil (.const true) (← a.toCtl?).negate).negate
  | .everyPath (.until a b _) => return (Ctl.neverUntil (← a.toCtl?) (← b.toCtl?)).negate
  | _ => none

/-- Brings a CTL formula into existential normal form and refuses every other formula. -/
def normalize (formula : Formula) : Except FormulaError Ctl :=
  match formula.isCtl, formula.toCtl? with
  | true, some normal => .ok normal
  | _, _ => .error (.notCtl formula)

end Formula

end Hazard
