import Hazard.Label
/-!
# Transitions

What an exploration reports: the outgoing transitions of a source, all at once. The initial
transitions have no source.
-/

namespace Hazard

structure Transition (α : Type) where
  target : Nat
  probability : α
  /-- The propositions that hold in the target. -/
  label : Label
  /-- The nondeterministic choice the transition belongs to. -/
  distribution : Nat := 0
  deriving DecidableEq, Repr

/-- The source of a batch of transitions; `none` is the initial step. -/
abbrev Origin := Option Nat

def Origin.describe : Origin → String
  | none => "the initial step"
  | some state => s!"state {state}"

structure ModelError where
  message : String
  deriving DecidableEq, Repr

end Hazard
