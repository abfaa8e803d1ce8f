import Hazard.Scalar
/-!
# Settings

Limits of an exploration, parameters of the numeric checkers and of the safety analysis.
-/

namespace Hazard

structure TraversalConfig where
  stateCapacity : Nat := 1048576
  transitionCapacity : Nat := 8388608
  /-- How many workers may share the exploration; its outcome does not depend on them. -/
  workers : Nat := 1
  /-- States between two progress reports; none are made for 0. -/
  progressReports : Nat := 0
  deriving DecidableEq, Repr

structure CheckerConfig (α : Type) where
  /-- The greatest number of sweeps. -/
  iterations : Nat
  /-- A sweep that changes every value by less is the last. -/
  convergence : α
  deriving DecidableEq, Repr

def CheckerConfig.standard {α : Type} [Scalar α] : CheckerConfig α := ⟨50, 1e-12⟩

inductive ActivationBehaviour where
  | forceOnly
  | nondeterministic
  /-- Forced first and, if that is safe, nondeterministic. -/
  | forceThenFallback
  deriving DecidableEq, Repr

structure AnalysisConfig where
  traversal : TraversalConfig := {}
  behaviour : ActivationBehaviour := .nondeterministic
  /-- The size of the largest fault sets that are checked. -/
  maxCardinality : Option Nat := none
  deriving DecidableEq, Repr

end Hazard
