/-!
# Faults

A model declares named faults. A run decides for each of them whether it strikes whenever it can,
never, or in some branches and not in others.
-/

namespace Hazard

inductive Activation where
  | forced
  | suppressed
  | nondeterministic
  deriving DecidableEq, Repr

namespace Activation

def describe : Activation → String
  | .forced => "forced"
  | .suppressed => "suppressed"
  | .nondeterministic => "nondeterministic"

def branches : Activation → List Bool
  | .forced => [true]
  | .suppressed => [false]
  | .nondeterministic => [false, true]

/-- All ways in which faults under the given activations may strike, the last fault varying fastest.
-/
def combinations (activations : List Activation) : List (List Bool) :=
  activations.foldl
    (fun done activation =>
      done.flatMap fun strikes => activation.branches.map fun strike => strikes ++ [strike])
    [[]]

end Activation

structure Fault (α : Type) where
  name : String
  activation : Activation := .nondeterministic
  /-- How likely it strikes, for models that branch on chance. -/
  probability : Option α := none
  deriving Repr, DecidableEq

def joinNames (names : List String) : String :=
  ", ".intercalate (names.mergeSort fun left right => decide (left ≤ right))

end Hazard
