import Hazard.Fault.Basic
import Hazard.Formula.Basic
import Hazard.State.Digest
/-!
# Counterexamples

A trace to a state that violates a formula, with the activations under which it was found. It can be
replayed without further knowledge.
-/

namespace Hazard

structure Counterexample where
  version : Nat
  /-- The violated formula, as text. -/
  formula : String
  /-- Names of the faults in the checked set. -/
  faultSet : List String
  /-- The activation of every fault during the run. -/
  faultActivations : List (String × Activation)
  states : List Bytes
  deriving DecidableEq, Repr

namespace Counterexample

def currentVersion : Nat := 1

variable {α : Type}

def create (formula : String) (faultSet : List String) (faults : List (Fault α))
    (activations : List Activation) (states : List Bytes) : Counterexample :=
  ⟨currentVersion, formula, faultSet,
    (faults.zip activations).map fun (fault, activation) => (fault.name, activation), states⟩

def stepCount (counterexample : Counterexample) : Nat := counterexample.states.length

end Counterexample

end Hazard
