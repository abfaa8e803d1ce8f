import Hazard.Counterexample.Basic
import Hazard.Traversal.Basic
/-!
# Invariants

Explores a model until a transition leads to a state that violates an invariant. The trace to that
state is the counterexample.
-/

namespace Hazard

def violationObserver {α : Type} (invariant : Predicate) : Observer α (Option Nat) where
  observe violation _ batch :=
    match batch.find? fun transition => !invariant.evaluate transition.label with
    | some transition => (violation <|> some transition.target, .ok .stop)
    | none => (violation, .ok .proceed)

structure InvariantResult where
  /-- A trace to a violating state, if there is one. -/
  counterexample : Option Counterexample
  stateCount : Nat
  transitionCount : Nat
  deriving DecidableEq, Repr

def InvariantResult.holds (result : InvariantResult) : Bool := result.counterexample.isNone

variable {α : Type} [Scalar α]

def Model.activeNames (model : Model α) (activations : List Activation) : List String :=
  ((model.faults.zip activations).filter (·.2 != .suppressed)).map (·.1.name)

/-- Does every reachable state satisfy the invariant, under the given activations or the declared
ones? -/
def Model.checkInvariant (model : Model α) (config : TraversalConfig) (invariant : Formula)
    (activations : Option (List Activation)) : Except (TraversalError α) InvariantResult :=
  match Predicate.compile invariant model.propositions with
  | .error error => .error (.formula error)
  | .ok predicate => do
    let used := activations.getD model.declared
    let (space, violation) ←
      traverse model config { activations } (violationObserver predicate) none
    let counterexample := violation.map fun state =>
      Counterexample.create invariant.render (model.activeNames used) model.faults used
        (Traversal.trace space.storage space.parents state)
    return ⟨counterexample, space.stateCount, space.transitionCount⟩

end Hazard
