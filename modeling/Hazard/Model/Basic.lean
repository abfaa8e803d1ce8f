import Hazard.Fault.Set
import Hazard.Label
import Hazard.State.Digest
import Hazard.Transition
/-!
# Models

A model is a state machine whose states are byte vectors. Which steps it can make depends on the
state and on the activations of its faults, and on nothing else.
-/

namespace Hazard

structure Candidate (α : Type) where
  target : Bytes
  probability : α
  /-- The nondeterministic choice the transition belongs to. -/
  distribution : Nat := 0
  /-- The propositions that hold in the target, once it has been looked at. -/
  label : Label := .empty
  valid : Bool := true
  /-- Whether the transition leads to the stuttering state instead of its target. -/
  stuttering : Bool := false
  deriving DecidableEq, Repr

inductive StepError where
  /-- The model gives up. -/
  | failure (error : ModelError)
  /-- The model's description asks for what cannot be done. -/
  | misuse (misuse : Misuse)
  deriving DecidableEq, Repr

structure Model (α : Type) where
  stateSize : Nat
  propositions : List String
  faults : List (Fault α)
  /-- The state before the first step. -/
  start : Bytes
  holds : Bytes → Nat → Bool
  initial : List Activation → Except StepError (List (Candidate α))
  step : List Activation → Bytes → Except StepError (List (Candidate α))
  /-- The answer to the activation of a fault that is not declared; `none` is to ignore it. -/
  refuse : Nat → Option Misuse

abbrev Setup (α : Type) := Except Misuse (Model α)

namespace Model

variable {α : Type}

def declared (model : Model α) : List Activation := model.faults.map (·.activation)

def activate (model : Model α) (current : List Activation) (position : Nat)
    (activation : Activation) : Except Misuse (List Activation) :=
  if position < model.faults.length then .ok (current.set position activation)
  else
    match model.refuse position with
    | some misuse => .error misuse
    | none => .ok current

/-- The activations of a run: the given ones, fault by fault, and the declared ones for the rest. -/
def activateAll (model : Model α) (activations : List Activation) :
    Except Misuse (List Activation) :=
  activations.zipIdx.foldlM
    (fun current (activation, position) => model.activate current position activation)
    model.declared

def label (model : Model α) (state : Bytes) : Label :=
  .ofTest fun position => position < model.propositions.length && model.holds state position

def labelChecked (model : Model α) (state : Bytes) : Except Misuse Label :=
  Label.ofList ((List.range model.propositions.length).filter (model.holds state))

/-- A state as the model writes it: cut or filled up with zeros to its size. -/
def written (model : Model α) (state : Bytes) : Bytes :=
  let kept := state.take model.stateSize
  kept ++ List.replicate (model.stateSize - kept.length) 0

end Model

end Hazard
