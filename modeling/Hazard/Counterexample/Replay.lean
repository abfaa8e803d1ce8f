import Hazard.Counterexample.Basic
import Hazard.Model.Basic
/-!
# Replay

Follows a recorded trace on a model, step by step, and stops where the model cannot follow.
-/

namespace Hazard

inductive ReplayError where
  | unknownFault (name : String)
  | notASuccessor (step : Nat)
  | model (step : Nat) (error : ModelError)
  | completed
  | misuse (misuse : Misuse)
  deriving DecidableEq, Repr

def ReplayError.message : ReplayError → String
  | .unknownFault name => "counterexample refers to unknown fault '" ++ name ++ "'"
  | .notASuccessor step => s!"replay diverged at step {step}: recorded state is not a successor"
  | .model step error => s!"replay failed at step {step}: " ++ error.message
  | .completed => "counterexample has no states left to replay"
  | .misuse cause => cause.message

structure Replay (α : Type) where
  model : Model α
  activations : List Activation
  counterexample : Counterexample
  /-- How many states have been replayed. -/
  position : Nat
  /-- The state the model is in. -/
  current : Bytes

namespace Replay

variable {α : Type}

def applyRecorded (model : Model α) (current : List Activation)
    (entry : String × Activation) : Except ReplayError (List Activation) :=
  match model.faults.findIdx? (·.name = entry.1) with
  | none => .error (.unknownFault entry.1)
  | some position =>
    match model.activate current position entry.2 with
    | .ok activations => .ok activations
    | .error misuse => .error (.misuse misuse)

/-- Gives all faults their recorded activations. A name stands for the first fault that has it. -/
def start (model : Model α) (counterexample : Counterexample) : Except ReplayError (Replay α) := do
  let activations ←
    counterexample.faultActivations.foldlM (applyRecorded model) model.declared
  return ⟨model, activations, counterexample, 0, model.start⟩

def isCompleted (replay : Replay α) : Bool :=
  decide (replay.counterexample.states.length ≤ replay.position)

/-- The proposals of the model before the step at `position`, and the state it is in then. -/
def proposals (replay : Replay α) : Bytes × Except StepError (List (Candidate α)) :=
  match replay.position with
  | 0 => (replay.current, replay.model.initial replay.activations)
  | step + 1 =>
    let previous := replay.counterexample.states.getD step []
    (previous, replay.model.step replay.activations previous)

/-- Goes to the next recorded state, if the model proposes a valid transition to it. -/
def step (replay : Replay α) : Replay α × Except ReplayError Bytes :=
  match replay.counterexample.states[replay.position]? with
  | none => (replay, .error .completed)
  | some recorded =>
    let (before, proposed) := replay.proposals
    let here := { replay with current := before }
    match proposed with
    | .error (.failure error) => (here, .error (.model replay.position error))
    | .error (.misuse misuse) => (here, .error (.misuse misuse))
    | .ok candidates =>
      if candidates.any fun candidate => candidate.valid && candidate.target == recorded then
        ({ here with current := recorded, position := replay.position + 1 }, .ok recorded)
      else (here, .error (.notASuccessor replay.position))

/-- Takes up to `fuel` steps and counts them; a step that fails ends it. -/
def stepMany (replay : Replay α) : (fuel : Nat) → Replay α × Except ReplayError Nat
  | 0 => (replay, .ok 0)
  | fuel + 1 =>
    match replay.step with
    | (there, .error error) => (there, .error error)
    | (there, .ok _) =>
      match there.stepMany fuel with
      | (last, .ok count) => (last, .ok (count + 1))
      | (last, .error error) => (last, .error error)

def finish (replay : Replay α) : Replay α × Except ReplayError Nat :=
  replay.stepMany (replay.counterexample.states.length - replay.position)

def state (replay : Replay α) : Bytes := replay.model.written replay.current

def label (replay : Replay α) : Except Misuse Label := replay.model.labelChecked replay.current

end Replay

end Hazard
