import Hazard.Graph.Builder
import Hazard.Markov.Chain
import Hazard.Markov.Process
import Hazard.Traversal.Basic
/-!
# Structures of models

Explores a model and builds the structure that a checker works on.
-/

namespace Hazard

structure GenerateOptions where
  /-- Activations for the exploration; `none` keeps the declared ones. -/
  activations : Option (List Activation) := none
  /-- Nothing beyond states that satisfy this formula is explored. -/
  terminateEarly : Option Formula := none

variable {α : Type}

def Model.traversalOptions (model : Model α) (options : GenerateOptions) :
    Except (TraversalError α) (TraversalOptions α) :=
  match options.terminateEarly with
  | none => .ok { activations := options.activations }
  | some formula =>
    match Predicate.compile formula model.propositions with
    | .error error => .error (.formula error)
    | .ok condition =>
      .ok { activations := options.activations, modifiers := [Hazard.terminateEarly condition] }

namespace Setup

def orMisuse {β : Type} : Except Misuse β → Except (TraversalError α) β
  | .ok value => .ok value
  | .error misuse => .error (.misuse misuse)

variable [Scalar α]

/-- Builds the state graph of a model. The room for it is made before the model is looked at. -/
def generateGraph (setup : Setup α) (config : TraversalConfig) (options : GenerateOptions) :
    Except (TraversalError α) StateGraph := do
  let builder ← orMisuse (GraphBuilder.create config.stateCapacity config.transitionCapacity)
  let model ← orMisuse setup
  let parts ← model.traversalOptions options
  let (space, builder) ← traverse model config parts GraphBuilder.observer builder
  orMisuse (builder.finish space.stateCount space.propositions)

private def generateChains (setup : Setup α) (config : TraversalConfig)
    (options : GenerateOptions) (observer : Observer α (ChainArena α)) :
    Except (TraversalError α) (TransitionChains α) := do
  let model ← orMisuse setup
  let parts ← model.traversalOptions options
  let (space, arena) ← traverse model config parts observer
    (ChainArena.create config.stateCapacity config.transitionCapacity)
  return arena.finish space.stateCount space.propositions

def generateMarkovChain (setup : Setup α) (config : TraversalConfig) (options : GenerateOptions) :
    Except (TraversalError α) (MarkovChain α) := do
  let chains ← generateChains setup config options ChainArena.chainObserver
  orMisuse chains.toMarkovChain

def generateDecisionProcess (setup : Setup α) (config : TraversalConfig)
    (options : GenerateOptions) : Except (TraversalError α) (DecisionProcess α) := do
  let chains ← generateChains setup config options ChainArena.processObserver
  orMisuse chains.toDecisionProcess

end Setup

end Hazard
