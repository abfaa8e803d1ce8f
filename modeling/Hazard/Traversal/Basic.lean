import Hazard.Config
import Hazard.Formula.Predicate
import Hazard.Model.Basic
import Hazard.Traversal.Error
/-!
# Exploration of a model

Every reachable state is stored, numbered and expanded once, first found first expanded. The
transitions of a source are labelled, modified, led to their stored targets and shown to an
observer.

A stored vector is the state of the model behind one byte that tells regular states from the single
stuttering state, which leads to itself and is never shown to the model.
-/

namespace Hazard

/-- Changes the candidates of one source after they have been labelled. -/
abbrev Modifier (α : Type) := List (Candidate α) → List (Candidate α)

/-- Sends the valid candidates whose target satisfies a condition to the stuttering state. -/
def terminateEarly {α : Type} (condition : Predicate) : Modifier α :=
  List.map fun candidate =>
    if candidate.valid && condition.evaluate candidate.label then
      { candidate with stuttering := true }
    else candidate

structure Plan (α σ : Type) where
  model : Model α
  activations : List Activation
  modifiers : List (Modifier α)
  observer : Observer α σ
  transitionCapacity : Nat

structure Agenda (σ : Type) where
  /-- States found and not yet expanded, the oldest first. -/
  pending : List Nat
  transitionCount : Nat
  stopped : Bool
  watcher : σ

structure Exploration (σ : Type) where
  storage : Storage
  /-- The source from which each state was found first. -/
  parents : Array Origin
  agenda : Agenda σ

namespace Traversal

def regular : UInt8 := 0

def stuttering : UInt8 := 1

/-- The model's part of a stored vector; the stuttering state has none. -/
def modelState? : Bytes → Option Bytes
  | header :: state => if header = regular then some state else none
  | [] => none

/-- The model states on the way from an initial state to a state, backwards, within `fuel` steps. -/
def traceBack (storage : Storage) (parents : Array Origin) : (fuel : Nat) → Nat → List Bytes
  | 0, _ => []
  | fuel + 1, index =>
    let here := ((storage.vectors[index]?).bind modelState?).toList
    match (parents[index]?).join with
    | some parent => here ++ traceBack storage parents fuel parent
    | none => here

/-- The model states on the way from an initial state to a state, along the sources from which the
states were found first. A parent is older than its child, which bounds the way. -/
def trace (storage : Storage) (parents : Array Origin) (index : Nat) : List Bytes :=
  (traceBack storage parents (index + 1) index).reverse

variable {α σ : Type}

def image (model : Model α) (candidate : Candidate α) : Bytes :=
  if candidate.stuttering then stuttering :: List.replicate model.stateSize 0
  else regular :: candidate.target

/-- The end of an exploration in which the model proposes nothing for a source. -/
def stepError (exploration : Exploration σ) (origin : Origin) : StepError → TraversalError α
  | .misuse misuse => .misuse misuse
  | .failure error =>
    .model origin
      (match origin with
        | some source => trace exploration.storage exploration.parents source
        | none => [])
      error

def misfit (found expected : Nat) : ModelError :=
  ⟨s!"candidate transition has {found} bytes, expected {expected}"⟩

def labelled (model : Model α) : List (Candidate α) → Except StepError (List (Candidate α))
  | [] => .ok []
  | candidate :: rest =>
    if candidate.target.length = model.stateSize then do
      let others ← labelled model rest
      return { candidate with label := model.label candidate.target } :: others
    else .error (.failure (misfit candidate.target.length model.stateSize))

def effective (plan : Plan α σ) (candidates : List (Candidate α)) : List (Candidate α) :=
  (plan.modifiers.foldl (fun current modify => modify current) candidates).filter (·.valid)

structure Intake (α : Type) where
  storage : Storage
  parents : Array Origin
  fresh : List Nat
  transitions : List (Transition α)

def Intake.store (model : Model α) (origin : Origin) :
    Intake α → Candidate α → Except Exhausted (Intake α)
  | ⟨storage, parents, fresh, transitions⟩, candidate => do
    let placed := storage.place (image model candidate)
    let placement ← placed.2
    let transition : Transition α :=
      ⟨placement.index, candidate.probability, candidate.label, candidate.distribution⟩
    return {
      storage := placed.1
      parents := if placement.fresh then parents.push origin else parents
      fresh := if placement.fresh then fresh ++ [placement.index] else fresh
      transitions := transitions ++ [transition] }

def publish (plan : Plan α σ) (origin : Origin) (intake : Intake α) :
    Agenda σ → Except (TraversalError α) (Exploration σ)
  | ⟨pending, transitionCount, stopped, watcher⟩ =>
    let total := transitionCount + intake.transitions.length
    if plan.transitionCapacity < total then
      .error (.exhausted ⟨.transition, plan.transitionCapacity⟩)
    else
      match plan.observer.observe watcher origin intake.transitions with
      | (_, .error error) => .error error
      | (watcher, .ok verdict) => .ok {
          storage := intake.storage
          parents := intake.parents
          agenda := ⟨pending ++ intake.fresh, total, stopped || verdict = .stop, watcher⟩ }

def commit (plan : Plan α σ) (origin : Origin) (candidates : List (Candidate α)) :
    Exploration σ → Except (TraversalError α) (Exploration σ)
  | ⟨storage, parents, agenda⟩ =>
    match (effective plan candidates).foldlM (Intake.store plan.model origin)
        ⟨storage, parents, [], []⟩ with
    | .error error => .error (.exhausted error)
    | .ok intake => publish plan origin intake agenda

def advance (plan : Plan α σ) (origin : Origin)
    (proposed : Except StepError (List (Candidate α))) (exploration : Exploration σ) :
    Except (TraversalError α) (Exploration σ) :=
  match proposed.bind (labelled plan.model) with
  | .error error => .error (stepError exploration origin error)
  | .ok candidates => commit plan origin candidates exploration

def expandInitial (plan : Plan α σ) (exploration : Exploration σ) :
    Except (TraversalError α) (Exploration σ) :=
  advance plan none (plan.model.initial plan.activations) exploration

variable [Scalar α]

def selfLoop (source : Nat) : Transition α := ⟨source, 1, .empty, 0⟩

def expand (plan : Plan α σ) (exploration : Exploration σ) (source : Nat) :
    Except (TraversalError α) (Exploration σ) :=
  match exploration.storage.get source with
  | .error misuse => .error (.misuse misuse)
  | .ok vector =>
    match modelState? vector with
    | some state =>
      advance plan (some source) (plan.model.step plan.activations state) exploration
    | none =>
      publish plan (some source)
        ⟨exploration.storage, exploration.parents, [], [selfLoop source]⟩ exploration.agenda

def run (plan : Plan α σ) : (fuel : Nat) → Exploration σ →
    Except (TraversalError α) (Exploration σ)
  | 0, exploration => .ok exploration
  | fuel + 1, ⟨storage, parents, agenda⟩ =>
    match agenda with
    | ⟨source :: rest, transitionCount, false, watcher⟩ =>
      match expand plan ⟨storage, parents, ⟨rest, transitionCount, false, watcher⟩⟩ source with
      | .error error => .error error
      | .ok next => run plan fuel next
    | _ => .ok ⟨storage, parents, agenda⟩

end Traversal

structure StateSpace where
  storage : Storage
  parents : Array Origin
  transitionCount : Nat
  /-- Whether the observer ended the exploration. -/
  stopped : Bool
  propositions : List String

namespace StateSpace

def stateCount (space : StateSpace) : Nat := space.storage.size

def vector (space : StateSpace) (index : Nat) : Except Misuse Bytes := space.storage.get index

def modelState (space : StateSpace) (index : Nat) : Except Misuse (Option Bytes) :=
  (space.vector index).map Traversal.modelState?

def traceTo (space : StateSpace) (index : Nat) : Except Misuse (List Bytes) :=
  (space.vector index).map fun _ => Traversal.trace space.storage space.parents index

end StateSpace

structure TraversalOptions (α : Type) where
  /-- Activations for this run; `none` keeps the declared ones. -/
  activations : Option (List Activation) := none
  /-- Applied in order. -/
  modifiers : List (Modifier α) := []

/-- Explores all states of a model. A state is expanded once and there are at most as many as the
capacity allows, which bounds the number of expansions. -/
def traverse {α σ : Type} [Scalar α] (model : Model α) (config : TraversalConfig)
    (options : TraversalOptions α) (observer : Observer α σ) (watcher : σ) :
    Except (TraversalError α) (StateSpace × σ) :=
  match model.activateAll (options.activations.getD []) with
  | .error misuse => .error (.misuse misuse)
  | .ok activations =>
    if IndexSet.limit < model.propositions.length then
      .error (.propositionLimit model.propositions.length)
    else
      match Storage.create (model.stateSize + 1) config.stateCapacity with
      | .error misuse => .error (.misuse misuse)
      | .ok storage => do
        let plan : Plan α σ :=
          ⟨model, activations, options.modifiers, observer, config.transitionCapacity⟩
        let started ← Traversal.expandInitial plan ⟨storage, #[], ⟨[], 0, false, watcher⟩⟩
        let done ← Traversal.run plan config.stateCapacity started
        return (⟨done.storage, done.parents, done.agenda.transitionCount, done.agenda.stopped,
          model.propositions⟩, done.agenda.watcher)

end Hazard
