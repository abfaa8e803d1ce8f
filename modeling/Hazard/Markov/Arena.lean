import Hazard.Scalar
import Hazard.Traversal.Error
/-!
# Chains of transitions

The transitions of every source as a linked chain of elements in one arena. Transitions that agree
in target and label, and in the choice they belong to where choices are kept apart, share an element
and add up. Elements are meant to be fewer than 2^32, so that their numbers are words of 32 bits.
-/

namespace Hazard

structure ChainElement (α : Type) where
  target : Nat
  probability : α
  label : Label
  distribution : Nat
  next : Option Nat
  deriving DecidableEq, Repr

structure ChainArena (α : Type) where
  elements : Array (ChainElement α)
  /-- The first element of every source. -/
  heads : Array (Option Nat)
  /-- The first element of the initial step. -/
  initial : Option Nat
  capacity : Nat
  deriving DecidableEq, Repr

/-- Whether transitions of different choices may share an element. -/
inductive Merging where
  | acrossChoices
  | withinChoice
  deriving DecidableEq, Repr

namespace ChainArena

variable {α : Type}

def create (stateCapacity transitionCapacity : Nat) : ChainArena α :=
  ⟨#[], Array.replicate stateCapacity none, none, transitionCapacity⟩

def agrees (merging : Merging) (element : ChainElement α) (transition : Transition α) : Bool :=
  element.target == transition.target && element.label == transition.label
    && (merging == .acrossChoices || element.distribution == transition.distribution)

/-- Where a walk along a chain ends: at the element of a transition, or behind the last one. -/
inductive Place where
  | element (index : Nat)
  | behind (last : Option Nat)

def locate (merging : Merging) (transition : Transition α) (elements : Array (ChainElement α)) :
    (fuel : Nat) → (cursor last : Option Nat) → Place
  | 0, _, last => .behind last
  | _ + 1, none, last => .behind last
  | fuel + 1, some index, last =>
    match elements[index]? with
    | none => .behind last
    | some element =>
      if agrees merging element transition then .element index
      else locate merging transition elements fuel element.next (some index)

/-- The first element of a source, if there is room for the source. -/
def head? (arena : ChainArena α) : Origin → Option (Option Nat)
  | none => some arena.initial
  | some source => arena.heads[source]?

/-- Makes `index` follow `last` in the chain of a source, or start it. -/
def link (arena : ChainArena α) (origin : Origin) (last : Option Nat) (index : Nat) :
    ChainArena α :=
  match last, origin with
  | some last, _ =>
    { arena with elements := arena.elements.modify last ({ · with next := some index }) }
  | none, none => { arena with initial := some index }
  | none, some source => { arena with heads := arena.heads.setIfInBounds source (some index) }

variable [Scalar α]

/-- Adds a transition to the chain of a source. Links lead forward, so the elements bound the walk
along a chain. -/
def append (arena : ChainArena α) (merging : Merging) (origin : Origin)
    (transition : Transition α) : Except (TraversalError α) (ChainArena α) :=
  match arena.head? origin with
  | none => .error (.misuse .outOfBounds)
  | some head =>
    match locate merging transition arena.elements (arena.elements.size + 1) head none with
    | .element index =>
      .ok { arena with elements := arena.elements.modify index fun element =>
        { element with probability := element.probability + transition.probability } }
    | .behind last =>
      if arena.capacity ≤ arena.elements.size then
        .error (.exhausted ⟨.transition, arena.capacity⟩)
      else
        let index := arena.elements.size
        let element : ChainElement α :=
          ⟨transition.target, transition.probability, transition.label, transition.distribution,
            none⟩
        .ok ({ arena with elements := arena.elements.push element }.link origin last index)

/-- Adds transitions in turn. The first that fails ends the work and keeps what was added. -/
def appendAll (arena : ChainArena α) (merging : Merging) (origin : Origin) :
    List (Transition α) → ChainArena α × Except (TraversalError α) Verdict
  | [] => (arena, .ok .proceed)
  | transition :: rest =>
    match arena.append merging origin transition with
    | .ok larger => larger.appendAll merging origin rest
    | .error error => (arena, .error error)

end ChainArena

def chainFrom {α : Type} (elements : Array (ChainElement α)) :
    (fuel : Nat) → Option Nat → List (ChainElement α)
  | 0, _ => []
  | _ + 1, none => []
  | fuel + 1, some index =>
    match elements[index]? with
    | some element => element :: chainFrom elements fuel element.next
    | none => []

/-- Finished chains: the outgoing transitions of every state and the initial ones, with labels on
the transitions. -/
structure TransitionChains (α : Type) where
  elements : Array (ChainElement α)
  heads : Array (Option Nat)
  first : Option Nat
  propositions : List String
  deriving DecidableEq, Repr

def ChainArena.finish {α : Type} (arena : ChainArena α) (states : Nat)
    (propositions : List String) : TransitionChains α :=
  ⟨arena.elements, arena.heads.extract 0 states, arena.initial, propositions⟩

namespace TransitionChains

variable {α : Type}

def stateCount (chains : TransitionChains α) : Nat := chains.heads.size

def transitionCount (chains : TransitionChains α) : Nat := chains.elements.size

def chain (chains : TransitionChains α) (head : Option Nat) : List (ChainElement α) :=
  chainFrom chains.elements (chains.elements.size + 1) head

def initial (chains : TransitionChains α) : List (ChainElement α) := chains.chain chains.first

def outgoing (chains : TransitionChains α) (state : Nat) : Except Misuse (List (ChainElement α)) :=
  match chains.heads[state]? with
  | some head => .ok (chains.chain head)
  | none => .error .outOfBounds

end TransitionChains

end Hazard
