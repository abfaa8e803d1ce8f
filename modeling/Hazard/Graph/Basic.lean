import Hazard.Transition
/-!
# State graphs

The labelled graph that CTL formulas are checked on. All edges lie in one buffer; every state owns
a block of it.
-/

namespace Hazard

structure Edge where
  target : Nat
  label : Label
  deriving DecidableEq, Repr, Inhabited

def Transition.edge {α : Type} (transition : Transition α) : Edge :=
  ⟨transition.target, transition.label⟩

structure Block where
  offset : Nat
  count : Nat
  deriving DecidableEq, Repr

structure StateGraph where
  edges : Array Edge
  blocks : Array Block
  initial : List Edge
  propositions : List String
  deriving DecidableEq, Repr

namespace StateGraph

def stateCount (graph : StateGraph) : Nat := graph.blocks.size

def edgeCount (graph : StateGraph) : Nat := graph.edges.size

def outgoing (graph : StateGraph) (state : Nat) : List Edge :=
  match graph.blocks[state]? with
  | some block => (graph.edges.extract block.offset (block.offset + block.count)).toList
  | none => []

def successors (graph : StateGraph) (state : Nat) : List Nat :=
  (graph.outgoing state).map (·.target)

def outgoingCount (graph : StateGraph) : Nat :=
  ((List.range graph.stateCount).flatMap graph.outgoing).length

private def appendBlock (graph : StateGraph) (out : List Edge) : StateGraph :=
  { graph with
    edges := graph.edges ++ out
    blocks := graph.blocks.push ⟨graph.edges.size, out.length⟩ }

def ofEdges (propositions : List String) (outgoing : List (List Edge)) (initial : List Edge) :
    StateGraph :=
  outgoing.foldl appendBlock ⟨#[], #[], initial, propositions⟩

end StateGraph

end Hazard
