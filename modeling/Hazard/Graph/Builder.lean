import Hazard.Graph.Basic
import Hazard.Traversal.Error
/-!
# Building a state graph

Batches of transitions are appended to an edge buffer of fixed capacity. The block of a source is
kept packed into one word, the offset above the count.
-/

namespace Hazard

namespace Block

/-- Offset and count in one word; both must be below 2^32. -/
def pack (block : Block) : UInt64 := UInt64.ofNat block.offset <<< 32 ||| UInt64.ofNat block.count

def unpack (word : UInt64) : Block := ⟨(word >>> 32).toNat, (word &&& 0xffffffff).toNat⟩

end Block

structure GraphBuilder where
  capacity : Nat
  edges : Array Edge
  /-- Where the next batch goes, modulo 2^64. A batch that does not fit reserves its place all the
  same. -/
  nextOffset : UInt64
  blocks : Array UInt64
  initial : List Edge
  deriving DecidableEq, Repr

namespace GraphBuilder

variable {α : Type}

def create (stateCapacity edgeCapacity : Nat) : Except Misuse GraphBuilder :=
  if edgeCapacity < UInt32.size - 1 then
    .ok ⟨edgeCapacity, #[], 0, Array.replicate stateCapacity 0, []⟩
  else .error .oversizedBuffer

/-- Stores one edge. Places that were passed over hold an unlabelled edge to state 0. -/
def place (buffer : Array Edge) (position : Nat) (edge : Edge) : Array Edge :=
  if position < buffer.size then buffer.setIfInBounds position edge
  else (buffer ++ Array.replicate (position - buffer.size) default).push edge

def store (buffer : Array Edge) (offset : Nat) : List Edge → Array Edge
  | [] => buffer
  | edge :: rest => store (place buffer offset edge) (offset + 1) rest

def append (builder : GraphBuilder) (source : Nat) (batch : List Edge) :
    GraphBuilder × Except (TraversalError α) Verdict :=
  let offset := builder.nextOffset
  let reserved := { builder with nextOffset := offset + UInt64.ofNat batch.length }
  if builder.capacity < reserved.nextOffset.toNat then
    (reserved, .error (.exhausted ⟨.transition, builder.capacity⟩))
  else
    let room := builder.capacity - offset.toNat
    let written := { reserved with edges := store builder.edges offset.toNat (batch.take room) }
    if batch.length ≤ room ∧ source < builder.blocks.size then
      ({ written with
        blocks := written.blocks.setIfInBounds source (Block.pack ⟨offset.toNat, batch.length⟩) },
        .ok .proceed)
    else (written, .error (.misuse .outOfBounds))

def observe (builder : GraphBuilder) (origin : Origin) (batch : List (Transition α)) :
    GraphBuilder × Except (TraversalError α) Verdict :=
  let edges := batch.map Transition.edge
  match origin with
  | none => ({ builder with initial := builder.initial ++ edges }, .ok .proceed)
  | some source => builder.append source edges

def observer : Observer α GraphBuilder := ⟨observe⟩

/-- The buffer up to the next offset, with the places that were reserved and not written. -/
def usedEdges (builder : GraphBuilder) : Array Edge :=
  let used := min builder.nextOffset.toNat builder.capacity
  (builder.edges ++ Array.replicate (used - builder.edges.size) default).extract 0 used

def finish (builder : GraphBuilder) (states : Nat) (propositions : List String) :
    Except Misuse StateGraph :=
  if states ≤ builder.blocks.size then
    .ok {
      edges := builder.usedEdges
      blocks := (builder.blocks.extract 0 states).map Block.unpack
      initial := builder.initial
      propositions }
  else .error .outOfBounds

end GraphBuilder

end Hazard
