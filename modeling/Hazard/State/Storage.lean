import Hazard.Misuse
import Hazard.State.Digest
/-!
# Storage of state vectors

Every state vector gets a dense index, in the order of its first appearance. Vectors are found
again through tables of fixed size: the high bits of a vector's digest choose one of several
stripes, its low bits the slot where the linear search of that stripe starts. Nothing grows, so a
vector may find no room.
-/

namespace Hazard

inductive Resource where
  | state
  | transition
  deriving DecidableEq, Repr

def Resource.noun : Resource → String
  | .state => "state"
  | .transition => "transition"

structure Exhausted where
  resource : Resource
  capacity : Nat
  deriving DecidableEq, Repr

def Exhausted.message (error : Exhausted) : String :=
  let noun := error.resource.noun
  s!"unable to store more than {error.capacity} {noun}s; try increasing the {noun} capacity"

/-- A table of slots, each vacant or holding the index of a stored vector. -/
abbrev Stripe := Array (Option Nat)

structure Storage where
  vectorSize : Nat
  capacity : Nat
  /-- How many indices have been given out, those that came too late for a vector included. -/
  issued : Nat
  vectors : Array Bytes
  stripes : Array Stripe
  deriving DecidableEq, Repr

namespace Storage

def powerAbove (n : Nat) : Nat := if n ≤ 1 then 1 else 1 <<< (Nat.log2 (n - 1) + 1)

def stripeCount (capacity : Nat) : Nat := min (powerAbove (max 1 (min 64 (capacity / 1024)))) 64

/-- Twice the slots that a stripe needs if the digests spread evenly. -/
def stripeSize (capacity : Nat) : Nat := powerAbove (2 * capacity / stripeCount capacity + 16)

def create (vectorSize capacity : Nat) : Except Misuse Storage :=
  if capacity = 0 then .error .emptyStorage
  else if UInt32.size - 1 ≤ capacity then .error .oversizedStorage
  else .ok {
    vectorSize, capacity, issued := 0, vectors := #[],
    stripes := Array.replicate (stripeCount capacity)
      (Array.replicate (stripeSize capacity) none) }

def size (storage : Storage) : Nat := min storage.issued storage.capacity

def isEmpty (storage : Storage) : Bool := storage.size == 0

def get (storage : Storage) (index : Nat) : Except Misuse Bytes :=
  match storage.vectors[index]? with
  | some vector => .ok vector
  | none => .error (.unstoredState index)

/-- The stripe of a digest: its highest bits, as many as it takes to count the stripes. -/
def stripeOf (storage : Storage) (digest : UInt64) : Nat :=
  digest.toNat * storage.stripes.size / UInt64.size

inductive Probe where
  | found (index : Nat)
  | vacant (slot : Nat)
  | full
  deriving DecidableEq, Repr

/-- Searches `remaining` slots from `slot` on, wrapping around at the end of the stripe. -/
def probe (vectors : Array Bytes) (stripe : Stripe) (vector : Bytes) (slot : Nat) :
    (remaining : Nat) → Probe
  | 0 => .full
  | remaining + 1 =>
    match stripe[slot]? with
    | some (some index) =>
      if vectors[index]? = some vector then .found index
      else probe vectors stripe vector ((slot + 1) % stripe.size) remaining
    | _ => .vacant slot

/-- What an insertion found out: the vector's index, and whether it is a new one. -/
structure Placement where
  index : Nat
  fresh : Bool
  deriving DecidableEq, Repr

def home (storage : Storage) (vector : Bytes) : Stripe :=
  storage.stripes.getD (storage.stripeOf vector.digest) #[]

def search (storage : Storage) (vector : Bytes) : Probe :=
  let stripe := storage.home vector
  probe storage.vectors stripe vector (vector.digest.toNat % stripe.size) stripe.size

/-- Finishes the insertion of a vector where the search for it ended. A vacant slot is good for an
index, which may turn out to be one too many. -/
def settle (storage : Storage) (vector : Bytes) : Probe → Storage × Except Exhausted Placement
  | .found index => (storage, .ok ⟨index, false⟩)
  | .full => (storage, .error ⟨.state, storage.capacity⟩)
  | .vacant slot =>
    let index := storage.issued
    if storage.capacity ≤ index then
      ({ storage with issued := index + 1 }, .error ⟨.state, storage.capacity⟩)
    else
      ({ storage with
        issued := index + 1
        vectors := storage.vectors.push vector
        stripes := storage.stripes.modify (storage.stripeOf vector.digest)
          (·.setIfInBounds slot (some index)) }, .ok ⟨index, true⟩)

/-- Stores a vector of the right size unless an equal one is stored. -/
def place (storage : Storage) (vector : Bytes) : Storage × Except Exhausted Placement :=
  storage.settle vector (storage.search vector)

/-- Stores a vector, which must have the size the storage was made for. -/
def insert (storage : Storage) (vector : Bytes) :
    Except Misuse (Storage × Except Exhausted Placement) :=
  if vector.length = storage.vectorSize then .ok (storage.place vector) else .error .misfitVector

/-- Stores vectors in order. One that finds no room does not keep the others from being stored; one
of the wrong size ends the work, and what was stored before it stays. -/
def insertAll (storage : Storage) :
    List Bytes → Storage × Except Misuse (List (Except Exhausted Placement))
  | [] => (storage, .ok [])
  | vector :: rest =>
    match storage.insert vector with
    | .error misuse => (storage, .error misuse)
    | .ok (next, outcome) =>
      let (last, outcomes) := next.insertAll rest
      (last, outcomes.map (outcome :: ·))

end Storage

end Hazard
