import Hazard.Misuse
/-!
# State sets

A set of states of a structure with a fixed number of states, packed into 64-bit words. The bits
beyond the last state are clear, so two sets over the same states are equal iff their words are.
-/

namespace Hazard

structure StateSet where
  words : Array UInt64
  /-- How many states the set ranges over. -/
  states : Nat
  deriving DecidableEq, Repr

namespace StateSet

def wordBits : Nat := 64

def empty (states : Nat) : StateSet := ⟨Array.replicate ((states + 63) / wordBits) 0, states⟩

def bitOf (state : Nat) : UInt64 := 1 <<< UInt64.ofNat (state % wordBits)

def contains (set : StateSet) (state : Nat) : Bool :=
  match set.words[state / wordBits]? with
  | some word => word.toBitVec.getLsbD (state % wordBits)
  | none => false

def clearLowest (word : UInt64) : UInt64 := word &&& (word - 1)

theorem toNat_clearLowest_lt {word : UInt64} (hword : word ≠ 0) :
    (clearLowest word).toNat < word.toNat := by
  have hone : 1 ≤ word.toNat :=
    Nat.pos_of_ne_zero fun hzero => hword (UInt64.toNat_inj.1 hzero)
  have hle : 1 ≤ word := UInt64.le_iff_toNat_le.2 hone
  rw [clearLowest, UInt64.toNat_and, UInt64.toNat_sub_of_le _ _ hle]
  exact Nat.lt_of_le_of_lt Nat.and_le_right (Nat.sub_lt hone Nat.one_pos)

/-- The position of the lowest set bit, which is the one bit that clearing it changes. -/
def lowestBit (word : UInt64) : Nat := (word ^^^ clearLowest word).log2.toNat

/-- The states of a word in ascending order: the lowest set bit is taken and cleared until none is
left. Bit 0 stands for `first`. -/
def wordStates (first : Nat) (rest : UInt64) : List Nat :=
  if rest = 0 then [] else (first + lowestBit rest) :: wordStates first (clearLowest rest)
termination_by rest.toNat
decreasing_by exact toNat_clearLowest_lt ‹_›

def toList (set : StateSet) : List Nat :=
  set.words.toList.zipIdx.flatMap fun entry => wordStates (entry.2 * wordBits) entry.1

def size (set : StateSet) : Nat :=
  set.words.foldl (fun count word => count + word.toBitVec.cpop.toNat) 0

def isEmpty (set : StateSet) : Bool := set.words.all (· == 0)

/-- Sets the bit of a state that has one. -/
def adjoin (set : StateSet) (state : Nat) : StateSet :=
  { set with words := set.words.modify (state / wordBits) (· ||| bitOf state) }

def insert (set : StateSet) (state : Nat) : Except Misuse (Bool × StateSet) :=
  if set.states ≤ state then .error (.stateBeyond state set.states)
  else
    match set.words[state / wordBits]? with
    | none => .error .outOfBounds
    | some word => .ok (word &&& bitOf state == 0, set.adjoin state)

def erase (set : StateSet) (state : Nat) : Bool × StateSet :=
  if set.contains state then
    (true, { set with words := set.words.modify (state / wordBits) (· ^^^ bitOf state) })
  else (false, set)

/-- Adds states in turn. The first one out of range ends the work and keeps what was added. -/
def extend (set : StateSet) : List Nat → StateSet × Except Misuse Unit
  | [] => (set, .ok ())
  | state :: rest =>
    match set.insert state with
    | .ok (_, larger) => larger.extend rest
    | .error misuse => (set, .error misuse)

def ofList (states : Nat) (members : List Nat) : Except Misuse StateSet :=
  match (empty states).extend members with
  | (set, .ok ()) => .ok set
  | (_, .error misuse) => .error misuse

def ofTest (states : Nat) (test : Nat → Bool) : StateSet :=
  ((List.range states).filter test).foldl adjoin (empty states)

def clearTail (states : Nat) (words : Array UInt64) : Array UInt64 :=
  if states % wordBits = 0 then words
  else words.modify (words.size - 1) (· &&& (bitOf states - 1))

def complement (set : StateSet) : StateSet :=
  { set with words := clearTail set.states (set.words.map (~~~ ·)) }

def full (states : Nat) : StateSet := (empty states).complement

def zipWords (combine : UInt64 → UInt64 → UInt64) (left right : StateSet) : StateSet :=
  { left with words := Array.zipWith combine left.words right.words }

def union (left right : StateSet) : StateSet := zipWords (· ||| ·) left right

def inter (left right : StateSet) : StateSet := zipWords (· &&& ·) left right

def diff (left right : StateSet) : StateSet := zipWords (fun a b => a &&& ~~~b) left right

end StateSet

end Hazard
