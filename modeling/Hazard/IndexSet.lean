/-!
# Index sets

A set of indices below 64, one bit each. Faults and atomic propositions are both counted this way.
-/

namespace Hazard

structure IndexSet where
  bits : UInt64
  deriving DecidableEq, Repr, Hashable

namespace IndexSet

def limit : Nat := 64

def empty : IndexSet := ⟨0⟩

instance : Inhabited IndexSet := ⟨empty⟩

instance : EmptyCollection IndexSet := ⟨empty⟩

def isEmpty (set : IndexSet) : Bool := set.bits == 0

/-- Membership. No index from 64 on is a member. -/
def contains (set : IndexSet) (index : Nat) : Bool := set.bits.toBitVec.getLsbD index

def singleton (index : Fin 64) : IndexSet := ⟨1 <<< UInt64.ofNat index⟩

def union (left right : IndexSet) : IndexSet := ⟨left.bits ||| right.bits⟩

def inter (left right : IndexSet) : IndexSet := ⟨left.bits &&& right.bits⟩

def diff (left right : IndexSet) : IndexSet := ⟨left.bits &&& ~~~right.bits⟩

def insert (set : IndexSet) (index : Fin 64) : IndexSet := set.union (singleton index)

def erase (set : IndexSet) (index : Fin 64) : IndexSet := set.diff (singleton index)

/-- The indices below `count`; all 64 of them from 64 on. -/
def below (count : Nat) : IndexSet :=
  if count < limit then ⟨(1 <<< UInt64.ofNat count) - 1⟩ else ⟨~~~0⟩

def isSubset (left right : IndexSet) : Bool := left.bits &&& ~~~right.bits == 0

def meets (left right : IndexSet) : Bool := left.bits &&& right.bits != 0

def ofTest (test : Nat → Bool) : IndexSet :=
  (List.finRange 64).foldl
    (fun set (index : Fin 64) => if test index.val then set.insert index else set) empty

def toList (set : IndexSet) : List Nat := (List.range limit).filter set.contains

def card (set : IndexSet) : Nat := set.toList.length

/-- Sets are ordered as the numbers their bits spell. -/
instance : Ord IndexSet := ⟨fun left right => compare left.bits right.bits⟩

def le (left right : IndexSet) : Bool := left.bits ≤ right.bits

def render (set : IndexSet) (tag : String) : String :=
  "\x7b" ++ ", ".intercalate (set.toList.map fun index => tag ++ toString index) ++ "\x7d"

end IndexSet

end Hazard
