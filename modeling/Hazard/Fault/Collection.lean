import Hazard.Fault.Set
/-!
# Collections of fault sets

Fault sets in buckets by size, so that a query for supersets skips the smaller buckets and a query
for subsets the larger ones.
-/

namespace Hazard

structure FaultSetCollection where
  buckets : Array (List FaultSet)
  /-- How many sets have been added, each counted once. -/
  size : Nat := 0
  deriving DecidableEq, Repr

namespace FaultSetCollection

def empty (faultCount : Nat) : FaultSetCollection := ⟨Array.replicate (faultCount + 1) [], 0⟩

/-- All members, smaller sets first, sets of one size in the order they came. -/
def toList (sets : FaultSetCollection) : List FaultSet := sets.buckets.toList.flatten

def isEmpty (sets : FaultSetCollection) : Bool := sets.size == 0

/-- Adds a set once. A set larger than the largest bucket has no place. -/
def add (sets : FaultSetCollection) (set : FaultSet) : Except Misuse FaultSetCollection :=
  if set.card < sets.buckets.size then
    if (sets.buckets.getD set.card []).contains set then .ok sets
    else .ok ⟨sets.buckets.modify set.card (· ++ [set]), sets.size + 1⟩
  else .error .outOfBounds

def hasSubsetOf (sets : FaultSetCollection) (set : FaultSet) : Bool :=
  (sets.buckets.toList.take (set.card + 1)).any (·.any (·.isSubset set))

def hasSupersetOf (sets : FaultSetCollection) (set : FaultSet) : Bool :=
  (sets.buckets.toList.drop set.card).any (·.any (set.isSubset ·))

def keepMinimal (kept : List FaultSet) (set : FaultSet) : List FaultSet :=
  if kept.any (·.isSubset set) then kept else kept ++ [set]

/-- The members without a proper subset among the members. Smaller sets come first. -/
def minimal (sets : FaultSetCollection) : List FaultSet := sets.toList.foldl keepMinimal []

end FaultSetCollection

end Hazard
