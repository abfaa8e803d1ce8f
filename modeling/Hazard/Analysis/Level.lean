import Hazard.Fault.Set
/-!
# Levels of the power set

The fault sets of one size that may still be safe, made from the safe sets of the size below.
-/

namespace Hazard

namespace FaultSet

/-- Puts a set into an ascending list, once. -/
def insertSorted (set : FaultSet) : List FaultSet → List FaultSet
  | [] => [set]
  | first :: rest =>
    if set.bits < first.bits then set :: first :: rest
    else if set = first then first :: rest
    else first :: insertSorted set rest

def positions (count : Nat) : List (Fin 64) := (List.finRange 64).filter (·.val < count)

def lacksSubset (count : Nat) (safe : List FaultSet) (fault : Fin 64) (set : FaultSet) : Bool :=
  (positions count).any fun later =>
    fault < later && set.contains later && !safe.contains (set.erase later)

/-- Sets made by adding one fault to the safe sets that lack it. -/
def extensions (count : Nat) (safe : List FaultSet) (fault : Fin 64) : List FaultSet :=
  ((safe.filter fun set => !set.contains fault).map (·.insert fault)).filter
    fun set => !lacksSubset count safe fault set

/-- The new sets so far, and the safe sets that can still be extended. -/
structure Growth where
  made : List FaultSet
  safe : List FaultSet

/-- Extends by one fault. Every set is made once, by its least fault, so the safe sets that hold
the fault are given up afterwards. -/
def Growth.extend (count : Nat) (growth : Growth) (fault : Fin 64) : Growth where
  made := extensions count growth.safe fault ++ growth.made
  safe := growth.safe.filter fun set => !set.contains fault

/-- The sets of the given size all of whose direct subsets are safe, in ascending order. -/
def level (cardinality count : Nat) (safe : List FaultSet) : List FaultSet :=
  match cardinality with
  | 0 => [.empty]
  | 1 => if safe.isEmpty then [] else (positions count).map IndexSet.singleton
  | _ => ((positions count).foldl (Growth.extend count) ⟨[], safe⟩).made.mergeSort IndexSet.le

end FaultSet

end Hazard
