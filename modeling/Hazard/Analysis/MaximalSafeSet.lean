import Hazard.Analysis.Heuristic
/-!
# Looking for a large safe set

A search from the top: the set of all faults that can strike is suggested first. While suggested
sets turn out critical, their direct subsets are suggested, until a safe one is found or the budget
is used up. All subsets of a safe set are safe, so one large safe set saves many checks.
-/

namespace Hazard

structure MaximalSafeSet where
  candidates : FaultSet
  forced : FaultSet
  /-- How many more sets may be suggested. -/
  budget : Nat
  /-- Suggested sets that have not been checked. -/
  pending : List FaultSet := []
  level : Nat := 0
  started : Bool := false
  /-- The safe set that ended the search. -/
  found : Option FaultSet := none
  deriving DecidableEq, Repr

namespace MaximalSafeSet

def standardBudget : Nat := 128

variable {α : Type}

def create (faults : List (Fault α)) (budget : Nat) : Except Misuse MaximalSafeSet := do
  let forced ← FaultSet.declared faults .forced
  let nondeterministic ← FaultSet.declared faults .nondeterministic
  return { candidates := nondeterministic.union forced, forced, budget }

/-- Puts a set in front of the queue, if it is larger than the level, not yet pending and within
the budget. -/
def suggest (search : MaximalSafeSet) (queue : Queue) (set : FaultSet) : MaximalSafeSet × Queue :=
  if search.budget = 0 ∨ set.card ≤ search.level ∨ search.pending.contains set then
    (search, queue)
  else
    ({ search with budget := search.budget - 1, pending := set :: search.pending }, set :: queue)

/-- Suggests all candidates at the first level above the empty set. -/
def augment (search : MaximalSafeSet) (cardinality : Nat) (queue : Queue) :
    MaximalSafeSet × Queue :=
  let search := { search with level := cardinality }
  if search.started || cardinality = 0 then (search, queue)
  else { search with started := true }.suggest queue search.candidates

def smaller (search : MaximalSafeSet) (set : FaultSet) : List FaultSet :=
  ((List.finRange 64).filter fun fault =>
    (set.diff search.forced).contains fault.val).map set.erase

def update (search : MaximalSafeSet) (queue : Queue) (set : FaultSet) (safe : Bool) :
    MaximalSafeSet × Queue :=
  if !search.pending.contains set then (search, queue)
  else
    let search := { search with pending := search.pending.erase set }
    if search.found.isSome then (search, queue)
    else if safe then ({ search with found := some set }, queue)
    else
      (search.smaller set).foldl (fun (search, queue) set => search.suggest queue set)
        (search, queue)

def heuristic : Heuristic MaximalSafeSet := .ofTotal augment update

end MaximalSafeSet

end Hazard
