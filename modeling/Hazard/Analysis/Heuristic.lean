import Hazard.Fault.Set
/-!
# Heuristics

A heuristic looks at the queue of fault sets to be checked and changes it. It is told of every set
that was checked.
-/

namespace Hazard

/-- Fault sets to be checked, the next one first. -/
abbrev Queue := List FaultSet

/-- What a kind of heuristic with states `η` does. One that asks for what cannot be done ends the
analysis. -/
structure Heuristic (η : Type) where
  /-- Before the sets of a size are checked. -/
  augment : η → (cardinality : Nat) → Queue → η × Except Misuse Queue
  /-- After a set was checked. -/
  update : η → Queue → FaultSet → (safe : Bool) → η × Except Misuse Queue

namespace Heuristic

variable {η : Type}

def ofTotal (augment : η → (cardinality : Nat) → Queue → η × Queue)
    (update : η → Queue → FaultSet → (safe : Bool) → η × Queue) : Heuristic η where
  augment state cardinality queue := (augment state cardinality queue).map id .ok
  update state queue set safe := (update state queue set safe).map id .ok

/-- Lets every heuristic act on the queue in turn. Those behind one that fails do not act. -/
def inTurn (act : η → Queue → η × Except Misuse Queue) :
    List η → Queue → List η × Except Misuse Queue
  | [], queue => ([], .ok queue)
  | state :: rest, queue =>
    match act state queue with
    | (state, .error misuse) => (state :: rest, .error misuse)
    | (state, .ok queue) =>
      let (others, queue) := inTurn act rest queue
      (state :: others, queue)

def augmentAll (heuristic : Heuristic η) (states : List η) (cardinality : Nat) (queue : Queue) :
    List η × Except Misuse Queue :=
  inTurn (fun state queue => heuristic.augment state cardinality queue) states queue

def updateAll (heuristic : Heuristic η) (states : List η) (queue : Queue) (set : FaultSet)
    (safe : Bool) : List η × Except Misuse Queue :=
  inTurn (fun state queue => heuristic.update state queue set safe) states queue

end Heuristic

end Hazard
