import Hazard.Analysis.MaximalSafeSet
/-!
# Scripted heuristics

A heuristic that follows a script and writes down what happens, and a type for lists that mix it
with searches for a large safe set.
-/

namespace Hazard

namespace Script

/-- A change of the queue. Sets are given by the positions of their faults. -/
inductive Action where
  | front (positions : List Nat)
  | back (positions : List Nat)
  | pop
  | clear
  deriving DecidableEq, Repr

def Action.perform (queue : Queue) : Action → Except Misuse Queue
  | .front positions => (FaultSet.ofList positions).map (· :: queue)
  | .back positions => (FaultSet.ofList positions).map fun set => queue ++ [set]
  | .pop => .ok (queue.drop 1)
  | .clear => .ok []

inductive Event where
  | augment (cardinality : Nat) (queue : Queue)
  | update (set : FaultSet) (safe : Bool)
  deriving DecidableEq, Repr

end Script

structure Script where
  onLevel : List (Nat × List Script.Action)
  /-- The sets are given by the positions of their faults. -/
  onSet : List (List Nat × List Script.Action)
  /-- What happened so far. -/
  events : List Script.Event := []
  deriving DecidableEq, Repr

namespace Script

private def play {κ : Type} (fits : κ → Except Misuse Bool) (entries : List (κ × List Action))
    (queue : Queue) : Except Misuse Queue :=
  entries.foldlM
    (fun queue (key, actions) => do
      if ← fits key then actions.foldlM Action.perform queue else return queue)
    queue

private def note (script : Script) (played : Except Misuse Queue) (event : Queue → Event) :
    Script × Except Misuse Queue :=
  match played with
  | .ok queue => ({ script with events := script.events ++ [event queue] }, .ok queue)
  | .error misuse => (script, .error misuse)

def augment (script : Script) (cardinality : Nat) (queue : Queue) :
    Script × Except Misuse Queue :=
  script.note (play (fun level => .ok (level == cardinality)) script.onLevel queue)
    (.augment cardinality)

def update (script : Script) (queue : Queue) (set : FaultSet) (safe : Bool) :
    Script × Except Misuse Queue :=
  script.note
    (play (fun positions => (FaultSet.ofList positions).map (· == set)) script.onSet queue)
    fun _ => .update set safe

end Script

inductive Advisor where
  | maximal (search : MaximalSafeSet)
  | scripted (script : Script)
  deriving DecidableEq, Repr

namespace Advisor

def augment (advisor : Advisor) (cardinality : Nat) (queue : Queue) :
    Advisor × Except Misuse Queue :=
  match advisor with
  | .maximal search => (search.augment cardinality queue).map .maximal .ok
  | .scripted script => (script.augment cardinality queue).map .scripted id

def update (advisor : Advisor) (queue : Queue) (set : FaultSet) (safe : Bool) :
    Advisor × Except Misuse Queue :=
  match advisor with
  | .maximal search => (search.update queue set safe).map .maximal .ok
  | .scripted script => (script.update queue set safe).map .scripted id

def heuristic : Heuristic Advisor := ⟨augment, update⟩

def found (advisors : List Advisor) : List (Option FaultSet) :=
  advisors.filterMap fun
    | .maximal search => some search.found
    | .scripted _ => none

private def eventLists (advisors : List Advisor) : List (List Script.Event) :=
  advisors.filterMap fun
    | .maximal _ => none
    | .scripted script => some script.events

/-- The events of all scripts in the order they happened: every script writes down every call, so
the first events of all come first. -/
def events (advisors : List Advisor) : List Script.Event :=
  let lists := eventLists advisors
  let rounds := (lists.map List.length).foldl max 0
  (List.range rounds).flatMap fun round => lists.filterMap (·[round]?)

def forget (advisors : List Advisor) : List Advisor :=
  advisors.map fun
    | .maximal search => .maximal search
    | .scripted script => .scripted { script with events := [] }

end Advisor

end Hazard
