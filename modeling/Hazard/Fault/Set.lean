import Hazard.Fault.Basic
import Hazard.IndexSet
import Hazard.Misuse
/-!
# Fault sets

A set of a model's faults, by their position in its declaration.
-/

namespace Hazard

abbrev FaultSet := IndexSet

namespace FaultSet

def index (position : Nat) : Except Misuse (Fin 64) :=
  if inside : position < 64 then .ok ⟨position, inside⟩ else .error (.faultBeyond position)

def ofIndex (position : Nat) : Except Misuse FaultSet :=
  (index position).map IndexSet.singleton

def adjoin (set : FaultSet) (position : Nat) : Except Misuse FaultSet :=
  (index position).map set.insert

def remove (set : FaultSet) (position : Nat) : Except Misuse FaultSet :=
  (index position).map set.erase

def ofList (positions : List Nat) : Except Misuse FaultSet := positions.foldlM adjoin .empty

def full (count : Nat) : Except Misuse FaultSet :=
  if count ≤ IndexSet.limit then .ok (.below count) else .error .crowdedFaults

def complement (set : FaultSet) (count : Nat) : Except Misuse FaultSet :=
  (full count).map (·.diff set)

variable {α : Type}

def declaredPositions (faults : List (Fault α)) (activation : Activation) : List Nat :=
  (faults.zipIdx.filter fun (fault, _) => fault.activation = activation).map (·.2)

def declared (faults : List (Fault α)) (activation : Activation) : Except Misuse FaultSet :=
  ofList (declaredPositions faults activation)

def names (set : FaultSet) (faults : List (Fault α)) : List String :=
  set.toList.filterMap fun position => (faults[position]?).map (·.name)

def joinedNames (set : FaultSet) (faults : List (Fault α)) : String := joinNames (set.names faults)

/-- Activations under which exactly the candidates in the set may strike, in the given mode. Faults
that are no candidates keep their declared activation. -/
def activations (set : FaultSet) (faults : List (Fault α)) (candidates : FaultSet)
    (mode : Activation) : List Activation :=
  faults.zipIdx.map fun (fault, position) =>
    if !candidates.contains position then fault.activation
    else if set.contains position then mode
    else .suppressed

def render (set : FaultSet) : String := IndexSet.render set ""

end FaultSet

end Hazard
