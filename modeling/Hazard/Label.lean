import Hazard.IndexSet
import Hazard.Misuse
/-!
# Labels

The label of a state or transition is the set of atomic propositions that hold there.
-/

namespace Hazard

abbrev Label := IndexSet

namespace Label

def index (position : Nat) : Except Misuse (Fin 64) :=
  if inside : position < 64 then .ok ⟨position, inside⟩ else .error (.propositionBeyond position)

def mark (label : Label) (position : Nat) : Except Misuse Label :=
  (index position).map label.insert

def ofList (positions : List Nat) : Except Misuse Label := positions.foldlM mark .empty

def render (label : Label) : String := IndexSet.render label "p"

end Label

end Hazard
