import Hazard.Fault.Set
import Hazard.Json.Decode
import Hazard.Json.Reader
import Hazard.Json.Settings
import Hazard.Json.Writer
import Hazard.Transition
/-!
# Faults and labels in JSON

Index sets are the numbers their bits spell, activations are names.
-/

namespace Hazard

open Json (Value Fields Doc)

namespace IndexSet

def decode? (value : Value) : Option IndexSet :=
  (value.natural? Json.wordLimit).map fun bits => ⟨UInt64.ofNat bits⟩

def doc (set : IndexSet) : Doc := .natural set.bits.toNat

end IndexSet

namespace Activation

def name : Activation → String
  | .forced => "Forced"
  | .suppressed => "Suppressed"
  | .nondeterministic => "Nondeterministic"

def ofName? (name : String) : Option Activation :=
  [forced, suppressed, nondeterministic].find? (·.name = name)

def decode? (value : Value) : Option Activation := value.name?.bind ofName?

def doc (activation : Activation) : Doc := .text activation.name

end Activation

namespace Fault

def decode? (value : Value) : Option (Fault Float) := do
  let fields ← Fields.of? ["name", "activation", "probability"] value
  return {
    name := ← fields.required? 0 Value.text?
    activation := ← fields.required? 1 Activation.decode?
    probability := ← fields.optional? 2 Value.double? }

def doc (fault : Fault Float) : Doc :=
  .record [
    ("name", .text fault.name),
    ("activation", fault.activation.doc),
    ("probability", (fault.probability.map Doc.double).getD .null)]

end Fault

namespace ModelError

def decode? (value : Value) : Option ModelError := do
  let fields ← Fields.of? ["message"] value
  return ⟨← fields.required? 0 Value.text?⟩

def doc (error : ModelError) : Doc := .record [("message", .text error.message)]

end ModelError

end Hazard
