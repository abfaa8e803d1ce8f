import Hazard.Config
import Hazard.Json.Decode
import Hazard.Json.Reader
/-!
# Settings in JSON

Every setting that is left out takes its default.
-/

namespace Hazard

open Json (Value Fields)

def Json.wordLimit : Nat := UInt64.size - 1

namespace TraversalConfig

def decode? (value : Value) : Option TraversalConfig := do
  let standard : TraversalConfig := {}
  let fields ← Fields.of?
    ["state_capacity", "transition_capacity", "cpu_count", "progress_reports"] value
  let count := Value.natural? Json.wordLimit
  return {
    stateCapacity := ← fields.default? 0 count standard.stateCapacity
    transitionCapacity := ← fields.default? 1 count standard.transitionCapacity
    workers := ← fields.default? 2 count standard.workers
    progressReports := ← fields.default? 3 count standard.progressReports }

def parse? (text : String) : Option TraversalConfig := (Value.parse? text).bind decode?

end TraversalConfig

namespace CheckerConfig

def decode? (value : Value) : Option (CheckerConfig Float) := do
  let standard : CheckerConfig Float := .standard
  let fields ← Fields.of? ["iterations", "convergence"] value
  return {
    iterations := ← fields.default? 0 (Value.natural? Json.wordLimit) standard.iterations
    convergence := ← fields.default? 1 Value.double? standard.convergence }

def parse? (text : String) : Option (CheckerConfig Float) := (Value.parse? text).bind decode?

end CheckerConfig

namespace ActivationBehaviour

def name : ActivationBehaviour → String
  | .forceOnly => "ForceOnly"
  | .nondeterministic => "Nondeterministic"
  | .forceThenFallback => "ForceThenFallback"

def ofName? (name : String) : Option ActivationBehaviour :=
  [forceOnly, nondeterministic, forceThenFallback].find? (·.name = name)

def decode? (value : Value) : Option ActivationBehaviour := value.name?.bind ofName?

end ActivationBehaviour

namespace AnalysisConfig

def decode? (value : Value) : Option AnalysisConfig := do
  let fields ← Fields.of? ["traversal", "fault_activation_behaviour", "max_cardinality"] value
  return {
    traversal := ← fields.default? 0 TraversalConfig.decode? {}
    behaviour := ← fields.default? 1 ActivationBehaviour.decode? .nondeterministic
    maxCardinality :=
      ← fields.default? 2 (Value.optional? (Value.natural? Json.wordLimit)) none }

def parse? (text : String) : Option AnalysisConfig := (Value.parse? text).bind decode?

end AnalysisConfig

end Hazard
