import Hazard.Counterexample.Basic
import Hazard.Json.Faults
/-!
# Counterexample files

A counterexample is saved as an indented JSON document and loaded from any JSON document with the
same fields, provided that it has the current version.
-/

namespace Hazard

open Json (Value Fields Doc)

inductive LoadError where
  | unreadable
  | malformed
  | version (found : Nat)
  deriving DecidableEq, Repr

def LoadError.message : LoadError → String
  | .unreadable => "file cannot be read"
  | .malformed => "malformed counterexample"
  | .version found =>
      s!"unsupported counterexample version {found}, expected {Counterexample.currentVersion}"

namespace Counterexample

def stateDoc (state : Bytes) : Doc := .list (state.map fun byte => .natural byte.toNat)

def activationDoc (entry : String × Activation) : Doc :=
  .list [.text entry.1, entry.2.doc]

def doc (counterexample : Counterexample) : Doc :=
  .record [
    ("version", .natural counterexample.version),
    ("formula", .text counterexample.formula),
    ("fault_set", .list (counterexample.faultSet.map .text)),
    ("fault_activations", .list (counterexample.faultActivations.map activationDoc)),
    ("states", .list (counterexample.states.map stateDoc))]

def fileText (counterexample : Counterexample) : String := counterexample.doc.indented

def byte? (value : Value) : Option UInt8 := (value.natural? 255).map UInt8.ofNat

def decode? (value : Value) : Option Counterexample := do
  let fields ← Fields.of?
    ["version", "formula", "fault_set", "fault_activations", "states"] value
  return {
    version := ← fields.required? 0 (Value.natural? (UInt32.size - 1))
    formula := ← fields.required? 1 Value.text?
    faultSet := ← fields.required? 2 (Value.list? Value.text?)
    faultActivations :=
      ← fields.required? 3 (Value.list? (Value.pair? Value.text? Activation.decode?))
    states := ← fields.required? 4 (Value.list? (Value.list? byte?)) }

def load (text : String) : Except LoadError Counterexample :=
  match (Value.parse? text).bind decode? with
  | none => .error .malformed
  | some counterexample =>
    if counterexample.version = currentVersion then .ok counterexample
    else .error (.version counterexample.version)

/-- Loads a counterexample from a file, which is missing for `none`. Files must be text. -/
def loadFile (content : Option ByteArray) : Except LoadError Counterexample :=
  match content.bind String.fromUTF8? with
  | none => .error .unreadable
  | some text => load text

end Counterexample

end Hazard
