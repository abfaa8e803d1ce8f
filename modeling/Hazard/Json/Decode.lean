import Hazard.Json.Number
/-!
# Decoding JSON values

A record is an object or an array of its fields in order. Names that are not among the fields are
skipped; a field given twice is refused, and so are superfluous array items.
-/

namespace Hazard.Json

namespace Value

def natural? (limit : Nat) : Value → Option Nat
  | .number written =>
    match written.natural? with
    | some value => if value ≤ limit then some value else none
    | none => none
  | _ => none

def double? : Value → Option Float
  | .number written => written.double?
  | _ => none

def text? : Value → Option String
  | .string text => text
  | _ => none

def list? {β : Type} (decode : Value → Option β) : Value → Option (List β)
  | .array items => items.mapM decode
  | _ => none

def optional? {β : Type} (decode : Value → Option β) : Value → Option (Option β)
  | .null => some none
  | value => (decode value).map some

def pair? {β γ : Type} (first : Value → Option β) (second : Value → Option γ) :
    Value → Option (β × γ)
  | .array [left, right] => do return (← first left, ← second right)
  | _ => none

/-- One of several names, as a string or as an object with the name and null. -/
def name? : Value → Option String
  | .string text => text
  | .object [(text, .null)] => text
  | _ => none

end Value

structure Fields where
  values : List (Option Value)
  /-- Whether they were given by position, without names. -/
  positional : Bool

namespace Fields

/-- The value of a member, if exactly one has the name. `none` is a repeated name. -/
def member? (members : List (Text × Value)) (name : String) : Option (Option Value) :=
  match members.filter (·.1 = some name) with
  | [] => some none
  | [(_, value)] => some (some value)
  | _ => none

def of? (names : List String) : Value → Option Fields
  | .array items =>
    if items.length ≤ names.length then
      some ⟨items.map some ++ List.replicate (names.length - items.length) none, true⟩
    else none
  | .object members =>
    if members.any (·.1.isNone) then none
    else do return ⟨← names.mapM (member? members), false⟩
  | _ => none

variable {β : Type}

def get (fields : Fields) (position : Nat) : Option Value := (fields.values[position]?).join

def required? (fields : Fields) (position : Nat) (decode : Value → Option β) : Option β :=
  (fields.get position).bind decode

def default? (fields : Fields) (position : Nat) (decode : Value → Option β) (default : β) :
    Option β :=
  match fields.get position with
  | some value => decode value
  | none => some default

/-- A field that may be null, and may be left out where fields have names. -/
def optional? (fields : Fields) (position : Nat) (decode : Value → Option β) :
    Option (Option β) :=
  match fields.get position with
  | some value => value.optional? decode
  | none => if fields.positional then none else some none

end Fields

end Hazard.Json
