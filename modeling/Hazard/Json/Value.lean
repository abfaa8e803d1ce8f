/-!
# JSON values

Numbers are kept as they are written, and so are the members of objects: repeated, and in order.
-/

namespace Hazard.Json

structure Number where
  negative : Bool
  whole : List Nat
  fraction : Option (List Nat)
  /-- The digits of the exponent and whether it is negative. -/
  exponent : Option (Bool × List Nat)
  deriving DecidableEq, Repr

/-- The text a string literal stands for. A literal with half of a surrogate pair is well formed
and stands for no text. -/
abbrev Text := Option String

inductive Value where
  | null
  | bool (value : Bool)
  | number (value : Number)
  | string (text : Text)
  | array (items : List Value)
  | object (members : List (Text × Value))
  deriving Repr

end Hazard.Json
