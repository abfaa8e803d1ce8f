import Hazard.Decimal.Digits
import Hazard.Json.Value
/-!
# The value of a JSON number

A number without fraction and exponent is an integer. Read as a double, a number is its leading
digits, as many as fit a 64-bit word, rounded to a double and then multiplied or divided by one
power of ten; so the result may differ from the nearest double in the last place.
-/

namespace Hazard.Json.Number

/-- The value of an integer that is not negative. Minus zero is no integer. -/
def natural? (number : Number) : Option Nat :=
  if number.negative then none
  else
    match number.fraction, number.exponent with
    | none, none => some (Digits.value number.whole)
    | _, _ => none

/-- Appends digits to a word while it does not overflow; says how many digits fit. -/
def fill (word : Nat) : List Nat → Nat × Nat
  | [] => (word, 0)
  | digit :: rest =>
    if word * 10 + digit < UInt64.size then
      let (filled, count) := fill (word * 10 + digit) rest
      (filled, count + 1)
    else (word, 0)

/-- The leading digits as a word, and the power of ten that belongs to it. -/
def significand (number : Number) : Nat × Int :=
  let (whole, used) := fill 0 number.whole
  let (word, places) := fill whole (number.fraction.getD [])
  (word, ((number.whole.length - used : Nat) : Int) - places
    + Digits.exponentValue number.exponent)

def tenTo (exponent : Nat) : Float := Float.ofScientific 1 false exponent

/-- Multiplies by a power of ten; `none` on overflow. -/
def scaleUp (value : Float) (exponent : Nat) : Option Float :=
  if 308 < exponent then if value == 0 then some value else none
  else
    let scaled := value * tenTo exponent
    if scaled.isInf then none else some scaled

/-- Divides by a power of ten, in steps if it is out of the doubles' range. A few steps reach
zero. -/
def scaleDown (value : Float) (exponent : Nat) : (steps : Nat) → Float
  | 0 => value
  | steps + 1 =>
    if exponent ≤ 308 then value / tenTo exponent
    else if value == 0 then value
    else scaleDown (value / tenTo 308) (exponent - 308) steps

def double? (number : Number) : Option Float := do
  let (word, exponent) := number.significand
  let magnitude := (UInt64.ofNat word).toFloat
  let scaled ←
    if 0 ≤ exponent then scaleUp magnitude exponent.toNat
    else some (scaleDown magnitude (-exponent).toNat 4)
  return if number.negative then -scaled else scaled

end Hazard.Json.Number
