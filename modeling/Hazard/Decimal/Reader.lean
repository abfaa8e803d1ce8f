import Hazard.Decimal.Digits
import Hazard.Decimal.Shortest
/-!
# Reading decimals

A written decimal stands for the double that is nearest to it, and of two nearest ones for the one
with the even mantissa. Infinity and the value that is no number are written as words.
-/

namespace Hazard.Decimal

/-- Reads a decimal without sign: digits, perhaps with a point before, among or after them, and
perhaps an exponent. -/
def read? (input : List Char) : Option Decimal := do
  let (whole, rest) := Digits.leading input
  let (fraction, rest) :=
    match rest with
    | '.' :: rest => Digits.leading rest
    | _ => ([], rest)
  let (exponent, rest) ← Digits.exponentPart rest
  if (whole ++ fraction).isEmpty || !rest.isEmpty then none
  else some ⟨Digits.value (whole ++ fraction), Digits.exponentValue exponent - fraction.length⟩

/-- The nearest double. Beyond 400 digits before or after the point it is infinity or zero. -/
def toDouble (decimal : Decimal) : Float :=
  let leading := decimal.exponent + (toString decimal.digits).length
  if decimal.digits = 0 || leading < -400 then 0.0
  else if 400 < leading then 1.0 / 0.0
  else Float.ofScientific decimal.digits (decimal.exponent < 0) decimal.exponent.natAbs

/-- The double that a text without sign stands for. Words are read in either case. -/
def unsignedDouble? (input : List Char) : Option Float :=
  let word := String.ofList (input.map Char.toLower)
  if word = "inf" || word = "infinity" then some (1.0 / 0.0)
  else if word = "nan" then some (0.0 / 0.0)
  else (read? input).map toDouble

def double? (text : String) : Option Float :=
  match text.toList with
  | '-' :: rest => (unsignedDouble? rest).map (- ·)
  | '+' :: rest => unsignedDouble? rest
  | rest => unsignedDouble? rest

end Hazard.Decimal
