import Hazard.Decimal.Shortest
/-!
# Numbers as text

Doubles are written with the fewest digits that stand for them. Styles differ in where positional
notation ends, in what an integral value looks like and in which way ties go.
-/

namespace Hazard

structure NumberStyle where
  tie : TieRule
  /-- The exponents of the leading digit that are written positionally; all of them for `none`. -/
  positional : Option (Int × Int)
  /-- What follows the digits of an integral value in positional notation. -/
  integralTail : String

namespace NumberStyle

/-- Inside messages numbers are positional, and an integral value has no point. -/
def message : NumberStyle := ⟨.up, none, ""⟩

/-- In files an integral value ends in `.0`, and very large or small values have an exponent with
its sign. -/
def file : NumberStyle := ⟨.toEven, some (-5, 15), ".0"⟩

private def zeros (count : Nat) : String := String.ofList (List.replicate count '0')

private def positionalText (style : NumberStyle) (decimal : Decimal) : String :=
  let digits := toString decimal.digits
  let point := (digits.length : Int) + decimal.exponent
  if 0 ≤ decimal.exponent then digits ++ zeros decimal.exponent.toNat ++ style.integralTail
  else if 0 < point then
    let chars := digits.toList
    String.ofList (chars.take point.toNat) ++ "." ++ String.ofList (chars.drop point.toNat)
  else "0." ++ zeros (-point).toNat ++ digits

private def scientificText (decimal : Decimal) : String :=
  let digits := (toString decimal.digits).toList
  let exponent := decimal.exponent + (digits.length - 1 : Nat)
  let rest := digits.drop 1
  let tail := if rest.isEmpty then "" else "." ++ String.ofList rest
  let sign := if exponent < 0 then "-" else "+"
  String.ofList (digits.take 1) ++ tail ++ "e" ++ sign ++ toString exponent.natAbs

def decimalText (style : NumberStyle) (decimal : Decimal) : String :=
  let leading := decimal.exponent + ((toString decimal.digits).length - 1 : Nat)
  match style.positional with
  | none => style.positionalText decimal
  | some (low, high) =>
    if low ≤ leading ∧ leading ≤ high then style.positionalText decimal
    else scientificText decimal

def text (style : NumberStyle) (value : Float) : String :=
  let bits := value.toBits
  let sign := if bits >>> 63 = 1 then "-" else ""
  if value.isNaN then "NaN"
  else if value.isInf then sign ++ "inf"
  else
    let binary := Binary.ofBits bits
    if binary.mantissa = 0 then sign ++ "0" ++ style.integralTail
    else sign ++ style.decimalText (.shortest style.tie binary)

end NumberStyle

end Hazard
