/-!
# Shortest decimals

The decimal with the fewest digits that stands for a given double: among the reals that round to
the double, one on the coarsest decimal grid that has any, and of several the closest.
-/

namespace Hazard

/-- The number `digits * 10 ^ exponent`. -/
structure Decimal where
  digits : Nat
  exponent : Int
  deriving DecidableEq, Repr

inductive TieRule where
  | up
  | toEven
  deriving DecidableEq, Repr

/-- A finite double without its sign: `mantissa * 2 ^ exponent`. -/
structure Binary where
  mantissa : Nat
  exponent : Int
  /-- The double below is half as far away as the one above. -/
  closeBelow : Bool
  deriving DecidableEq, Repr

namespace Binary

def ofBits (bits : UInt64) : Binary :=
  let exponent := ((bits >>> 52) &&& 0x7ff).toNat
  let fraction := (bits &&& 0xfffffffffffff).toNat
  if exponent = 0 then ⟨fraction, -1074, false⟩
  else ⟨0x10000000000000 + fraction, (exponent : Int) - 1075, fraction = 0 && 1 < exponent⟩

/-- Compares `left * 10 ^ i` with `right * 2 ^ j`. -/
def compareScaled (left : Nat) (i : Int) (right : Nat) (j : Int) : Ordering :=
  compare (left * Nat.pow 10 i.toNat * Nat.pow 2 (-j).toNat)
    (right * Nat.pow 2 j.toNat * Nat.pow 10 (-i).toNat)

/-- Does the decimal round to the double? The ends of the interval do iff the mantissa is even. -/
def admits (value : Binary) (decimal : Decimal) : Bool :=
  let low := 4 * value.mantissa - (if value.closeBelow then 1 else 2)
  let high := 4 * value.mantissa + 2
  let atLow := compareScaled decimal.digits decimal.exponent low (value.exponent - 2)
  let atHigh := compareScaled decimal.digits decimal.exponent high (value.exponent - 2)
  if value.mantissa % 2 = 0 then atLow != .lt && atHigh != .gt else atLow = .gt && atHigh = .lt

/-- The greatest multiple of `10 ^ grid` that is not above the double, counted in grid units. -/
def floorOn (value : Binary) (grid : Int) : Nat :=
  value.mantissa * Nat.pow 2 value.exponent.toNat * Nat.pow 10 (-grid).toNat /
    (Nat.pow 2 (-value.exponent).toNat * Nat.pow 10 grid.toNat)

/-- Is the double nearer to `units + 1` than to `units`, in grid units? -/
def nearerAbove (value : Binary) (grid : Int) (units : Nat) (tie : TieRule) : Bool :=
  match compareScaled (2 * units + 1) grid (2 * value.mantissa) value.exponent with
  | .lt => true
  | .gt => false
  | .eq => tie = .up || units % 2 = 1

/-- The decimal taken from one grid, if one of the double's two neighbours there stands for it. -/
def onGrid (value : Binary) (tie : TieRule) (grid : Int) : Option Decimal :=
  let units := value.floorOn grid
  let below : Decimal := ⟨units, grid⟩
  let above : Decimal := ⟨units + 1, grid⟩
  match value.admits below, value.admits above with
  | true, true => some (if value.nearerAbove grid units tie then above else below)
  | true, false => some below
  | false, true => some above
  | false, false => none

/-- The exponent of the leading digit of a positive double: the binary exponent tells it up to one,
and exact comparisons settle it. -/
def leadingExponent (value : Binary) : Int :=
  let estimate := (Nat.log2 value.mantissa + value.exponent) * 30103 / 100000
  [estimate + 1, estimate].find?
    (fun exponent => compareScaled 1 exponent value.mantissa value.exponent != .gt)
    |>.getD (estimate - 1)

end Binary

namespace Decimal

def trim (decimal : Decimal) : Decimal :=
  let zeros := ((Nat.toDigits 10 decimal.digits).reverse.takeWhile (· = '0')).length
  ⟨decimal.digits / Nat.pow 10 zeros, decimal.exponent + zeros⟩

def shortest (tie : TieRule) (value : Binary) : Decimal :=
  let leading := value.leadingExponent
  let grids := (List.range 18).map fun (step : Nat) => leading - step
  match grids.findSome? (value.onGrid tie) with
  | some decimal => decimal.trim
  | none => ⟨value.floorOn (leading - 17), leading - 17⟩

end Decimal

end Hazard
