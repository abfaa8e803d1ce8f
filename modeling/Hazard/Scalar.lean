/-!
# Scalars

Probabilities are computed in any number type with the operations below. Doubles run the checkers;
exact rationals give the same definitions their mathematical reading.
-/

namespace Hazard

class Scalar (α : Type) extends
    Zero α, One α, Add α, Sub α, Mul α, Div α, LT α, OfScientific α where
  decLt : (x y : α) → Decidable (x < y)
  /-- A sum starts here, so that a sum of one term is that term, sign of zero included. -/
  neutral : α
  magnitude : α → α
  isNan : α → Bool
  /-- The least of no values. -/
  emptyLeast : α
  /-- The greatest of no values. -/
  emptyGreatest : α

instance Scalar.decidableLt {α : Type} [Scalar α] (x y : α) : Decidable (x < y) :=
  Scalar.decLt x y

instance : Scalar Float where
  zero := 0.0
  one := 1.0
  decLt := fun x y => inferInstanceAs (Decidable (x < y))
  neutral := -0.0
  magnitude := Float.abs
  isNan := Float.isNaN
  emptyLeast := 1.0 / 0.0
  emptyGreatest := -1.0 / 0.0

instance : Scalar Rat where
  zero := 0
  one := 1
  decLt := fun x y => inferInstanceAs (Decidable (x < y))
  neutral := 0
  magnitude := fun x => if x < 0 then -x else x
  isNan := fun _ => false
  emptyLeast := 0
  emptyGreatest := 0

namespace Scalar

variable {α : Type} [Scalar α]

def sum (terms : List α) : α := terms.foldl (· + ·) neutral

/-- The lesser of two values; of a value and a non-number, the value. -/
def least (x y : α) : α := if isNan x then y else if y < x then y else x

/-- The greater of two values; of a value and a non-number, the value. -/
def greatest (x y : α) : α := if isNan x then y else if x < y then y else x

/-- Folds a choice over the values that are numbers; `none` when there are none. -/
def select (choose : α → α → α) (values : List α) : Option α :=
  values.foldl (fun best value =>
    if isNan value then best else some ((best.map (choose · value)).getD value)) none

def leastOf (values : List α) : α := (select least values).getD emptyLeast

def greatestOf (values : List α) : α := (select greatest values).getD emptyGreatest

end Scalar

end Hazard
