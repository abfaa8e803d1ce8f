/-!
# Digits in text

What all written decimals share: runs of digits, and an exponent after them.
-/

namespace Hazard.Digits

def isDigit (c : Char) : Bool := decide ('0' ≤ c) && decide (c ≤ '9')

def digitValue (c : Char) : Nat := c.toNat - '0'.toNat

def leading (input : List Char) : List Nat × List Char :=
  ((input.takeWhile isDigit).map digitValue, input.dropWhile isDigit)

def leadingSome (input : List Char) : Option (List Nat × List Char) :=
  match leading input with
  | ([], _) => none
  | found => some found

def exponentPart (input : List Char) : Option (Option (Bool × List Nat) × List Char) :=
  match input with
  | mark :: rest =>
    if mark == 'e' || mark == 'E' then
      let (negative, rest) :=
        match rest with
        | '+' :: rest => (false, rest)
        | '-' :: rest => (true, rest)
        | _ => (false, rest)
      (leadingSome rest).map fun (found, rest) => (some (negative, found), rest)
    else some (none, input)
  | [] => some (none, input)

def value (digits : List Nat) : Nat := digits.foldl (fun value digit => value * 10 + digit) 0

def exponentValue : Option (Bool × List Nat) → Int
  | some (true, digits) => -(value digits : Int)
  | some (false, digits) => value digits
  | none => 0

end Hazard.Digits
