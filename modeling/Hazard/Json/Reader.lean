import Hazard.Decimal.Digits
import Hazard.Json.Value
/-!
# Reading JSON

A strict reader: one value, blanks around it, and nothing else.
-/

namespace Hazard.Json

open Digits

/-! ## Blanks and numbers -/

def isBlank (c : Char) : Bool := c == ' ' || c == '\n' || c == '\t' || c == '\r'

def skipBlanks (input : List Char) : List Char := input.dropWhile isBlank

def wholePart (input : List Char) : Option (List Nat × List Char) :=
  match leading input with
  | ([], _) => none
  | (0 :: _ :: _, _) => none
  | found => some found

def fractionPart (input : List Char) : Option (Option (List Nat) × List Char) :=
  match input with
  | '.' :: rest => (leadingSome rest).map fun (found, rest) => (some found, rest)
  | _ => some (none, input)

def number (input : List Char) : Option (Number × List Char) := do
  let (negative, rest) :=
    match input with
    | '-' :: rest => (true, rest)
    | _ => (false, input)
  let (whole, rest) ← wholePart rest
  let (fraction, rest) ← fractionPart rest
  let (exponent, rest) ← exponentPart rest
  return (⟨negative, whole, fraction, exponent⟩, rest)

/-! ## Strings -/

/-- A piece of a string literal: a character, or a 16-bit unit written as an escape. -/
inductive Piece where
  | char (c : Char)
  | unit (value : Nat)
  deriving DecidableEq, Repr

def hexValue (c : Char) : Option Nat :=
  if isDigit c then some (digitValue c)
  else if decide ('a' ≤ c) && decide (c ≤ 'f') then some (c.toNat - 'a'.toNat + 10)
  else if decide ('A' ≤ c) && decide (c ≤ 'F') then some (c.toNat - 'A'.toNat + 10)
  else none

def hexUnit (a b c d : Char) : Option Nat := do
  return (((← hexValue a) * 16 + (← hexValue b)) * 16 + (← hexValue c)) * 16 + (← hexValue d)

def shortEscape : Char → Option Char
  | '"' => some '"'
  | '\\' => some '\\'
  | '/' => some '/'
  | 'b' => some '\x08'
  | 'f' => some '\x0c'
  | 'n' => some '\n'
  | 'r' => some '\r'
  | 't' => some '\t'
  | _ => none

def pieces : List Char → Option (List Piece × List Char)
  | [] => none
  | '"' :: rest => some ([], rest)
  | '\\' :: 'u' :: a :: b :: c :: d :: rest => do
    let value ← hexUnit a b c d
    let (others, rest) ← pieces rest
    return (.unit value :: others, rest)
  | '\\' :: letter :: rest => do
    let c ← shortEscape letter
    let (others, rest) ← pieces rest
    return (.char c :: others, rest)
  | c :: rest =>
    if c.toNat < 0x20 || c == '\\' then none
    else do
      let (others, rest) ← pieces rest
      return (.char c :: others, rest)

def isHighHalf (value : Nat) : Bool := 0xd800 ≤ value && value < 0xdc00

def isLowHalf (value : Nat) : Bool := 0xdc00 ≤ value && value < 0xe000

/-- The characters that pieces stand for, unless half of a surrogate pair stands alone. -/
def textOf : List Piece → Option (List Char)
  | [] => some []
  | .char c :: rest => (textOf rest).map (c :: ·)
  | .unit high :: .unit low :: rest =>
    if isHighHalf high then
      if isLowHalf low then
        (textOf rest).map (Char.ofNat (0x10000 + (high - 0xd800) * 0x400 + (low - 0xdc00)) :: ·)
      else none
    else if isLowHalf high then none
    else (textOf (.unit low :: rest)).map (Char.ofNat high :: ·)
  | .unit value :: rest =>
    if isHighHalf value || isLowHalf value then none
    else (textOf rest).map (Char.ofNat value :: ·)

def string (input : List Char) : Option (Text × List Char) :=
  (pieces input).map fun (found, rest) => ((textOf found).map String.ofList, rest)

/-! ## Values -/

def word (spelling : String) (meaning : Value) (input : List Char) : Option (Value × List Char) :=
  if spelling.toList.isPrefixOf input then some (meaning, input.drop spelling.length) else none

def memberName (input : List Char) : Option (Text × List Char) :=
  match skipBlanks input with
  | '"' :: rest => do
    let (name, rest) ← string rest
    match skipBlanks rest with
    | ':' :: rest => return (name, rest)
    | _ => none
  | _ => none

mutual

/-- One value, blanks in front of it skipped, with parts nested `fuel` deep at most. -/
def value (fuel : Nat) (input : List Char) : Option (Value × List Char) :=
  match fuel with
  | 0 => none
  | fuel + 1 =>
    match skipBlanks input with
    | 'n' :: rest => word "ull" .null rest
    | 't' :: rest => word "rue" (.bool true) rest
    | 'f' :: rest => word "alse" (.bool false) rest
    | '"' :: rest => (string rest).map fun (text, rest) => (.string text, rest)
    | '[' :: rest =>
      match skipBlanks rest with
      | ']' :: rest => some (.array [], rest)
      | _ => (items fuel rest).map fun (found, rest) => (.array found, rest)
    | '\x7b' :: rest =>
      match skipBlanks rest with
      | '\x7d' :: rest => some (.object [], rest)
      | _ => (members fuel rest).map fun (found, rest) => (.object found, rest)
    | other => (number other).map fun (found, rest) => (.number found, rest)

/-- The items of an array up to the closing bracket; at least one. -/
def items (fuel : Nat) (input : List Char) : Option (List Value × List Char) :=
  match fuel with
  | 0 => none
  | fuel + 1 => do
    let (first, rest) ← value fuel input
    match skipBlanks rest with
    | ',' :: rest => (items fuel rest).map fun (others, rest) => (first :: others, rest)
    | ']' :: rest => return ([first], rest)
    | _ => none

/-- The members of an object up to the closing brace; at least one. -/
def members (fuel : Nat) (input : List Char) : Option (List (Text × Value) × List Char) :=
  match fuel with
  | 0 => none
  | fuel + 1 => do
    let (name, rest) ← memberName input
    let (first, rest) ← value fuel rest
    match skipBlanks rest with
    | ',' :: rest => (members fuel rest).map fun (others, rest) => ((name, first) :: others, rest)
    | '\x7d' :: rest => return ([(name, first)], rest)
    | _ => none

end

/-- Reads a document. Every call consumes a character or two, so its length bounds their number. -/
def Value.ofChars? (input : List Char) : Option Value :=
  match value (2 * input.length + 2) input with
  | some (found, rest) => if (skipBlanks rest).isEmpty then some found else none
  | none => none

def Value.parse? (input : String) : Option Value := Value.ofChars? input.toList

end Hazard.Json
