import Hazard.Decimal.Text
import Hazard.Json.Value
/-!
# Writing JSON

Documents are written from a tree that holds only what files contain. The compact form has no
blanks; the indented form puts every item on a line of its own.
-/

namespace Hazard.Json

inductive Doc where
  | null
  | natural (value : Nat)
  | double (value : Float)
  | text (value : String)
  | list (items : List Doc)
  | record (members : List (String × Doc))

def hexDigit (value : Nat) : Char := Nat.digitChar value

/-- A character inside a string literal: quotes, backslashes and control characters are escaped. -/
def escapeChar (c : Char) : List Char :=
  if c == '"' then ['\\', '"']
  else if c == '\\' then ['\\', '\\']
  else if c == '\x08' then ['\\', 'b']
  else if c == '\x0c' then ['\\', 'f']
  else if c == '\n' then ['\\', 'n']
  else if c == '\r' then ['\\', 'r']
  else if c == '\t' then ['\\', 't']
  else if c.toNat < 0x20 then
    ['\\', 'u', '0', '0', hexDigit (c.toNat / 16), hexDigit (c.toNat % 16)]
  else [c]

def quote (text : String) : List Char := '"' :: text.toList.flatMap escapeChar ++ ['"']

/-- Numbers outside the doubles' finite range have no JSON form and are written as null. -/
def doubleText (value : Float) : List Char :=
  (if value.isFinite then NumberStyle.file.text value else "null").toList

namespace Doc

def separate (comma : List Char) : List (List Char) → List Char
  | [] => []
  | [part] => part
  | part :: rest => part ++ comma ++ separate comma rest

mutual

def compactChars : Doc → List Char
  | .null => "null".toList
  | .natural value => (toString value).toList
  | .double value => doubleText value
  | .text value => quote value
  | .list items => '[' :: separate [','] (compactItems items) ++ [']']
  | .record members => '\x7b' :: separate [','] (compactMembers members) ++ ['\x7d']

def compactItems : List Doc → List (List Char)
  | [] => []
  | item :: rest => item.compactChars :: compactItems rest

def compactMembers : List (String × Doc) → List (List Char)
  | [] => []
  | (name, item) :: rest => (quote name ++ ':' :: item.compactChars) :: compactMembers rest

end

def compact (doc : Doc) : String := String.ofList doc.compactChars

def newline (depth : Nat) : List Char := '\n' :: List.replicate (2 * depth) ' '

/-- Parts between brackets, each on a line of its own one level deeper. -/
def bracketed (depth : Nat) (opening closing : Char) : List (List Char) → List Char
  | [] => [opening, closing]
  | parts =>
    opening :: newline (depth + 1) ++ separate (',' :: newline (depth + 1)) parts
      ++ newline depth ++ [closing]

mutual

def indentedChars (depth : Nat) : Doc → List Char
  | .list items => bracketed depth '[' ']' (indentedItems (depth + 1) items)
  | .record members => bracketed depth '\x7b' '\x7d' (indentedMembers (depth + 1) members)
  | .null => "null".toList
  | .natural value => (toString value).toList
  | .double value => doubleText value
  | .text value => quote value

def indentedItems (depth : Nat) : List Doc → List (List Char)
  | [] => []
  | item :: rest => item.indentedChars depth :: indentedItems depth rest

def indentedMembers (depth : Nat) : List (String × Doc) → List (List Char)
  | [] => []
  | (name, item) :: rest =>
    (quote name ++ ':' :: ' ' :: item.indentedChars depth) :: indentedMembers depth rest

end

def indented (doc : Doc) : String := String.ofList (doc.indentedChars 0)

end Doc

end Hazard.Json
