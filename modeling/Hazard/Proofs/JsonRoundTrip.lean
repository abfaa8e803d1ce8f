import Hazard.Json.Decode
import Hazard.Json.Reader
import Hazard.Json.Writer
import Mathlib.Data.List.Forall2
/-!
# Written documents are read back

What the writer makes of a document can be read again, whatever stands behind it in a larger
document. Numbers and texts are read back as they are; lists and records are read part by part.
-/

namespace Hazard.Json

open Digits

variable {fuel depth n : Nat} {c : Char} {rest input : List Char}

/-! ## Naturals -/

inductive Ends : List Char → Prop
  | done : Ends []
  | comma (rest : List Char) : Ends (',' :: rest)
  | line (rest : List Char) : Ends ('\n' :: rest)

def written (n : Nat) : Number := ⟨false, (Nat.toDigits 10 n).map digitValue, none, none⟩

theorem isDigit_of_mem_toDigits (h : c ∈ Nat.toDigits 10 n) : isDigit c = true :=
  Nat.isDigit_of_mem_toDigits (by decide) (by decide) h

theorem leading_append {digits : List Char} (hdigits : ∀ c ∈ digits, isDigit c = true)
    (hends : Ends rest) : leading (digits ++ rest) = (digits.map digitValue, rest) := by
  have htake : rest.takeWhile isDigit = [] := by cases hends <;> rfl
  have hdrop : rest.dropWhile isDigit = rest := by cases hends <;> rfl
  rw [leading, List.takeWhile_append_of_pos hdigits, List.dropWhile_append_of_pos hdigits, htake,
    hdrop, List.append_nil]

/-- Only zero is written with a zero in front. -/
theorem eq_zero_of_head?_toDigits (h : (Nat.toDigits 10 n).head? = some '0') : n = 0 := by
  induction n using Nat.strongRecOn with
  | ind n ih =>
      rw [Nat.toDigits_eq_if (by decide)] at h
      split at h
      · exact Nat.digitChar_eq_zero.1 (Option.some.inj h)
      · next hlarge =>
        rw [List.head?_append_of_ne_nil _ Nat.toDigits_ne_nil] at h
        have := ih (n / 10) (by omega) h
        omega

theorem digitValue_ne_zero (hdigit : isDigit c = true) (hc : c ≠ '0') : digitValue c ≠ 0 := by
  intro hzero
  have hfrom : '0' ≤ c := by
    simp only [isDigit, Bool.and_eq_true, decide_eq_true_eq] at hdigit
    exact hdigit.1
  apply hc
  apply Char.ext
  apply UInt32.toNat_inj.1
  have := UInt32.le_iff_toNat_le.1 hfrom
  simp only [digitValue, Char.toNat] at hzero
  omega

theorem wholePart_toDigits (n : Nat) (hends : Ends rest) :
    wholePart (Nat.toDigits 10 n ++ rest) = some ((written n).whole, rest) := by
  rw [wholePart, leading_append (fun c => isDigit_of_mem_toDigits) hends]
  by_cases hzero : n = 0
  · subst hzero
    rfl
  · cases hdigits : Nat.toDigits 10 n with
    | nil => exact absurd hdigits Nat.toDigits_ne_nil
    | cons first others =>
        have hfirst : first ≠ '0' := by
          rintro rfl
          exact hzero (eq_zero_of_head?_toDigits (by rw [hdigits]; rfl))
        have hdigit : isDigit first = true := isDigit_of_mem_toDigits (n := n) (by simp [hdigits])
        have hvalue := digitValue_ne_zero hdigit hfirst
        rw [written, hdigits, List.map_cons]
        generalize digitValue first = leader at hvalue
        cases leader with
        | zero => exact absurd rfl hvalue
        | succ leader => rfl

theorem number_toDigits (n : Nat) (hends : Ends rest) :
    number (Nat.toDigits 10 n ++ rest) = some (written n, rest) := by
  have hsign : ∀ tail, Nat.toDigits 10 n ++ rest ≠ '-' :: tail := by
    intro tail heq
    cases hdigits : Nat.toDigits 10 n with
    | nil => exact absurd hdigits Nat.toDigits_ne_nil
    | cons first others =>
        rw [hdigits] at heq
        have hdigit : isDigit first = true := isDigit_of_mem_toDigits (n := n) (by simp [hdigits])
        cases heq
        exact absurd hdigit (by decide)
  have hfraction : fractionPart rest = some (none, rest) := by cases hends <;> rfl
  have hexponent : exponentPart rest = some (none, rest) := by cases hends <;> rfl
  unfold number
  split
  next negative tail heq =>
  split at heq
  · next others hminus => exact absurd hminus (hsign others)
  · cases heq
    simp [wholePart_toDigits n hends, hfraction, hexponent, written]

theorem natural?_written (n : Nat) : (written n).natural? = some n := by
  have hvalue : Digits.value ((Nat.toDigits 10 n).map digitValue) = n := by
    calc Digits.value ((Nat.toDigits 10 n).map digitValue)
      _ = Nat.ofDigitChars 10 (Nat.toDigits 10 n) 0 := by
        rw [Digits.value, List.foldl_map, Nat.ofDigitChars_eq_foldl]
        simp only [Nat.mul_comm, digitValue]
      _ = n := Nat.ofDigitChars_ten_toDigits
  simp [written, Number.natural?, hvalue]

/-! ## Texts -/

/-- The reader finds a piece in front of the rest, and the piece stands for a character. -/
structure Spells (chars : List Char) (piece : Piece) (c : Char) : Prop where
  pieces_append : ∀ rest, pieces (chars ++ rest) =
    (pieces rest).bind fun found => some (piece :: found.1, found.2)
  textOf_cons : ∀ others, textOf (piece :: others) = (textOf others).map (c :: ·)

theorem spells_short {letter : Char} (hletter : shortEscape letter = some c) :
    Spells ['\\', letter] (.char c) c where
  pieces_append rest := by
    have hshort : letter ≠ 'u' := by
      rintro rfl
      cases hletter
    simp [pieces, hshort, hletter]
  textOf_cons _ := rfl

theorem spells_self (hquote : c ≠ '"') (hslash : c ≠ '\\') (hprints : ¬ c.toNat < 0x20) :
    Spells [c] (.char c) c where
  pieces_append rest := by simp [pieces, hslash, hprints]
  textOf_cons _ := rfl

theorem textOf_unit {code : Nat} (hcode : code < 0xd800) (others : List Piece) :
    textOf (.unit code :: others) = (textOf others).map (Char.ofNat code :: ·) := by
  have hhigh : isHighHalf code = false := by simp [isHighHalf, Nat.not_le_of_lt hcode]
  have hlow : isLowHalf code = false := by
    have : ¬ 0xdc00 ≤ code := by omega
    simp [isLowHalf, this]
  cases others with
  | nil => simp [textOf, hhigh, hlow]
  | cons next rest =>
      cases next with
      | char c => simp [textOf, hhigh, hlow]
      | unit low => simp [textOf, hhigh, hlow]

theorem spells_unit (hcontrol : c.toNat < 0x20) :
    Spells ['\\', 'u', '0', '0', hexDigit (c.toNat / 16), hexDigit (c.toNat % 16)]
      (.unit c.toNat) c where
  pieces_append rest := by
    have hunit : ∀ code < 0x20,
        hexUnit '0' '0' (hexDigit (code / 16)) (hexDigit (code % 16)) = some code := by
      decide
    simp [pieces, hunit _ hcontrol]
  textOf_cons others := by
    rw [textOf_unit (by omega), Char.ofNat_toNat]

theorem exists_spells (c : Char) : ∃ piece, Spells (escapeChar c) piece c := by
  by_cases hshort : c ∈ ['"', '\\', '\x08', '\x0c', '\n', '\r', '\t']
  · have hletter : ∃ letter, escapeChar c = ['\\', letter] ∧ shortEscape letter = some c := by
      simp only [List.mem_cons, List.not_mem_nil, or_false] at hshort
      rcases hshort with rfl | rfl | rfl | rfl | rfl | rfl | rfl <;> exact ⟨_, rfl, rfl⟩
    obtain ⟨letter, hescape, hletter⟩ := hletter
    exact ⟨_, hescape ▸ spells_short hletter⟩
  · have hlong : escapeChar c = if c.toNat < 0x20 then
        ['\\', 'u', '0', '0', hexDigit (c.toNat / 16), hexDigit (c.toNat % 16)] else [c] := by
      simp only [List.mem_cons, List.not_mem_nil, or_false, not_or] at hshort
      simp [escapeChar, hshort]
    rw [hlong]
    split
    · next hcontrol => exact ⟨_, spells_unit hcontrol⟩
    · next hprints =>
      have hquote : c ≠ '"' := fun heq => hshort (by simp [heq])
      have hslash : c ≠ '\\' := fun heq => hshort (by simp [heq])
      exact ⟨_, spells_self hquote hslash hprints⟩

theorem exists_pieces (chars rest : List Char) :
    ∃ found, pieces (chars.flatMap escapeChar ++ '"' :: rest) = some (found, rest) ∧
      textOf found = some chars := by
  induction chars with
  | nil => exact ⟨[], by simp [pieces], rfl⟩
  | cons c chars ih =>
      obtain ⟨found, hfound, htext⟩ := ih
      obtain ⟨piece, hspells⟩ := exists_spells c
      refine ⟨piece :: found, ?_, ?_⟩
      · rw [List.flatMap_cons, List.append_assoc, hspells.pieces_append, hfound]
        rfl
      · rw [hspells.textOf_cons, htext]
        rfl

theorem string_escaped (text : String) (rest : List Char) :
    string (text.toList.flatMap escapeChar ++ '"' :: rest) = some (some text, rest) := by
  obtain ⟨found, hfound, htext⟩ := exists_pieces text.toList rest
  simp [string, hfound, htext]

/-! ## Values -/

open Doc (newline separate bracketed)

theorem skipBlanks_newline (depth : Nat) (input : List Char) :
    skipBlanks (newline depth ++ input) = skipBlanks input := by
  apply List.dropWhile_append_of_pos
  intro c hc
  rcases List.mem_cons.1 hc with rfl | hspace
  · rfl
  · rw [List.eq_of_mem_replicate hspace]
    rfl

theorem skipBlanks_cons (hc : isBlank c = false) (rest : List Char) :
    skipBlanks (c :: rest) = c :: rest :=
  List.dropWhile_cons_of_neg (by simp [hc])

theorem value_congr {left right : List Char} (h : skipBlanks left = skipBlanks right) :
    value fuel left = value fuel right := by
  cases fuel with
  | zero => rfl
  | succ fuel => rw [value, value, h]

/-- A reader takes a text for what it stands for, whatever the document goes on with. The text
cannot be mistaken for the closing character of a list of such texts. -/
structure Reads {γ : Type} (one : Nat → List Char → Option (γ × List Char)) (closing : Char)
    (chars : List Char) (found : γ) : Prop where
  starts : ∃ first others, chars = first :: others ∧ isBlank first = false ∧ first ≠ closing
  takes : ∀ fuel rest, chars.length ≤ fuel → Ends rest →
    one fuel (chars ++ rest) = some (found, rest)

theorem isBlank_of_isDigit (hdigit : isDigit c = true) : isBlank c = false := by
  apply Bool.eq_false_iff.2
  intro hblank
  simp only [isBlank, Bool.or_eq_true, beq_iff_eq] at hblank
  rcases hblank with ((rfl | rfl) | rfl) | rfl <;> exact absurd hdigit (by decide)

theorem value_of_isDigit (hdigit : isDigit c = true) :
    value (fuel + 1) (c :: rest) =
      (number (c :: rest)).map fun found => (.number found.1, found.2) := by
  rw [value, skipBlanks_cons (isBlank_of_isDigit hdigit)]
  split
  case h_7 => rfl
  all_goals
    next heq =>
      cases heq
      exact absurd hdigit (by decide)

theorem reads_toDigits (n : Nat) :
    Reads value ']' (Nat.toDigits 10 n) (.number (written n)) := by
  cases hdigits : Nat.toDigits 10 n with
  | nil => exact absurd hdigits Nat.toDigits_ne_nil
  | cons first others =>
      have hfirst : isDigit first = true := isDigit_of_mem_toDigits (n := n) (by simp [hdigits])
      refine ⟨⟨first, others, rfl, isBlank_of_isDigit hfirst, ?_⟩, ?_⟩
      · rintro rfl
        exact absurd hfirst (by decide)
      · intro fuel rest hfuel hends
        obtain ⟨fuel, rfl⟩ := Nat.exists_eq_succ_of_ne_zero (Nat.ne_zero_of_lt hfuel)
        rw [List.cons_append, value_of_isDigit hfirst, ← List.cons_append, ← hdigits,
          number_toDigits n hends]
        rfl

theorem quote_append (text : String) (rest : List Char) :
    quote text ++ rest = '"' :: (text.toList.flatMap escapeChar ++ '"' :: rest) := by
  simp [quote]

theorem reads_quote (text : String) : Reads value ']' (quote text) (.string (some text)) := by
  refine ⟨⟨_, _, rfl, rfl, by decide⟩, ?_⟩
  intro fuel rest hfuel _
  obtain ⟨fuel, rfl⟩ := Nat.exists_eq_succ_of_ne_zero (Nat.ne_zero_of_lt hfuel)
  rw [quote_append, value, skipBlanks_cons (by rfl)]
  simp [string_escaped]

/-! ## Lists and records -/

theorem ends_newline (depth : Nat) (rest : List Char) : Ends (newline depth ++ rest) := .line _

theorem skipBlanks_closing (hc : isBlank c = false) :
    skipBlanks (newline depth ++ c :: rest) = c :: rest := by
  rw [skipBlanks_newline, skipBlanks_cons hc]

theorem separate_cons_cons (comma part next : List Char) (parts : List (List Char)) :
    separate comma (part :: next :: parts) = part ++ comma ++ separate comma (next :: parts) :=
  rfl

theorem bracketed_append (opening closing : Char) (part : List Char) (parts : List (List Char)) :
    bracketed depth opening closing (part :: parts) ++ rest =
      opening :: (newline (depth + 1) ++ (separate (',' :: newline (depth + 1)) (part :: parts) ++
        (newline depth ++ closing :: rest))) := by
  simp [bracketed]

theorem length_bracketed (opening closing : Char) (part : List Char) (parts : List (List Char)) :
    (separate (',' :: newline (depth + 1)) (part :: parts)).length + 1 <
      (bracketed depth opening closing (part :: parts)).length := by
  simp only [bracketed, List.length_append, List.length_cons, List.length_nil]
  omega

theorem skipBlanks_parts {first : Char} {more comma : List Char} (hfirst : isBlank first = false)
    (parts : List (List Char)) (rest : List Char) :
    ∃ others, skipBlanks (newline depth ++ (separate comma ((first :: more) :: parts) ++ rest)) =
      first :: others := by
  rw [skipBlanks_newline]
  cases parts with
  | nil => exact ⟨_, skipBlanks_cons hfirst _⟩
  | cons next parts => exact ⟨_, skipBlanks_cons hfirst _⟩

/-- A value is read from the parts between two brackets, where `one` reads a part and `many` all of
them up to the closing bracket. -/
structure Between {γ : Type} (opening closing : Char)
    (one : Nat → List Char → Option (γ × List Char))
    (many : Nat → List Char → Option (List γ × List Char)) (whole : List γ → Value) : Prop where
  brackets : isBlank opening = false ∧ opening ≠ ']' ∧ isBlank closing = false
  congr : ∀ {fuel left right}, skipBlanks left = skipBlanks right →
    many fuel left = many fuel right
  last : ∀ {fuel input found tail rest}, one fuel input = some (found, tail) →
    skipBlanks tail = closing :: rest → many (fuel + 1) input = some ([found], rest)
  next : ∀ {fuel input found others tail next rest}, one fuel input = some (found, tail) →
    skipBlanks tail = ',' :: next → many fuel next = some (others, rest) →
    many (fuel + 1) input = some (found :: others, rest)
  empty : ∀ fuel rest, value (fuel + 1) (opening :: closing :: rest) = some (whole [], rest)
  opened : ∀ {fuel input c others found rest}, skipBlanks input = c :: others → c ≠ closing →
    many fuel input = some (found, rest) →
    value (fuel + 1) (opening :: input) = some (whole found, rest)

namespace Between

variable {γ : Type} {opening closing : Char} {one : Nat → List Char → Option (γ × List Char)}
  {many : Nat → List Char → Option (List γ × List Char)} {whole : List γ → Value}
  {part : List Char} {parts : List (List Char)} {found : γ} {others : List γ}
  (h : Between opening closing one many whole)
include h

theorem many_separate (hfirst : Reads one closing part found)
    (hothers : List.Forall₂ (Reads one closing) parts others)
    (hfuel : (separate (',' :: newline (depth + 1)) (part :: parts)).length < fuel) :
    many fuel (separate (',' :: newline (depth + 1)) (part :: parts) ++
      (newline depth ++ closing :: rest)) = some (found :: others, rest) := by
  induction hothers generalizing part found fuel with
  | nil =>
      obtain ⟨fuel, rfl⟩ := Nat.exists_eq_succ_of_ne_zero (Nat.ne_zero_of_lt hfuel)
      have hlength : part.length ≤ fuel := Nat.le_of_lt_succ hfuel
      have hone := hfirst.takes fuel _ hlength (ends_newline depth (closing :: rest))
      exact h.last hone (skipBlanks_closing h.brackets.2.2)
  | @cons next nextFound parts others hnext hrest ih =>
      obtain ⟨fuel, rfl⟩ := Nat.exists_eq_succ_of_ne_zero (Nat.ne_zero_of_lt hfuel)
      rw [separate_cons_cons] at hfuel ⊢
      simp only [List.length_append, List.length_cons] at hfuel
      have hone := hfirst.takes fuel _ (by omega) (.comma (newline (depth + 1) ++
        (separate (',' :: newline (depth + 1)) (next :: parts) ++
          (newline depth ++ closing :: rest))))
      have hmany : many fuel _ = some (nextFound :: others, rest) := ih hnext (by omega)
      rw [h.congr (skipBlanks_newline (depth + 1) _).symm] at hmany
      rw [List.append_assoc, List.append_assoc]
      exact h.next hone (skipBlanks_cons rfl _) hmany

theorem reads {values : List γ} (hparts : List.Forall₂ (Reads one closing) parts values) :
    Reads value ']' (bracketed depth opening closing parts) (whole values) := by
  cases hparts with
  | nil =>
      refine ⟨⟨_, _, rfl, h.brackets.1, h.brackets.2.1⟩, ?_⟩
      intro fuel rest hfuel _
      obtain ⟨fuel, rfl⟩ := Nat.exists_eq_succ_of_ne_zero (Nat.ne_zero_of_lt hfuel)
      exact h.empty fuel rest
  | @cons part found parts others hfirst hothers =>
      refine ⟨⟨_, _, rfl, h.brackets.1, h.brackets.2.1⟩, ?_⟩
      intro fuel rest hfuel _
      have hlength := Nat.lt_of_lt_of_le (length_bracketed opening closing part parts) hfuel
      obtain ⟨fuel, rfl⟩ := Nat.exists_eq_succ_of_ne_zero (Nat.ne_zero_of_lt hfuel)
      have hmany : many fuel _ = some (found :: others, rest) :=
        h.many_separate hfirst hothers (Nat.lt_of_succ_lt_succ hlength)
      rw [h.congr (skipBlanks_newline (depth + 1) _).symm] at hmany
      obtain ⟨first, more, rfl, hblank, hopen⟩ := hfirst.starts
      obtain ⟨shown, hstart⟩ := skipBlanks_parts hblank parts _
      rw [bracketed_append]
      exact h.opened hstart hopen hmany

end Between

theorem between_items : Between '[' ']' value items .array where
  brackets := by decide
  congr {fuel left right} h := by
    cases fuel with
    | zero => rfl
    | succ fuel => rw [items, items, value_congr h]
  last hvalue htail := by simp [items, hvalue, htail]
  next hvalue htail hnext := by simp [items, hvalue, htail, hnext]
  empty _ _ := rfl
  opened hstart hopen hitems := by
    rw [value, skipBlanks_cons (by rfl)]
    simp [hstart, hopen, hitems]

def member (fuel : Nat) (input : List Char) : Option ((Text × Value) × List Char) := do
  let (name, rest) ← memberName input
  let (found, rest) ← value fuel rest
  return ((name, found), rest)

theorem member_eq_some {found : Text × Value} {tail : List Char} :
    member fuel input = some (found, tail) ↔ ∃ middle, memberName input = some (found.1, middle) ∧
      value fuel middle = some (found.2, tail) := by
  simp [member, Option.bind_eq_some_iff, Prod.ext_iff]

theorem between_members : Between '\x7b' '\x7d' member members .object where
  brackets := by decide
  congr {fuel left right} h := by
    cases fuel with
    | zero => rfl
    | succ fuel => rw [members, members, memberName, memberName, h]
  last hmember htail := by
    obtain ⟨middle, hname, hvalue⟩ := member_eq_some.1 hmember
    simp [members, hname, hvalue, htail]
  next hmember htail hnext := by
    obtain ⟨middle, hname, hvalue⟩ := member_eq_some.1 hmember
    simp [members, hname, hvalue, htail, hnext]
  empty _ _ := rfl
  opened hstart hopen hmembers := by
    rw [value, skipBlanks_cons (by rfl)]
    simp [hstart, hopen, hmembers]

theorem memberName_quote (name : String) (rest : List Char) :
    memberName (quote name ++ ':' :: rest) = some (some name, rest) := by
  have hcolon : skipBlanks (':' :: rest) = ':' :: rest := skipBlanks_cons rfl rest
  rw [quote_append, memberName, skipBlanks_cons (by rfl)]
  simp [string_escaped, hcolon]

theorem reads_member {chars : List Char} {found : Value} (name : String)
    (hvalue : Reads value ']' chars found) :
    Reads member '\x7d' (quote name ++ ':' :: ' ' :: chars) (some name, found) := by
  refine ⟨⟨_, _, rfl, rfl, by decide⟩, ?_⟩
  intro fuel rest hfuel hends
  rw [List.length_append, List.length_cons, List.length_cons] at hfuel
  rw [List.append_assoc, List.cons_append, member_eq_some]
  refine ⟨_, memberName_quote name _, ?_⟩
  rw [← hvalue.takes fuel rest (by omega) hends]
  exact value_congr rfl

/-! ## Documents -/

namespace Doc

def ReadsAs (doc : Doc) (found : Value) : Prop :=
  ∀ depth, Reads value ']' (doc.indentedChars depth) found

theorem readsAs_natural (n : Nat) : (natural n).ReadsAs (.number (written n)) := by
  intro depth
  rw [indentedChars, Nat.toString_eq_ofList_toDigits, String.toList_ofList]
  exact reads_toDigits n

theorem readsAs_text (text : String) : (Doc.text text).ReadsAs (.string (some text)) := by
  intro depth
  rw [indentedChars]
  exact reads_quote text

theorem readsAs_list {docs : List Doc} {values : List Value}
    (h : List.Forall₂ ReadsAs docs values) : (list docs).ReadsAs (.array values) := by
  intro depth
  rw [indentedChars]
  apply between_items.reads
  induction h with
  | nil => exact .nil
  | cons hfirst hothers ih => exact .cons (hfirst (depth + 1)) ih

def MemberReadsAs (member : String × Doc) (found : Text × Value) : Prop :=
  found.1 = some member.1 ∧ member.2.ReadsAs found.2

theorem readsAs_record {docs : List (String × Doc)} {found : List (Text × Value)}
    (h : List.Forall₂ MemberReadsAs docs found) : (record docs).ReadsAs (.object found) := by
  intro depth
  rw [indentedChars]
  apply between_members.reads
  induction h with
  | nil => exact .nil
  | @cons entry first entries others hfirst hothers ih =>
      obtain ⟨name, item⟩ := entry
      obtain ⟨text, value⟩ := first
      obtain ⟨rfl, hitem⟩ := hfirst
      exact .cons (reads_member name (hitem (depth + 1))) ih

theorem parse?_indented {doc : Doc} {found : Value} (h : doc.ReadsAs found) :
    Value.parse? doc.indented = some found := by
  have hvalue := (h 0).takes (2 * (doc.indentedChars 0).length + 2) [] (by omega) .done
  rw [List.append_nil] at hvalue
  rw [Value.parse?, indented, String.toList_ofList, Value.ofChars?, hvalue]
  rfl

end Doc

/-! ## Contents -/

theorem natural?_number (n limit : Nat) :
    Value.natural? limit (.number (written n)) = if n ≤ limit then some n else none := by
  simp [Value.natural?, natural?_written]

namespace Doc

variable {β γ : Type}

/-- What a document is read as is decoded to the content it was made from. -/
def Carries (doc : Doc) (decode : Value → Option β) (content : β) : Prop :=
  ∃ found, doc.ReadsAs found ∧ decode found = some content

theorem carries_natural {limit : Nat} (h : n ≤ limit) :
    (natural n).Carries (Value.natural? limit) n :=
  ⟨_, readsAs_natural n, by rw [natural?_number, if_pos h]⟩

theorem carries_text (text : String) : (Doc.text text).Carries Value.text? text :=
  ⟨_, readsAs_text text, rfl⟩

theorem carries_list {docOf : β → Doc} {decode : Value → Option β} {contents : List β}
    (h : ∀ content ∈ contents, (docOf content).Carries decode content) :
    (list (contents.map docOf)).Carries (Value.list? decode) contents := by
  have hitems : ∃ values, List.Forall₂ ReadsAs (contents.map docOf) values ∧
      values.mapM decode = some contents := by
    induction contents with
    | nil => exact ⟨[], .nil, rfl⟩
    | cons content contents ih =>
        obtain ⟨found, hfound, hdecode⟩ := h content (by simp)
        obtain ⟨values, hvalues, hcontents⟩ := ih fun other hother => h other (by simp [hother])
        exact ⟨found :: values, .cons hfound hvalues, by simp [hdecode, hcontents]⟩
  obtain ⟨values, hvalues, hcontents⟩ := hitems
  exact ⟨_, readsAs_list hvalues, hcontents⟩

theorem carries_pair {left right : Doc} {first : Value → Option β} {second : Value → Option γ}
    {leftContent : β} {rightContent : γ} (hleft : left.Carries first leftContent)
    (hright : right.Carries second rightContent) :
    (list [left, right]).Carries (Value.pair? first second) (leftContent, rightContent) := by
  obtain ⟨leftFound, hleft, hfirst⟩ := hleft
  obtain ⟨rightFound, hright, hsecond⟩ := hright
  refine ⟨_, readsAs_list (.cons hleft (.cons hright .nil)), ?_⟩
  simp [Value.pair?, hfirst, hsecond]

end Doc

namespace Fields

def named (members : List (String × Value)) : List (Text × Value) :=
  members.map fun member => (some member.1, member.2)

theorem filter_named {members : List (String × Value)} {name : String} {found : Value}
    (hnodup : (members.map (·.1)).Nodup) (hmem : (name, found) ∈ members) :
    (named members).filter (·.1 = some name) = [(some name, found)] := by
  induction members with
  | nil => exact absurd hmem List.not_mem_nil
  | cons member members ih =>
      rw [List.map_cons, List.nodup_cons] at hnodup
      obtain ⟨hnew, hnodup⟩ := hnodup
      rw [named, List.map_cons]
      rcases List.mem_cons.1 hmem with rfl | hmem
      · rw [List.filter_cons_of_pos (by simp), List.filter_eq_nil_iff.2]
        intro other hother hname
        obtain ⟨entry, hentry, rfl⟩ := List.mem_map.1 hother
        have hsame : entry.1 = name := by simpa using hname
        exact hnew (List.mem_map.2 ⟨entry, hentry, hsame⟩)
      · have hother : member.1 ≠ name := by
          rintro rfl
          exact hnew (List.mem_map.2 ⟨_, hmem, rfl⟩)
        rw [List.filter_cons_of_neg (by simpa using hother)]
        exact ih hnodup hmem

theorem of?_named (members : List (String × Value)) (hnodup : (members.map (·.1)).Nodup) :
    of? (members.map (·.1)) (.object (named members)) =
      some ⟨members.map fun member => some member.2, false⟩ := by
  have hnames : (named members).any (·.1.isNone) = false := by simp [named]
  have hvalues : ∀ entries : List (String × Value), (∀ entry ∈ entries, entry ∈ members) →
      (entries.map (·.1)).mapM (member? (named members)) =
        some (entries.map fun member => some member.2) := by
    intro entries hentries
    induction entries with
    | nil => rfl
    | cons entry entries ih =>
        have hentry : member? (named members) entry.1 = some (some entry.2) := by
          rw [member?, filter_named hnodup (hentries entry (by simp))]
        have hothers := ih fun other hother => hentries other (by simp [hother])
        simp [hentry, hothers]
  simp [of?, hnames, hvalues members fun entry hentry => hentry]

end Fields

end Hazard.Json
