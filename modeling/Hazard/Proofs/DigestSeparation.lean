import Hazard.State.Digest
import Mathlib.Data.FinEnum
import Mathlib.Data.LawfulXor.Basic
import Mathlib.Data.Nat.ModEq
import Mathlib.Data.Nat.Prime.Basic
/-!
# Digests of vectors that differ in one byte

Absorbing a byte and mixing the word can both be undone, so the accumulators that two vectors lead
to stay apart once they are apart. One differing byte sets them apart.
-/

namespace Hazard

namespace Digest

/-! ## Steps that can be undone -/

/-- Multiplying by an odd number can be undone, since it shares no factor with the number of
words. -/
theorem bijective_mul_of_odd (factor : UInt64) (hodd : factor.toNat % 2 = 1) :
    Function.Bijective fun word : UInt64 => word * factor := by
  apply Finite.injective_iff_bijective.1
  intro left right (hproducts : left * factor = right * factor)
  have hcoprime : Nat.Coprime (2 ^ 64) factor.toNat :=
    (Nat.coprime_two_left.2 (Nat.odd_iff.2 hodd)).pow_left 64
  have hmod : left.toNat * factor.toNat ≡ right.toNat * factor.toNat [MOD 2 ^ 64] := by
    rw [Nat.ModEq, ← UInt64.toNat_mul, ← UInt64.toNat_mul, hproducts]
  have hsame := Nat.ModEq.cancel_right_of_coprime hcoprime hmod
  exact UInt64.toNat_inj.1 (hsame.eq_of_lt_of_lt left.toNat_lt right.toNat_lt)

/-- The high bits that are folded in are not changed themselves, since they are shifted by more than
half a word. -/
theorem involutive_foldHigh : Function.Involutive foldHigh := by
  intro word
  have hgone : word >>> 33 >>> 33 = 0 := by
    apply UInt64.toBitVec_inj.1
    apply BitVec.eq_of_getLsbD_eq
    intro bit _
    have hbeyond : word.toBitVec.getLsbD (66 + bit) = false := BitVec.getLsbD_of_ge _ _ (by omega)
    simpa using hbeyond
  rw [foldHigh, foldHigh, UInt64.shiftRight_xor, hgone, xor_zero, xor_cancel_right]

theorem bijective_mix : Function.Bijective mix := by
  have hfold := involutive_foldHigh.bijective
  have hfirst := bijective_mul_of_odd 0xff51afd7ed558ccd (by decide)
  have hsecond := bijective_mul_of_odd 0xc4ceb9fe1a85ec53 (by decide)
  exact hfold.comp (hsecond.comp (hfold.comp (hfirst.comp hfold)))

theorem bijective_absorb (byte : UInt8) :
    Function.Bijective fun accumulator => absorb accumulator byte := by
  have hxor : Function.Involutive fun accumulator : UInt64 => accumulator ^^^ byte.toUInt64 :=
    fun accumulator => xor_cancel_right accumulator byte.toUInt64
  exact (bijective_mul_of_odd multiplier (by decide)).comp hxor.bijective

theorem bijective_foldl_absorb (bytes : Bytes) :
    Function.Bijective fun accumulator => bytes.foldl absorb accumulator := by
  induction bytes with
  | nil => exact Function.bijective_id
  | cons byte rest ih => exact ih.comp (bijective_absorb byte)

/-- Whatever bytes are still to come, every digest is that of exactly one accumulator. -/
theorem bijective_finish (rest : Bytes) :
    Function.Bijective fun accumulator => mix (rest.foldl absorb accumulator) :=
  bijective_mix.comp (bijective_foldl_absorb rest)

/-! ## One byte -/

theorem absorb_injective (accumulator : UInt64) : Function.Injective (absorb accumulator) := by
  intro left right habsorbed
  have hxor := (bijective_mul_of_odd multiplier (by decide)).injective habsorbed
  have hcancelled := congrArg (accumulator ^^^ ·) hxor
  simpa only [xor_cancel_left, UInt8.toUInt64_inj] using hcancelled

end Digest

theorem exists_split_of_differ {α : Type} {left right : List α} {position : Nat}
    (hlength : left.length = right.length) (hdiffer : left[position]? ≠ right[position]?)
    (hsame : ∀ other, left[other]? ≠ right[other]? → other = position) :
    ∃ front here there rest, left = front ++ here :: rest ∧ right = front ++ there :: rest ∧
      here ≠ there := by
  have hleft : position < left.length := by
    by_contra hbeyond
    have hnot := Nat.not_lt.1 hbeyond
    exact hdiffer (by rw [List.getElem?_eq_none hnot, List.getElem?_eq_none (hlength ▸ hnot)])
  have hright : position < right.length := hlength ▸ hleft
  have hagree (other : Nat) (hother : other ≠ position) : left[other]? = right[other]? := by
    by_contra hapart
    exact hother (hsame other hapart)
  have htake : left.take position = right.take position := by
    apply List.ext_getElem?
    intro other
    rw [List.getElem?_take, List.getElem?_take]
    split
    · next hlt => exact hagree other hlt.ne
    · rfl
  have hdrop : left.drop (position + 1) = right.drop (position + 1) := by
    apply List.ext_getElem?
    intro other
    rw [List.getElem?_drop, List.getElem?_drop]
    exact hagree _ (by omega)
  refine ⟨left.take position, left[position], right[position], left.drop (position + 1), ?_, ?_, ?_⟩
  · rw [List.getElem_cons_drop, List.take_append_drop]
  · rw [htake, hdrop, List.getElem_cons_drop, List.take_append_drop]
  · intro hhere
    rw [List.getElem?_eq_getElem hleft, List.getElem?_eq_getElem hright, hhere] at hdiffer
    exact hdiffer rfl

namespace Bytes

/-- Vectors of the same length that differ in exactly one byte never share a digest, and whatever
bytes are still to come, the accumulators lead to all digests, each to one of its own. -/
theorem digest_separates :
    (∀ left right : Bytes, left.length = right.length →
      (∃! position : Nat, left[position]? ≠ right[position]?) → left.digest ≠ right.digest) ∧
    ∀ rest : Bytes,
      Function.Bijective fun accumulator => Digest.mix (rest.foldl Digest.absorb accumulator) := by
  refine ⟨?_, Digest.bijective_finish⟩
  rintro left right hlength ⟨position, hdiffer, hunique⟩ hdigests
  obtain ⟨front, here, there, rest, rfl, rfl, hne⟩ :=
    exists_split_of_differ hlength hdiffer hunique
  simp only [digest, List.foldl_append, List.foldl_cons] at hdigests
  exact hne (Digest.absorb_injective _ ((Digest.bijective_finish rest).injective hdigests))

def idleVector : Bytes := [4, 0, 9]

def busyVector : Bytes := [4, 255, 9]

theorem digest_separates_middle :
    idleVector.length = busyVector.length ∧
      (∃! position : Nat, idleVector[position]? ≠ busyVector[position]?) ∧
      idleVector.digest ≠ busyVector.digest := by
  have hone : ∃! position : Nat, idleVector[position]? ≠ busyVector[position]? := by
    refine ⟨1, by decide, fun position hdiffer => ?_⟩
    by_contra hother
    have hplace : position = 0 ∨ position = 2 ∨ 3 ≤ position := by omega
    rcases hplace with rfl | rfl | hbeyond
    · exact hdiffer rfl
    · exact hdiffer rfl
    · exact hdiffer ((List.getElem?_eq_none hbeyond).trans (List.getElem?_eq_none hbeyond).symm)
  exact ⟨rfl, hone, digest_separates.1 idleVector busyVector rfl hone⟩

end Bytes

end Hazard
