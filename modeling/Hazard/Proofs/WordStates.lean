import Hazard.State.Set
import Mathlib.Data.List.Sort
import Mathlib.Data.Nat.Bitwise
/-!
# The states of one word

Taking the lowest set bit and clearing it, again and again, visits the set bits of a word in
ascending order, and as many of them as the word's population count says.
-/

namespace Hazard.StateSet

/-! ## The lowest set bit -/

structure IsLowest (word : UInt64) (low : Nat) : Prop where
  set : word.toBitVec.getLsbD low = true
  clear_below : ∀ bit < low, word.toBitVec.getLsbD bit = false

theorem exists_isLowest {word : UInt64} (hword : word ≠ 0) : ∃ low, IsLowest word low := by
  have hbits : word.toBitVec ≠ 0#64 := fun h => hword (UInt64.toBitVec_inj.1 h)
  exact ⟨word.toBitVec.ctz.toNat, BitVec.getLsbD_true_ctz_of_ne_zero hbits,
    fun _ hbit => BitVec.getLsbD_false_of_lt_ctz hbit⟩

variable {word : UInt64} {low : Nat}

/-- Above its lowest set bit a word can hold anything, below it nothing. -/
theorem IsLowest.toNat_eq (hlow : IsLowest word low) :
    word.toNat = 2 ^ (low + 1) * (word.toNat / 2 ^ (low + 1)) + 2 ^ low := by
  have hrest : word.toNat % 2 ^ (low + 1) = 2 ^ low := by
    apply Nat.eq_of_testBit_eq
    intro bit
    rw [Nat.testBit_mod_two_pow, Nat.testBit_two_pow, ← UInt64.toNat_toBitVec,
      BitVec.testBit_toNat]
    rcases Nat.lt_trichotomy bit low with hbelow | rfl | habove
    · simp [hlow.clear_below bit hbelow, hbelow.ne']
    · simp [hlow.set]
    · simp [habove.ne, Nat.not_lt.2 habove]
  have hparts := Nat.div_add_mod word.toNat (2 ^ (low + 1))
  rw [hrest] at hparts
  exact hparts.symm

/-- One less than the word has the same bits above the lowest set one, which it clears. -/
theorem IsLowest.getLsbD_clearLowest (hlow : IsLowest word low) (bit : Nat) :
    (clearLowest word).toBitVec.getLsbD bit =
      (word.toBitVec.getLsbD bit && decide (bit ≠ low)) := by
  have hpos : 0 < 2 ^ low := Nat.two_pow_pos low
  have hlt : 2 ^ low < 2 ^ (low + 1) := Nat.pow_lt_pow_right (by decide) (Nat.lt_succ_self low)
  have hword := hlow.toNat_eq
  generalize word.toNat / 2 ^ (low + 1) = high at hword
  have hle : 1 ≤ word := by
    rw [UInt64.le_iff_toNat_le, UInt64.toNat_one]
    omega
  have hless : (word - 1).toNat = 2 ^ (low + 1) * high + (2 ^ low - 1) := by
    rw [UInt64.toNat_sub_of_le _ _ hle, UInt64.toNat_one]
    omega
  rw [← BitVec.testBit_toNat, ← BitVec.testBit_toNat, UInt64.toNat_toBitVec, UInt64.toNat_toBitVec,
    clearLowest, UInt64.toNat_and, Nat.testBit_and, hless, hword,
    Nat.testBit_two_pow_mul_add _ hlt, Nat.testBit_two_pow_mul_add _ (by omega)]
  -- Up to the lowest set bit the two numbers share no bit, and above it they have the same ones.
  by_cases hbit : bit < low + 1
  · simp only [hbit, if_true, Nat.testBit_two_pow, Nat.testBit_two_pow_sub_one, ← Bool.decide_and,
      decide_eq_decide]
    omega
  · simp only [hbit, if_false, Bool.and_self]
    simp [show bit ≠ low by omega]

theorem IsLowest.lowestBit_eq (hlow : IsLowest word low) : lowestBit word = low := by
  have hsingle : (word ^^^ clearLowest word).toNat = 2 ^ low := by
    apply Nat.eq_of_testBit_eq
    intro bit
    rw [Nat.testBit_two_pow, ← UInt64.toNat_toBitVec, BitVec.testBit_toNat, UInt64.toBitVec_xor,
      BitVec.getLsbD_xor, hlow.getLsbD_clearLowest]
    by_cases hbit : bit = low
    · simp [hbit, hlow.set]
    · simp [hbit, Ne.symm hbit]
  have hlog : lowestBit word = (word ^^^ clearLowest word).toNat.log2 := rfl
  rw [hlog, hsingle, Nat.log2_two_pow]

/-! ## All set bits -/

/-- One round of the iteration: the state of the lowest set bit comes before those of the bits that
are left. -/
theorem IsLowest.wordStates_eq (hlow : IsLowest word low) (first : Nat) :
    wordStates first word = (first + low) :: wordStates first (clearLowest word) := by
  have hword : word ≠ 0 := by
    rintro rfl
    simpa using hlow.set
  rw [wordStates, if_neg hword, hlow.lowestBit_eq]

theorem wordStates_zero (first : Nat) : wordStates first 0 = [] := by
  rw [wordStates, if_pos rfl]

/-- The iteration ends, since clearing a bit makes the word smaller. -/
theorem wordStates_induction {motive : UInt64 → Prop} (zero : motive 0)
    (step : ∀ word low, IsLowest word low → motive (clearLowest word) → motive word)
    (word : UInt64) : motive word := by
  induction hsize : word.toNat using Nat.strongRecOn generalizing word with
  | _ size ih =>
    by_cases hword : word = 0
    · exact hword ▸ zero
    · obtain ⟨low, hlow⟩ := exists_isLowest hword
      exact step word low hlow (ih _ (hsize ▸ toNat_clearLowest_lt hword) _ rfl)

theorem mem_wordStates (first : Nat) (word : UInt64) (state : Nat) :
    state ∈ wordStates first word ↔
      ∃ bit, word.toBitVec.getLsbD bit = true ∧ state = first + bit := by
  induction word using wordStates_induction with
  | zero => simp [wordStates_zero]
  | step word low hlow ih =>
    rw [hlow.wordStates_eq, List.mem_cons, ih]
    constructor
    · rintro (rfl | ⟨bit, hbit, rfl⟩)
      · exact ⟨low, hlow.set, rfl⟩
      · rw [hlow.getLsbD_clearLowest, Bool.and_eq_true] at hbit
        exact ⟨bit, hbit.1, rfl⟩
    · rintro ⟨bit, hbit, rfl⟩
      by_cases hsame : bit = low
      · exact .inl (by rw [hsame])
      · refine .inr ⟨bit, ?_, rfl⟩
        rw [hlow.getLsbD_clearLowest, hbit]
        simpa using hsame

theorem pairwise_wordStates (first : Nat) (word : UInt64) :
    (wordStates first word).Pairwise (· < ·) := by
  induction word using wordStates_induction with
  | zero => simp [wordStates_zero]
  | step word low hlow ih =>
    rw [hlow.wordStates_eq, List.pairwise_cons]
    refine ⟨fun state hstate => ?_, ih⟩
    obtain ⟨bit, hbit, rfl⟩ := (mem_wordStates _ _ _).1 hstate
    rw [hlow.getLsbD_clearLowest, Bool.and_eq_true, decide_eq_true_eq] at hbit
    have hge : low ≤ bit := by
      by_contra hbelow
      rw [hlow.clear_below bit (Nat.lt_of_not_le hbelow)] at hbit
      exact absurd hbit.1 (by simp)
    omega

/-! ## The population count -/

theorem cpopNatRec_eq_length {width : Nat} (bits : BitVec width) (count : Nat) :
    bits.cpopNatRec count 0 = ((List.range count).filter bits.getLsbD).length := by
  induction count with
  | zero => rfl
  | succ count ih =>
    rw [BitVec.cpopNatRec_succ, BitVec.cpopNatRec_add, ih, List.range_succ, List.filter_append,
      List.length_append]
    cases hbit : bits.getLsbD count <;> simp [hbit]

theorem length_wordStates (first : Nat) (word : UInt64) :
    (wordStates first word).length = word.toBitVec.cpop.toNat := by
  have hascending : ((List.range 64).filter word.toBitVec.getLsbD).Pairwise (· < ·) :=
    List.pairwise_lt_range.filter _
  have hlist : wordStates first word =
      ((List.range 64).filter word.toBitVec.getLsbD).map (first + ·) := by
    refine List.Pairwise.eq_of_mem_iff (pairwise_wordStates first word)
      (hascending.map _ fun _ _ h => Nat.add_lt_add_left h first) fun state => ?_
    simp only [mem_wordStates, List.mem_map, List.mem_filter, List.mem_range]
    refine exists_congr fun bit => ?_
    rw [eq_comm (a := state), and_congr_left_iff]
    exact fun _ => ⟨fun hbit => ⟨BitVec.lt_of_getLsbD hbit, hbit⟩, fun hbit => hbit.2⟩
  rw [hlist, List.length_map, BitVec.toNat_cpop, cpopNatRec_eq_length]

end Hazard.StateSet
