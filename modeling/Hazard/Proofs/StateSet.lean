import Hazard.Proofs.WordStates
/-!
# State sets by their members

Every operation on packed sets is described by `contains`. A set fits a number of states if it has
the words for them and no bit beyond the last state; all operations keep that.
-/

namespace Hazard.StateSet

/-! ## Bits and words -/

theorem getLsbD_bitOf (state : Nat) {i : Nat} (hi : i < 64) :
    (bitOf state).toBitVec.getLsbD i = decide (i = state % 64) := by
  rw [Bool.eq_iff_iff]
  simp only [bitOf, wordBits, UInt64.toBitVec_shiftLeft]
  simp [hi]
  omega

theorem toNat_bitOf (state : Nat) : (bitOf state).toNat = 2 ^ (state % 64) := by
  have hlt : 2 ^ (state % 64) < 2 ^ 64 :=
    Nat.pow_lt_pow_right (by decide) (Nat.mod_lt _ (by decide))
  simpa [bitOf, wordBits, Nat.one_shiftLeft] using hlt

theorem getLsbD_bitOf_sub_one (states i : Nat) :
    (bitOf states - 1).toBitVec.getLsbD i = decide (i < states % 64) := by
  have hle : 1 ≤ bitOf states := by
    rw [UInt64.le_iff_toNat_le, toNat_bitOf]
    exact Nat.one_le_two_pow
  have hmask : (bitOf states - 1).toNat = 2 ^ (states % 64) - 1 := by
    rw [UInt64.toNat_sub_of_le _ _ hle, toNat_bitOf]
    rfl
  rw [← BitVec.testBit_toNat, UInt64.toNat_toBitVec, hmask, Nat.testBit_two_pow_sub_one]

variable {set left right : StateSet} {states state other : Nat}

theorem contains_iff_word :
    set.contains state = true ↔
      ∃ word, set.words[state / 64]? = some word ∧
        word.toBitVec.getLsbD (state % 64) = true := by
  rw [contains, wordBits]
  cases set.words[state / 64]? with
  | none => simp
  | some word => simp

theorem div_lt_of_contains (h : set.contains state = true) : state / 64 < set.words.size := by
  obtain ⟨word, hword, -⟩ := contains_iff_word.1 h
  exact (Array.getElem?_eq_some_iff.1 hword).1

theorem contains_of_getLsbD {i bit : Nat} {word : UInt64} (hword : set.words[i]? = some word)
    (hbit : word.toBitVec.getLsbD bit = true) : set.contains (i * 64 + bit) = true := by
  have hlt : bit < 64 := BitVec.lt_of_getLsbD hbit
  have hdiv : (i * 64 + bit) / 64 = i := by omega
  have hmod : (i * 64 + bit) % 64 = bit := by omega
  exact contains_iff_word.2 ⟨word, by rwa [hdiv], by rwa [hmod]⟩

theorem eq_iff_word (other state : Nat) :
    other = state ↔ other / 64 = state / 64 ∧ other % 64 = state % 64 := by
  omega

theorem contains_modify {change : UInt64 → UInt64} {i : Nat} :
    ({ set with words := set.words.modify i change } : StateSet).contains state = true ↔
      ∃ word, set.words[state / 64]? = some word ∧
        (if i = state / 64 then change word else word).toBitVec.getLsbD (state % 64) = true := by
  rw [contains_iff_word, Array.getElem?_modify]
  by_cases hword : i = state / 64
  · simp [hword]
  · simp [hword]

/-! ## Adding and removing -/

theorem contains_adjoin (hstate : state / 64 < set.words.size) :
    (set.adjoin state).contains other = true ↔ other = state ∨ set.contains other = true := by
  have hmod : other % 64 < 64 := Nat.mod_lt _ (by decide)
  rw [adjoin, wordBits, contains_modify, contains_iff_word, eq_iff_word other state]
  by_cases hword : other / 64 = state / 64
  · have hget : set.words[state / 64]? = some set.words[state / 64] := Array.getElem?_eq_getElem _
    simp [hword, hget, getLsbD_bitOf _ hmod, or_comm]
  · simp [hword, Ne.symm hword]

theorem and_bitOf_beq_zero (word : UInt64) (state : Nat) :
    (word &&& bitOf state == 0) = !word.toBitVec.getLsbD (state % 64) := by
  have hmod : state % 64 < 64 := Nat.mod_lt _ (by decide)
  rw [Bool.eq_iff_iff, beq_iff_eq, Bool.not_eq_true', ← UInt64.toBitVec_inj, UInt64.toBitVec_and]
  constructor
  · intro hzero
    have hbit := congrArg (BitVec.getLsbD · (state % 64)) hzero
    simpa [getLsbD_bitOf state hmod] using hbit
  · intro hclear
    apply BitVec.eq_of_getLsbD_eq
    intro bit hbit
    rw [BitVec.getLsbD_and, getLsbD_bitOf state hbit]
    by_cases hsame : bit = state % 64
    · simp [hsame, hclear]
    · simp [hsame]

theorem insert_eq (hstate : state < set.states) (hword : state / 64 < set.words.size) :
    set.insert state = .ok (!set.contains state, set.adjoin state) := by
  simp only [insert, contains, wordBits, if_neg (Nat.not_le.2 hstate),
    Array.getElem?_eq_getElem hword, and_bitOf_beq_zero]

theorem insert_eq_ok {new : Bool} {larger : StateSet}
    (h : set.insert state = .ok (new, larger)) :
    state < set.states ∧ new = !set.contains state ∧ larger = set.adjoin state := by
  have hstate : state < set.states := by
    by_contra hbeyond
    rw [insert, if_pos (Nat.not_lt.1 hbeyond)] at h
    cases h
  have hword : state / 64 < set.words.size := by
    by_contra hbeyond
    rw [insert, if_neg (Nat.not_le.2 hstate), wordBits,
      Array.getElem?_eq_none (Nat.not_lt.1 hbeyond)] at h
    cases h
  rw [insert_eq hstate hword] at h
  cases h
  exact ⟨hstate, rfl, rfl⟩

theorem erase_fst : (set.erase state).1 = set.contains state := by
  rw [erase]
  cases hstate : set.contains state <;> simp

theorem contains_erase :
    (set.erase state).2.contains other = true ↔ other ≠ state ∧ set.contains other = true := by
  have hmod : other % 64 < 64 := Nat.mod_lt _ (by decide)
  rw [erase]
  split
  · next hstate =>
    obtain ⟨here, hhere, hbit⟩ := contains_iff_word.1 hstate
    dsimp only
    rw [wordBits, contains_modify, contains_iff_word, Ne, eq_iff_word other state]
    by_cases hword : other / 64 = state / 64
    · by_cases hrest : other % 64 = state % 64
      · simp [hword, hrest, hhere, hbit, getLsbD_bitOf state (hrest ▸ hmod)]
      · simp [hword, hrest, hhere, getLsbD_bitOf _ hmod]
    · simp [hword, Ne.symm hword]
  · next hstate =>
    constructor
    · intro hother
      refine ⟨?_, hother⟩
      rintro rfl
      exact hstate hother
    · exact fun h => h.2

/-! ## Sets that fit -/

structure Fits (set : StateSet) (states : Nat) : Prop where
  states_eq : set.states = states
  size_eq : set.words.size = (states + 63) / 64
  lt_of_contains : ∀ {state}, set.contains state = true → state < states

theorem Fits.div_lt (hfits : set.Fits states) (hstate : state < states) :
    state / 64 < set.words.size := by
  have hsize := hfits.size_eq
  omega

theorem contains_empty : (empty states).contains state = false := by
  rw [Bool.eq_false_iff, Ne, contains_iff_word]
  rintro ⟨word, hword, hbit⟩
  simp only [empty, Array.getElem?_replicate, Option.ite_none_right_eq_some] at hword
  obtain ⟨-, hzero⟩ := hword
  simp [← Option.some.inj hzero] at hbit

theorem fits_empty (states : Nat) : (empty states).Fits states where
  states_eq := rfl
  size_eq := by simp [empty, wordBits]
  lt_of_contains := by simp [contains_empty]

theorem Fits.contains_adjoin (hfits : set.Fits states) (hstate : state < states) :
    (set.adjoin state).contains other = true ↔ other = state ∨ set.contains other = true :=
  StateSet.contains_adjoin (hfits.div_lt hstate)

theorem Fits.adjoin (hfits : set.Fits states) (hstate : state < states) :
    (set.adjoin state).Fits states where
  states_eq := hfits.states_eq
  size_eq := by simpa [StateSet.adjoin] using hfits.size_eq
  lt_of_contains := by
    intro other hother
    rcases (hfits.contains_adjoin hstate).1 hother with rfl | hold
    · exact hstate
    · exact hfits.lt_of_contains hold

theorem Fits.foldl_adjoin (hfits : set.Fits states) {members : List Nat}
    (hmembers : ∀ member ∈ members, member < states) :
    (members.foldl StateSet.adjoin set).Fits states ∧
      ∀ other, (members.foldl StateSet.adjoin set).contains other = true ↔
        other ∈ members ∨ set.contains other = true := by
  induction members generalizing set with
  | nil => simpa using hfits
  | cons member rest ih =>
      have hmember : member < states := hmembers member (by simp)
      obtain ⟨hrest, hcontains⟩ := ih (hfits.adjoin hmember)
        fun other hother => hmembers other (by simp [hother])
      refine ⟨hrest, fun other => ?_⟩
      rw [List.foldl_cons, hcontains, hfits.contains_adjoin hmember, List.mem_cons]
      tauto

theorem Fits.insert (hfits : set.Fits states) (hstate : state < states) :
    set.insert state = .ok (!set.contains state, set.adjoin state) :=
  insert_eq (hfits.states_eq ▸ hstate) (hfits.div_lt hstate)

theorem Fits.extend (hfits : set.Fits states) {members : List Nat}
    (hmembers : ∀ member ∈ members, member < states) :
    set.extend members = (members.foldl StateSet.adjoin set, .ok ()) := by
  induction members generalizing set with
  | nil => rfl
  | cons member rest ih =>
      have hmember : member < states := hmembers member (by simp)
      rw [StateSet.extend, hfits.insert hmember, List.foldl_cons]
      exact ih (hfits.adjoin hmember) fun other hother => hmembers other (by simp [hother])

theorem Fits.erase (hfits : set.Fits states) : (set.erase state).2.Fits states where
  states_eq := by
    rw [StateSet.erase]
    split <;> exact hfits.states_eq
  size_eq := by
    rw [StateSet.erase]
    split
    · simpa using hfits.size_eq
    · exact hfits.size_eq
  lt_of_contains := fun hother => hfits.lt_of_contains (contains_erase.1 hother).2

theorem Fits.foldl_erase (hfits : set.Fits states) (members : List Nat) :
    (members.foldl (fun set member => (set.erase member).2) set).Fits states ∧
      ∀ other, (members.foldl (fun set member => (set.erase member).2) set).contains other = true ↔
        other ∉ members ∧ set.contains other = true := by
  induction members generalizing set with
  | nil => simpa using hfits
  | cons member rest ih =>
      obtain ⟨hrest, hcontains⟩ := ih hfits.erase
      refine ⟨hrest, fun other => ?_⟩
      rw [List.foldl_cons, hcontains, contains_erase, List.mem_cons]
      tauto

theorem Fits.ext (hleft : left.Fits states) (hright : right.Fits states)
    (h : ∀ state, left.contains state = right.contains state) : left = right := by
  have hsize : left.words.size = right.words.size := by rw [hleft.size_eq, hright.size_eq]
  have hwords : left.words = right.words := by
    apply Array.ext hsize
    intro i hi hi'
    apply UInt64.toBitVec_inj.1
    apply BitVec.eq_of_getLsbD_eq
    intro j hj
    have hbit := h (64 * i + j)
    have hword : (64 * i + j) / 64 = i := by omega
    have hoffset : (64 * i + j) % 64 = j := by omega
    simpa [contains, wordBits, hword, hoffset, hi, hi'] using hbit
  cases left
  cases right
  simp only [StateSet.mk.injEq]
  exact ⟨hwords, hleft.states_eq.trans hright.states_eq.symm⟩

/-! ## Complement -/

/-- Only the last word can have bits without a state, and the mask clears exactly those. -/
theorem contains_clearTail (set : StateSet)
    (hsize : set.words.size = (set.states + 63) / 64) :
    ({ set with words := clearTail set.states set.words } : StateSet).contains state = true ↔
      state < set.states ∧ set.contains state = true := by
  have hlt_size (h : set.contains state = true) := div_lt_of_contains h
  rw [clearTail, wordBits]
  split
  · next hwhole =>
    change set.contains state = true ↔ _
    refine ⟨fun h => ⟨?_, h⟩, fun h => h.2⟩
    have := hlt_size h
    omega
  · next hpart =>
    rw [contains_modify]
    by_cases hlast : set.words.size - 1 = state / 64
    · simp only [hlast, if_true, UInt64.toBitVec_and, BitVec.getLsbD_and, Bool.and_eq_true,
        getLsbD_bitOf_sub_one, decide_eq_true_eq]
      rw [contains_iff_word]
      constructor
      · rintro ⟨word, hword, hbit, hlt⟩
        exact ⟨by omega, word, hword, hbit⟩
      · rintro ⟨hlt, word, hword, hbit⟩
        exact ⟨word, hword, hbit, by omega⟩
    · simp only [hlast, if_false, ← contains_iff_word]
      refine ⟨fun h => ⟨?_, h⟩, fun h => h.2⟩
      have := hlt_size h
      omega

theorem Fits.contains_complement (hfits : set.Fits states) :
    set.complement.contains state = true ↔ state < states ∧ ¬ set.contains state = true := by
  obtain ⟨rfl, hsize, -⟩ := hfits
  have hflip (hstate : state < set.states) :
      ({ set with words := set.words.map (~~~ ·) } : StateSet).contains state = true ↔
        ¬ set.contains state = true := by
    have hword : state / 64 < set.words.size := by omega
    have hget : set.words[state / 64]? = some set.words[state / 64] := Array.getElem?_eq_getElem _
    rw [contains_iff_word, contains_iff_word]
    simp [hget, Nat.mod_lt]
  rw [complement, ← and_congr_right_iff.2 hflip]
  exact contains_clearTail { set with words := set.words.map (~~~ ·) } (by simpa using hsize)

theorem Fits.complement (hfits : set.Fits states) : set.complement.Fits states where
  states_eq := hfits.states_eq
  size_eq := by
    rw [StateSet.complement, clearTail]
    split <;> simpa using hfits.size_eq
  lt_of_contains := fun hstate => (hfits.contains_complement.1 hstate).1

/-! ## Word by word -/

section

variable (hleft : left.Fits states) (hright : right.Fits states)
include hleft hright

/-- Words are combined bit by bit, and `both` of two clear bits is clear. -/
theorem contains_zipWords {combine : UInt64 → UInt64 → UInt64} (both : Bool → Bool → Bool)
    (hcombine : ∀ a b i, i < 64 → (combine a b).toBitVec.getLsbD i =
      both (a.toBitVec.getLsbD i) (b.toBitVec.getLsbD i))
    (hboth : both false false = false) :
    (zipWords combine left right).contains state =
      both (left.contains state) (right.contains state) := by
  have hmod : state % 64 < 64 := Nat.mod_lt _ (by decide)
  have hsize : left.words.size = right.words.size := by rw [hleft.size_eq, hright.size_eq]
  rw [zipWords, contains, contains, contains, wordBits, Array.getElem?_zipWith]
  by_cases hword : state / 64 < left.words.size
  · have hword' : state / 64 < right.words.size := hsize ▸ hword
    simp [Array.getElem?_eq_getElem hword, Array.getElem?_eq_getElem hword', hcombine _ _ _ hmod]
  · have hword' : ¬ state / 64 < right.words.size := hsize ▸ hword
    simp [Array.getElem?_eq_none (Nat.not_lt.1 hword), Array.getElem?_eq_none (Nat.not_lt.1 hword'),
      hboth]

theorem contains_union :
    (left.union right).contains state = true ↔
      left.contains state = true ∨ right.contains state = true := by
  rw [union, contains_zipWords hleft hright or (by simp) rfl, Bool.or_eq_true]

theorem contains_inter :
    (left.inter right).contains state = true ↔
      left.contains state = true ∧ right.contains state = true := by
  rw [inter, contains_zipWords hleft hright and (by simp) rfl, Bool.and_eq_true]

theorem contains_diff :
    (left.diff right).contains state = true ↔
      left.contains state = true ∧ ¬ right.contains state = true := by
  rw [diff, contains_zipWords hleft hright (fun a b => a && !b) (by simp +contextual) rfl]
  simp

theorem fits_zipWords {combine : UInt64 → UInt64 → UInt64}
    (hlt : ∀ {state}, (zipWords combine left right).contains state = true → state < states) :
    (zipWords combine left right).Fits states where
  states_eq := hleft.states_eq
  size_eq := by simp [zipWords, hleft.size_eq, hright.size_eq]
  lt_of_contains := hlt

theorem Fits.union : (left.union right).Fits states :=
  fits_zipWords hleft hright fun hstate =>
    ((contains_union hleft hright).1 hstate).elim hleft.lt_of_contains hright.lt_of_contains

theorem Fits.inter : (left.inter right).Fits states :=
  fits_zipWords hleft hright fun hstate =>
    hleft.lt_of_contains ((contains_inter hleft hright).1 hstate).1

theorem Fits.diff : (left.diff right).Fits states :=
  fits_zipWords hleft hright fun hstate =>
    hleft.lt_of_contains ((contains_diff hleft hright).1 hstate).1

end

/-! ## Lists of members -/

theorem mem_toList : state ∈ set.toList ↔ set.contains state = true := by
  simp only [toList, wordBits, List.mem_flatMap, List.mem_zipIdx_iff_getElem?,
    Array.getElem?_toList, mem_wordStates, contains_iff_word, Prod.exists]
  constructor
  · rintro ⟨word, i, hword, bit, hbit, rfl⟩
    exact contains_iff_word.1 (contains_of_getLsbD hword hbit)
  · rintro ⟨word, hword, hbit⟩
    exact ⟨word, state / 64, hword, state % 64, hbit, (Nat.div_add_mod' state 64).symm⟩

/-- Each word lists its states in order, and all of them before those of the next word. -/
theorem pairwise_toList (set : StateSet) : set.toList.Pairwise (· < ·) := by
  have hindices : (set.words.toList.zipIdx.map Prod.snd).Pairwise (· < ·) := by
    rw [List.zipIdx_map_snd]
    exact List.pairwise_lt_range' 1
  rw [toList, List.pairwise_flatMap]
  refine ⟨fun entry _ => pairwise_wordStates _ _, (List.pairwise_map.1 hindices).imp ?_⟩
  rintro ⟨word, i⟩ ⟨word', i'⟩ hlt state hstate state' hstate'
  obtain ⟨bit, hbit, rfl⟩ := (mem_wordStates _ _ _).1 hstate
  obtain ⟨bit', -, rfl⟩ := (mem_wordStates _ _ _).1 hstate'
  have hbound : bit < 64 := BitVec.lt_of_getLsbD hbit
  simp only [wordBits] at hlt ⊢
  omega

theorem toList_eq_filter (set : StateSet) :
    set.toList = (List.range (set.words.size * 64)).filter set.contains := by
  refine List.Pairwise.eq_of_mem_iff (pairwise_toList set) (List.pairwise_lt_range.filter _)
    fun state => ?_
  rw [mem_toList, List.mem_filter, List.mem_range]
  refine ⟨fun h => ⟨?_, h⟩, fun h => h.2⟩
  have := div_lt_of_contains h
  omega

theorem foldl_cpop_eq (words : List UInt64) (start count : Nat) :
    words.foldl (fun count word => count + word.toBitVec.cpop.toNat) count =
      count + ((words.zipIdx start).flatMap fun entry =>
        wordStates (entry.2 * wordBits) entry.1).length := by
  induction words generalizing start count with
  | nil => simp
  | cons word rest ih =>
      rw [List.foldl_cons, ih (start + 1), List.zipIdx_cons, List.flatMap_cons, List.length_append,
        length_wordStates, Nat.add_assoc]

theorem size_eq_length (set : StateSet) : set.size = set.toList.length := by
  rw [size, ← Array.foldl_toList, foldl_cpop_eq set.words.toList 0 0, Nat.zero_add, toList]

/-! ## Sets by a property -/

structure Comprises (set : StateSet) (states : Nat) (member : Nat → Prop) : Prop
    extends set.Fits states where
  contains_iff : ∀ state, set.contains state = true ↔ state < states ∧ member state

variable {member atLeft atRight : Nat → Prop}

theorem comprises_empty (states : Nat) : (empty states).Comprises states fun _ => False :=
  ⟨fits_empty states, fun _ => by simp [contains_empty]⟩

theorem Comprises.complement (hset : set.Comprises states member) :
    set.complement.Comprises states fun state => ¬ member state := by
  refine ⟨hset.toFits.complement, fun state => ?_⟩
  rw [hset.toFits.contains_complement, hset.contains_iff]
  tauto

theorem comprises_full (states : Nat) : (full states).Comprises states fun _ => True := by
  simpa [full] using (comprises_empty states).complement

theorem Comprises.union (hleft : left.Comprises states atLeft)
    (hright : right.Comprises states atRight) :
    (left.union right).Comprises states fun state => atLeft state ∨ atRight state := by
  refine ⟨hleft.toFits.union hright.toFits, fun state => ?_⟩
  rw [contains_union hleft.toFits hright.toFits, hleft.contains_iff, hright.contains_iff]
  tauto

theorem Comprises.inter (hleft : left.Comprises states atLeft)
    (hright : right.Comprises states atRight) :
    (left.inter right).Comprises states fun state => atLeft state ∧ atRight state := by
  refine ⟨hleft.toFits.inter hright.toFits, fun state => ?_⟩
  rw [contains_inter hleft.toFits hright.toFits, hleft.contains_iff, hright.contains_iff]
  tauto

theorem Comprises.diff (hleft : left.Comprises states atLeft)
    (hright : right.Comprises states atRight) :
    (left.diff right).Comprises states fun state => atLeft state ∧ ¬ atRight state := by
  refine ⟨hleft.toFits.diff hright.toFits, fun state => ?_⟩
  rw [contains_diff hleft.toFits hright.toFits, hleft.contains_iff, hright.contains_iff]
  tauto

theorem Comprises.adjoin (hset : set.Comprises states member) (hstate : state < states) :
    (set.adjoin state).Comprises states fun other => other = state ∨ member other := by
  refine ⟨hset.toFits.adjoin hstate, fun other => ?_⟩
  have hlt : other = state → other < states := fun h => h ▸ hstate
  rw [hset.toFits.contains_adjoin hstate, hset.contains_iff, and_or_left, and_iff_right_of_imp hlt]

theorem Comprises.erase (hset : set.Comprises states member) (state : Nat) :
    (set.erase state).2.Comprises states fun other => other ≠ state ∧ member other := by
  refine ⟨hset.toFits.erase, fun other => ?_⟩
  rw [contains_erase, hset.contains_iff, and_left_comm]

theorem Comprises.foldl_adjoin (hset : set.Comprises states member) {members : List Nat}
    (hmembers : ∀ member ∈ members, member < states) :
    (members.foldl StateSet.adjoin set).Comprises states
      fun other => other ∈ members ∨ member other := by
  obtain ⟨hfits, hcontains⟩ := hset.toFits.foldl_adjoin hmembers
  refine ⟨hfits, fun other => ?_⟩
  rw [hcontains, hset.contains_iff, and_or_left, and_iff_right_of_imp (hmembers other)]

theorem comprises_ofList {members : List Nat} (hmembers : ∀ member ∈ members, member < states) :
    (members.foldl StateSet.adjoin (empty states)).Comprises states (· ∈ members) := by
  simpa using (comprises_empty states).foldl_adjoin hmembers

theorem comprises_ofTest (states : Nat) (test : Nat → Bool) :
    (ofTest states test).Comprises states (test · = true) := by
  have hset : (ofTest states test).Comprises states (· ∈ (List.range states).filter test) :=
    comprises_ofList fun member hmember => by simpa using (List.mem_filter.1 hmember).1
  refine ⟨hset.toFits, fun state => ?_⟩
  rw [hset.contains_iff]
  simp

theorem Comprises.congr (hset : set.Comprises states member)
    (hiff : ∀ state < states, member state ↔ atLeft state) : set.Comprises states atLeft :=
  ⟨hset.toFits, fun state => by rw [hset.contains_iff, and_congr_right_iff]; exact hiff state⟩

end Hazard.StateSet
