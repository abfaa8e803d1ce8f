import Hazard.IndexSet
import Mathlib.Data.Finset.Card
import Mathlib.Data.Finset.Max
import Mathlib.Data.Nat.Bitwise
/-!
# Membership in index sets

Every operation on the bits is described through membership, and a set of indices is tied to the
finite set of its members, which carries the arguments about cardinality.
-/

namespace Hazard.IndexSet

/-! ## Membership -/

theorem ext_contains {left right : IndexSet}
    (h : ∀ index, left.contains index = right.contains index) : left = right := by
  have hbits : left.bits.toBitVec = right.bits.toBitVec := by
    apply BitVec.eq_of_getLsbD_eq
    intro index _
    exact h index
  cases left
  cases right
  exact congrArg IndexSet.mk (UInt64.toBitVec_inj.1 hbits)

theorem lt_of_contains {set : IndexSet} {index : Nat} (h : set.contains index = true) :
    index < 64 := by
  exact BitVec.lt_of_getLsbD h

@[simp] theorem contains_empty (index : Nat) : empty.contains index = false := by
  simp [contains, empty]

@[simp] theorem contains_singleton (fault : Fin 64) (index : Nat) :
    (singleton fault).contains index = decide (index = fault.val) := by
  have hmod : fault.val % 64 = fault.val := Nat.mod_eq_of_lt fault.isLt
  simp only [contains, singleton, UInt64.toBitVec_shiftLeft, UInt64.toBitVec_ofNat']
  rw [Bool.eq_iff_iff]
  simp [hmod]
  omega

@[simp] theorem contains_union (left right : IndexSet) (index : Nat) :
    (left.union right).contains index = (left.contains index || right.contains index) := by
  simp [contains, union]

@[simp] theorem contains_diff (left right : IndexSet) (index : Nat) :
    (left.diff right).contains index = (left.contains index && !right.contains index) := by
  rw [Bool.eq_iff_iff]
  simp only [contains, diff, UInt64.toBitVec_and, UInt64.toBitVec_not, BitVec.getLsbD_and,
    BitVec.getLsbD_not, Bool.and_eq_true, decide_eq_true_eq]
  constructor
  · rintro ⟨hleft, -, hright⟩
    exact ⟨hleft, hright⟩
  · rintro ⟨hleft, hright⟩
    exact ⟨hleft, BitVec.lt_of_getLsbD hleft, hright⟩

@[simp] theorem contains_insert (set : IndexSet) (fault : Fin 64) (index : Nat) :
    (set.insert fault).contains index = (set.contains index || decide (index = fault.val)) := by
  simp [insert]

@[simp] theorem contains_erase (set : IndexSet) (fault : Fin 64) (index : Nat) :
    (set.erase fault).contains index = (set.contains index && !decide (index = fault.val)) := by
  simp [erase]

theorem contains_below (count index : Nat) :
    (below count).contains index = true ↔ index < count ∧ index < 64 := by
  unfold below
  split
  · rename_i hcount
    have hcount' : count < 64 := hcount
    have hpow : (2 : Nat) ^ count < 2 ^ 64 := Nat.pow_lt_pow_right (by omega) hcount'
    have hpos : 0 < (2 : Nat) ^ count := Nat.two_pow_pos count
    have hnat : ((1 <<< UInt64.ofNat count : UInt64) - 1).toBitVec.toNat = 2 ^ count - 1 := by
      simp [BitVec.toNat_sub, Nat.mod_eq_of_lt hcount', Nat.shiftLeft_eq]
      omega
    unfold contains BitVec.getLsbD
    rw [hnat, Nat.testBit_two_pow_sub_one]
    simp only [decide_eq_true_eq]
    omega
  · rename_i hcount
    have hcount' : ¬count < 64 := hcount
    simp only [contains, UInt64.toBitVec_not, BitVec.getLsbD_not]
    simp
    omega

theorem contains_foldl_insert (test : Nat → Bool) (indices : List (Fin 64)) (set : IndexSet)
    (index : Nat) :
    (indices.foldl (fun set (index : Fin 64) => if test index.val then set.insert index else set)
        set).contains index = true ↔
      set.contains index = true ∨ ∃ other ∈ indices, test other.val = true ∧ index = other.val := by
  induction indices generalizing set with
  | nil => simp
  | cons first rest ih =>
      rw [List.foldl_cons, ih]
      by_cases htest : test first.val = true <;> simp [htest, or_assoc]

theorem contains_ofTest (test : Nat → Bool) (index : Nat) :
    (ofTest test).contains index = true ↔ index < 64 ∧ test index = true := by
  unfold ofTest
  rw [contains_foldl_insert]
  constructor
  · rintro (hempty | ⟨other, -, htest, rfl⟩)
    · simp at hempty
    · exact ⟨other.isLt, htest⟩
  · rintro ⟨hlt, htest⟩
    exact .inr ⟨⟨index, hlt⟩, List.mem_finRange _, htest, rfl⟩

theorem isSubset_iff {left right : IndexSet} :
    left.isSubset right = true ↔
      ∀ index, left.contains index = true → right.contains index = true := by
  have hdiff : left.isSubset right = true ↔ left.diff right = empty := by
    simp [isSubset, diff, empty]
  rw [hdiff]
  constructor
  · intro hempty index hleft
    have hout := contains_diff left right index
    rw [hempty, contains_empty, hleft] at hout
    simpa using hout.symm
  · intro hsub
    apply ext_contains
    intro index
    rw [contains_diff, contains_empty]
    cases hleft : left.contains index with
    | false => rfl
    | true => simp [hsub index hleft]

theorem meets_iff {left right : IndexSet} :
    left.meets right = true ↔
      ∃ index, left.contains index = true ∧ right.contains index = true := by
  have hinter : left.meets right = false ↔ left.inter right = empty := by
    simp [meets, inter, empty]
  have hboth : ∀ index,
      (left.inter right).contains index = (left.contains index && right.contains index) := by
    intro index
    simp [contains, inter]
  constructor
  · intro hmeets
    by_contra hnone
    have hempty : left.inter right = empty := by
      apply ext_contains
      intro index
      rw [hboth, contains_empty, Bool.and_eq_false_iff]
      by_contra hmember
      simp only [not_or, Bool.not_eq_false] at hmember
      exact hnone ⟨index, hmember⟩
    rw [hinter.2 hempty] at hmeets
    exact absurd hmeets (by simp)
  · rintro ⟨index, hleft, hright⟩
    by_contra hapart
    have hempty := hinter.1 (by simpa using hapart)
    have hmember := hboth index
    rw [hempty, contains_empty, hleft, hright] at hmember
    exact absurd hmember (by simp)

theorem isSubset_refl (set : IndexSet) : set.isSubset set = true := by
  rw [isSubset_iff]
  exact fun _ h => h

theorem isSubset_trans {first second third : IndexSet} (h₁ : first.isSubset second = true)
    (h₂ : second.isSubset third = true) : first.isSubset third = true := by
  rw [isSubset_iff] at *
  exact fun index h => h₂ index (h₁ index h)

theorem isSubset_antisymm {left right : IndexSet} (h₁ : left.isSubset right = true)
    (h₂ : right.isSubset left = true) : left = right := by
  rw [isSubset_iff] at h₁ h₂
  apply ext_contains
  intro index
  rw [Bool.eq_iff_iff]
  exact ⟨h₁ index, h₂ index⟩

/-! ## Members as a finite set -/

def members (set : IndexSet) : Finset Nat := set.toList.toFinset

@[simp] theorem mem_members {set : IndexSet} {index : Nat} :
    index ∈ set.members ↔ set.contains index = true := by
  simp only [members, toList, List.mem_toFinset, List.mem_filter, List.mem_range,
    and_iff_right_iff_imp]
  exact lt_of_contains

theorem card_members (set : IndexSet) : set.members.card = set.card := by
  rw [members, List.toFinset_card_of_nodup]
  · rfl
  · exact List.nodup_range.filter _

theorem members_subset {left right : IndexSet} :
    left.members ⊆ right.members ↔ left.isSubset right = true := by
  rw [isSubset_iff]
  constructor
  · intro hsub index hleft
    exact mem_members.1 (hsub (mem_members.2 hleft))
  · intro hsub index hleft
    exact mem_members.2 (hsub index (mem_members.1 hleft))

theorem members_inj {left right : IndexSet} : left.members = right.members ↔ left = right := by
  constructor
  · intro hmembers
    exact isSubset_antisymm (members_subset.1 hmembers.subset)
      (members_subset.1 hmembers.symm.subset)
  · rintro rfl
    rfl

theorem members_ssubset {left right : IndexSet} :
    left.members ⊂ right.members ↔ left.isSubset right = true ∧ left ≠ right := by
  rw [Finset.ssubset_iff_subset_ne, members_subset, Ne, members_inj]

theorem members_erase (set : IndexSet) (fault : Fin 64) :
    (set.erase fault).members = set.members.erase fault.val := by
  ext index
  simp [and_comm]

theorem members_below {count : Nat} (hcount : count ≤ 64) :
    (below count).members = Finset.range count := by
  ext index
  rw [mem_members, contains_below, Finset.mem_range]
  omega

theorem exists_members_eq {indices : Finset Nat} (hroom : indices ⊆ Finset.range 64) :
    ∃ set : IndexSet, set.members = indices := by
  refine ⟨ofTest fun index => decide (index ∈ indices), ?_⟩
  ext index
  rw [mem_members, contains_ofTest, decide_eq_true_eq, and_iff_right_iff_imp]
  exact fun hindex => Finset.mem_range.1 (hroom hindex)

theorem card_le_of_isSubset {left right : IndexSet} (h : left.isSubset right = true) :
    left.card ≤ right.card := by
  rw [← card_members, ← card_members]
  exact Finset.card_le_card (members_subset.2 h)

theorem eq_of_isSubset_of_card_le {left right : IndexSet} (h : left.isSubset right = true)
    (hcard : right.card ≤ left.card) : left = right := by
  rw [← card_members, ← card_members] at hcard
  have hmembers := Finset.eq_of_subset_of_card_le (members_subset.2 h) hcard
  apply isSubset_antisymm h
  rw [← members_subset, hmembers]

theorem card_erase {set : IndexSet} {fault : Fin 64} (h : set.contains fault = true) :
    (set.erase fault).card + 1 = set.card := by
  rw [← card_members, ← card_members, members_erase]
  exact Finset.card_erase_add_one (mem_members.2 h)

theorem insert_erase {set : IndexSet} {fault : Fin 64} (h : set.contains fault = true) :
    (set.erase fault).insert fault = set := by
  apply ext_contains
  intro index
  rw [contains_insert, contains_erase]
  by_cases hindex : index = fault.val
  · subst hindex
    simp [h]
  · simp [hindex]

theorem erase_insert {set : IndexSet} {fault : Fin 64} (h : set.contains fault = false) :
    (set.insert fault).erase fault = set := by
  apply ext_contains
  intro index
  rw [contains_erase, contains_insert]
  by_cases hindex : index = fault.val
  · subst hindex
    simp [h]
  · simp [hindex]

theorem card_singleton (fault : Fin 64) : (singleton fault).card = 1 := by
  have hmembers : (singleton fault).members = {fault.val} := by
    ext index
    simp
  rw [← card_members, hmembers, Finset.card_singleton]

theorem card_eq_zero {set : IndexSet} : set.card = 0 ↔ set = empty := by
  rw [← card_members, Finset.card_eq_zero]
  constructor
  · intro hmembers
    apply ext_contains
    intro index
    rw [contains_empty, ← Bool.not_eq_true, ← mem_members, hmembers]
    simp
  · rintro rfl
    ext index
    simp

theorem card_le_of_isSubset_below {set : IndexSet} {count : Nat}
    (h : set.isSubset (below count) = true) : set.card ≤ count := by
  rw [← card_members]
  have hrange : set.members ⊆ Finset.range count := by
    intro index hindex
    have hbelow := isSubset_iff.1 h index (mem_members.1 hindex)
    exact Finset.mem_range.2 (contains_below _ _ |>.1 hbelow).1
  simpa using Finset.card_le_card hrange

theorem exists_missing {left right : IndexSet} (h : left.isSubset right = true)
    (hne : left ≠ right) :
    ∃ fault : Fin 64, right.contains fault = true ∧ left.isSubset (right.erase fault) = true := by
  have hmissing : ∃ index, right.contains index = true ∧ left.contains index = false := by
    by_contra hnone
    apply hne
    apply isSubset_antisymm h
    rw [isSubset_iff]
    intro index hright
    by_contra hleft
    exact hnone ⟨index, hright, by simpa using hleft⟩
  obtain ⟨index, hright, hleft⟩ := hmissing
  refine ⟨⟨index, lt_of_contains hright⟩, hright, ?_⟩
  rw [isSubset_iff] at *
  intro other hother
  have hne' : other ≠ index := by
    rintro rfl
    rw [hleft] at hother
    exact absurd hother (by simp)
  simp [h other hother, hne']

theorem exists_least {set : IndexSet} (h : set.card ≠ 0) :
    ∃ fault : Fin 64, set.contains fault = true ∧
      ∀ other : Fin 64, other < fault → set.contains other = false := by
  have hmembers : set.members.Nonempty := by
    rw [← Finset.card_ne_zero, card_members]
    exact h
  have hleast := mem_members.1 (Finset.min'_mem set.members hmembers)
  refine ⟨⟨set.members.min' hmembers, lt_of_contains hleast⟩, hleast, ?_⟩
  intro other hother
  by_contra hcontains
  have hmember : other.val ∈ set.members := mem_members.2 (by simpa using hcontains)
  exact absurd (Finset.min'_le set.members other.val hmember) (Nat.not_le.2 hother)

theorem erase_isSubset (set : IndexSet) (fault : Fin 64) :
    (set.erase fault).isSubset set = true := by
  rw [isSubset_iff]
  intro index hindex
  rw [contains_erase, Bool.and_eq_true] at hindex
  exact hindex.1

/-! ## The order of sets -/

theorem le_trans {first second third : IndexSet} (h₁ : first.le second = true)
    (h₂ : second.le third = true) : first.le third = true := by
  simp only [le, decide_eq_true_eq] at *
  exact UInt64.le_trans h₁ h₂

theorem le_total (left right : IndexSet) : (left.le right || right.le left) = true := by
  simp only [le, Bool.or_eq_true, decide_eq_true_eq]
  exact UInt64.le_total left.bits right.bits

theorem le_antisymm {left right : IndexSet} (h₁ : left.le right = true)
    (h₂ : right.le left = true) : left = right := by
  simp only [le, decide_eq_true_eq] at h₁ h₂
  cases left
  cases right
  exact congrArg IndexSet.mk (UInt64.le_antisymm h₁ h₂)

end Hazard.IndexSet
