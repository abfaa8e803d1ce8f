import Hazard.Analysis.Level
import Hazard.Proofs.IndexSet
import Mathlib.Data.List.FinRange
/-!
# Exactness of power set levels

A level is made fault by fault: the safe sets that lack a fault are extended by it, and the safe
sets that hold it are given up. When a fault's turn comes, only sets of later faults are left, so
every set is made by its least fault, and it is made iff all its direct subsets are safe.
-/

namespace Hazard.FaultSet

theorem mem_positions {count : Nat} {fault : Fin 64} :
    fault ∈ positions count ↔ fault.val < count := by
  simp [positions]

theorem mem_positions_of_contains {count : Nat} {set : FaultSet} {fault : Fin 64}
    (hbelow : set.isSubset (.below count) = true) (hfault : set.contains fault = true) :
    fault ∈ positions count := by
  have hinside := IndexSet.isSubset_iff.1 hbelow fault.val hfault
  exact mem_positions.2 ((IndexSet.contains_below _ _).1 hinside).1

theorem pairwise_positions (count : Nat) : (positions count).Pairwise (· < ·) := by
  exact (List.pairwise_lt_finRange 64).filter _

def without (faults : List (Fin 64)) (sets : List FaultSet) : List FaultSet :=
  sets.filter fun set => faults.all fun fault => !set.contains fault

theorem mem_without {faults : List (Fin 64)} {sets : List FaultSet} {set : FaultSet} :
    set ∈ without faults sets ↔
      set ∈ sets ∧ ∀ fault ∈ faults, set.contains fault = false := by
  simp [without]

/-! ## The first levels -/

theorem mem_level_zero {count : Nat} {safe : List FaultSet} {set : FaultSet} :
    set ∈ level 0 count safe ↔ set.card = 0 := by
  rw [IndexSet.card_eq_zero]
  simp [level]

theorem mem_map_singleton {count : Nat} {set : FaultSet} :
    set ∈ (positions count).map IndexSet.singleton ↔
      set.card = 1 ∧ set.isSubset (.below count) = true := by
  rw [List.mem_map]
  constructor
  · rintro ⟨fault, hfault, rfl⟩
    refine ⟨IndexSet.card_singleton fault, IndexSet.isSubset_iff.2 fun index hindex => ?_⟩
    have heq : index = fault.val := by simpa using hindex
    rw [heq, IndexSet.contains_below]
    exact ⟨mem_positions.1 hfault, fault.isLt⟩
  · rintro ⟨hcard, hbelow⟩
    have hmembers : set.card ≠ 0 := by omega
    obtain ⟨fault, hfault, -⟩ := IndexSet.exists_least hmembers
    have herase : set.erase fault = .empty := by
      have hsmaller := IndexSet.card_erase hfault
      exact IndexSet.card_eq_zero.1 (by omega)
    refine ⟨fault, mem_positions_of_contains hbelow hfault, ?_⟩
    rw [← IndexSet.insert_erase hfault, herase]
    apply IndexSet.ext_contains
    simp

theorem mem_level_one {count : Nat} {safe : List FaultSet} {set : FaultSet} :
    set ∈ level 1 count safe ↔
      safe ≠ [] ∧ set.card = 1 ∧ set.isSubset (.below count) = true := by
  rw [level]
  cases safe with
  | nil => simp
  | cons first rest => simp [mem_map_singleton]

/-! ## Later levels -/

theorem mem_made_foldl (count : Nat) (faults : List (Fin 64)) (growth : Growth)
    {set : FaultSet} :
    set ∈ (faults.foldl (Growth.extend count) growth).made ↔
      set ∈ growth.made ∨ ∃ earlier fault later, faults = earlier ++ fault :: later ∧
        set ∈ extensions count (without earlier growth.safe) fault := by
  induction faults generalizing growth with
  | nil => simp
  | cons first rest ih =>
      rw [List.foldl_cons, ih]
      have hsafe : ∀ earlier, without earlier (growth.extend count first).safe =
          without (first :: earlier) growth.safe := by
        intro earlier
        simp [without, Growth.extend, List.filter_filter, Bool.and_comm]
      simp only [hsafe]
      constructor
      · rintro (hmade | ⟨earlier, fault, later, rfl, hset⟩)
        · rcases List.mem_append.1 hmade with hset | hmade
          · refine Or.inr ⟨[], first, rest, rfl, ?_⟩
            simpa [without] using hset
          · exact Or.inl hmade
        · exact Or.inr ⟨first :: earlier, fault, later, rfl, hset⟩
      · rintro (hmade | ⟨earlier, fault, later, hsplit, hset⟩)
        · exact Or.inl (List.mem_append_right _ hmade)
        · cases earlier with
          | nil =>
              obtain ⟨rfl, rfl⟩ := List.cons.inj hsplit
              refine Or.inl (List.mem_append_left _ ?_)
              simpa [without] using hset
          | cons other earlier =>
              obtain ⟨rfl, rfl⟩ := List.cons.inj hsplit
              exact Or.inr ⟨earlier, fault, later, rfl, hset⟩

theorem mem_extensions {count : Nat} {safe : List FaultSet} {fault : Fin 64} {set : FaultSet} :
    set ∈ extensions count safe fault ↔
      (∃ smaller ∈ safe, smaller.contains fault = false ∧ smaller.insert fault = set) ∧
        ∀ later ∈ positions count, fault < later → set.contains later = true →
          set.erase later ∈ safe := by
  simp only [extensions, lacksSubset, List.mem_filter, List.mem_map, Bool.not_eq_true',
    List.any_eq_false, Bool.and_eq_true, decide_eq_true_eq, List.contains_eq_mem]
  constructor
  · rintro ⟨⟨smaller, ⟨hsafe, hlacks⟩, rfl⟩, hsubsets⟩
    refine ⟨⟨smaller, hsafe, hlacks, rfl⟩, fun later hlater hlt hmember => ?_⟩
    by_contra hmissing
    exact hsubsets later hlater ⟨⟨hlt, hmember⟩, by simpa using hmissing⟩
  · rintro ⟨⟨smaller, hsafe, hlacks, rfl⟩, hsubsets⟩
    refine ⟨⟨smaller, ⟨hsafe, hlacks⟩, rfl⟩, ?_⟩
    rintro later hlater ⟨⟨hlt, hmember⟩, hmissing⟩
    simp [hsubsets later hlater hlt hmember] at hmissing

theorem mem_earlier {count : Nat} {earlier later : List (Fin 64)} {fault other : Fin 64}
    (hsplit : positions count = earlier ++ fault :: later) :
    other ∈ earlier ↔ other < fault := by
  have hsorted := pairwise_positions count
  rw [hsplit, List.pairwise_append, List.pairwise_cons] at hsorted
  obtain ⟨-, ⟨hlater, -⟩, hearlier⟩ := hsorted
  constructor
  · intro hother
    exact hearlier other hother fault (by simp)
  · intro hlt
    have hfault : fault.val < count := mem_positions.1 (by simp [hsplit])
    have hother : other ∈ positions count := mem_positions.2 (by omega)
    rw [hsplit] at hother
    rcases List.mem_append.1 hother with hother | hother
    · exact hother
    · rcases List.mem_cons.1 hother with rfl | hother
      · omega
      · have := hlater other hother
        omega

section

variable {cardinality count : Nat} {safe : List FaultSet} {set : FaultSet}
  {earlier later : List (Fin 64)} {fault : Fin 64}

theorem isSubset_below_insert (hbelow : set.isSubset (.below count) = true)
    (hfault : fault.val < count) : (set.insert fault).isSubset (.below count) = true := by
  rw [IndexSet.isSubset_iff] at hbelow ⊢
  intro index hindex
  rw [IndexSet.contains_insert, Bool.or_eq_true, decide_eq_true_eq] at hindex
  rcases hindex with hindex | rfl
  · exact hbelow index hindex
  · exact (IndexSet.contains_below _ _).2 ⟨hfault, fault.isLt⟩

/-- A set that is made at the turn of a fault holds no earlier one, so all its direct subsets were
looked up. -/
theorem erase_mem_of_mem_extensions (hsplit : positions count = earlier ++ fault :: later)
    (hbelow : set.isSubset (.below count) = true)
    (hset : set ∈ extensions count (without earlier safe) fault) {other : Fin 64}
    (hother : set.contains other = true) : set.erase other ∈ safe := by
  obtain ⟨⟨smaller, hsmaller, hlacks, rfl⟩, hsubsets⟩ := mem_extensions.1 hset
  obtain ⟨hsmaller, hnone⟩ := mem_without.1 hsmaller
  by_cases heq : other = fault
  · subst heq
    rwa [IndexSet.erase_insert hlacks]
  · have hmember : smaller.contains other = true := by
      have hval : other.val ≠ fault.val := fun h => heq (Fin.ext h)
      simpa [hval] using hother
    have hnot : ¬other < fault := by
      intro hlt
      rw [hnone other ((mem_earlier hsplit).2 hlt)] at hmember
      cases hmember
    have hposition := mem_positions_of_contains hbelow hother
    exact (mem_without.1 (hsubsets other hposition (by omega) hother)).1

/-- A set is made at the turn of its least fault. -/
theorem mem_extensions_of_least (hsplit : positions count = earlier ++ fault :: later)
    (hfault : set.contains fault = true)
    (hleast : ∀ other : Fin 64, other < fault → set.contains other = false)
    (hsubsets : ∀ other : Fin 64, set.contains other = true → set.erase other ∈ safe) :
    set ∈ extensions count (without earlier safe) fault := by
  have hkept : ∀ other : Fin 64, set.contains other = true →
      set.erase other ∈ without earlier safe := by
    intro other hother
    refine mem_without.2 ⟨hsubsets other hother, fun small hsmall => ?_⟩
    rw [IndexSet.contains_erase, hleast small ((mem_earlier hsplit).1 hsmall)]
    rfl
  refine mem_extensions.2 ⟨?_, fun other _ _ hother => hkept other hother⟩
  exact ⟨set.erase fault, hkept fault hfault, by simp, IndexSet.insert_erase hfault⟩

theorem level_of_two_le (hcardinality : 2 ≤ cardinality) :
    level cardinality count safe =
      ((positions count).foldl (Growth.extend count) ⟨[], safe⟩).made.mergeSort IndexSet.le := by
  unfold level
  split
  · omega
  · omega
  · rfl

/-- A set is made iff its least fault extends a safe set and its other direct subsets are safe. -/
theorem mem_level_of_two_le (hcardinality : 2 ≤ cardinality)
    (hsafe : ∀ member ∈ safe, member.card + 1 = cardinality ∧
      member.isSubset (.below count) = true) :
    set ∈ level cardinality count safe ↔
      set.card = cardinality ∧ set.isSubset (.below count) = true ∧
        ∀ fault : Fin 64, set.contains fault = true → set.erase fault ∈ safe := by
  rw [level_of_two_le hcardinality, List.mem_mergeSort, mem_made_foldl]
  simp only [List.not_mem_nil, false_or]
  constructor
  · rintro ⟨earlier, fault, later, hsplit, hset⟩
    obtain ⟨⟨smaller, hsmaller, hlacks, rfl⟩, -⟩ := mem_extensions.1 hset
    obtain ⟨hcard, hinside⟩ := hsafe smaller (mem_without.1 hsmaller).1
    have hposition : fault ∈ positions count := by simp [hsplit]
    have hbelow := isSubset_below_insert hinside (mem_positions.1 hposition)
    have hfault : (smaller.insert fault).contains fault = true := by simp
    refine ⟨?_, hbelow, fun other => erase_mem_of_mem_extensions hsplit hbelow hset⟩
    rw [← IndexSet.card_erase hfault, IndexSet.erase_insert hlacks, hcard]
  · rintro ⟨hcard, hbelow, hsubsets⟩
    obtain ⟨fault, hfault, hleast⟩ := IndexSet.exists_least (show set.card ≠ 0 by omega)
    obtain ⟨earlier, later, hsplit⟩ :=
      List.append_of_mem (mem_positions_of_contains hbelow hfault)
    exact ⟨earlier, fault, later, hsplit,
      mem_extensions_of_least hsplit hfault hleast hsubsets⟩

end

/-! ## Levels of the sets that contain nothing bad -/

def Clear (bad : FaultSet → Prop) (set : FaultSet) : Prop :=
  ∀ sub : FaultSet, sub.isSubset set = true → ¬bad sub

def ClearBelow (bad : FaultSet → Prop) (set : FaultSet) : Prop :=
  ∀ sub : FaultSet, sub.isSubset set = true → bad sub → sub = set

theorem clear_iff {bad : FaultSet → Prop} {set : FaultSet} :
    Clear bad set ↔ ClearBelow bad set ∧ ¬bad set := by
  constructor
  · intro h
    refine ⟨fun sub hsub hbad => absurd hbad (h sub hsub), h set (IndexSet.isSubset_refl set)⟩
  · rintro ⟨hbelow, hset⟩ sub hsub hbad
    rw [hbelow sub hsub hbad] at hbad
    exact hset hbad

/-- A set has no bad proper subset iff none of its direct subsets contains anything bad. -/
theorem clearBelow_iff_erase {bad : FaultSet → Prop} {set : FaultSet} :
    ClearBelow bad set ↔
      ∀ fault : Fin 64, set.contains fault = true → Clear bad (set.erase fault) := by
  constructor
  · intro h fault hfault sub hsub hbad
    have heq := h sub (IndexSet.isSubset_trans hsub (IndexSet.erase_isSubset set fault)) hbad
    have hmember := IndexSet.isSubset_iff.1 hsub fault.val (by rwa [heq])
    simp at hmember
  · intro h sub hsub hbad
    by_contra hne
    obtain ⟨fault, hfault, hinside⟩ := IndexSet.exists_missing hsub hne
    exact h fault hfault sub hinside hbad

section

variable {bad : FaultSet → Prop} {cardinality count : Nat} {safe : List FaultSet} {set : FaultSet}
  (hsafe : ∀ member, member ∈ safe ↔
    member.card + 1 = cardinality ∧ member.isSubset (.below count) = true ∧ Clear bad member)
include hsafe

theorem erase_mem_iff_clear (hcard : set.card = cardinality)
    (hbelow : set.isSubset (.below count) = true) {fault : Fin 64}
    (hfault : set.contains fault = true) :
    set.erase fault ∈ safe ↔ Clear bad (set.erase fault) := by
  rw [hsafe, IndexSet.card_erase hfault]
  have hinside := IndexSet.isSubset_trans (IndexSet.erase_isSubset set fault) hbelow
  simp [hcard, hinside]

/-- If the safe sets are the sets of the size below that contain nothing bad, then the level
consists of the sets without a bad proper subset. -/
theorem mem_level :
    set ∈ level cardinality count safe ↔
      set.card = cardinality ∧ set.isSubset (.below count) = true ∧ ClearBelow bad set := by
  match cardinality with
  | 0 =>
      rw [mem_level_zero]
      constructor
      · intro hcard
        have hempty := IndexSet.card_eq_zero.1 hcard
        refine ⟨hcard, ?_, fun sub hsub _ => ?_⟩
        · simp [hempty, IndexSet.isSubset_iff]
        · exact IndexSet.eq_of_isSubset_of_card_le hsub (by omega)
      · exact fun h => h.1
  | 1 =>
      rw [mem_level_one, clearBelow_iff_erase]
      constructor
      · rintro ⟨hsome, hcard, hbelow⟩
        refine ⟨hcard, hbelow, fun fault hfault => ?_⟩
        obtain ⟨member, hmember⟩ := List.exists_mem_of_ne_nil safe hsome
        obtain ⟨hzero, -, hclear⟩ := (hsafe member).1 hmember
        have herase := IndexSet.card_erase hfault
        have heq : set.erase fault = member := by
          rw [IndexSet.card_eq_zero.1 (show (set.erase fault).card = 0 by omega),
            IndexSet.card_eq_zero.1 (show member.card = 0 by omega)]
        rwa [heq]
      · rintro ⟨hcard, hbelow, hclear⟩
        obtain ⟨fault, hfault, -⟩ := IndexSet.exists_least (show set.card ≠ 0 by omega)
        have hmember := (erase_mem_iff_clear hsafe hcard hbelow hfault).2 (hclear fault hfault)
        exact ⟨List.ne_nil_of_mem hmember, hcard, hbelow⟩
  | cardinality + 2 =>
      have hmembers : ∀ member ∈ safe, member.card + 1 = cardinality + 2 ∧
          member.isSubset (.below count) = true := by
        intro member hmember
        obtain ⟨hcard, hbelow, -⟩ := (hsafe member).1 hmember
        exact ⟨hcard, hbelow⟩
      rw [mem_level_of_two_le (by omega) hmembers, clearBelow_iff_erase]
      refine and_congr_right fun hcard => and_congr_right fun hbelow => ?_
      exact forall₂_congr fun fault hfault => erase_mem_iff_clear hsafe hcard hbelow hfault

end

end Hazard.FaultSet
