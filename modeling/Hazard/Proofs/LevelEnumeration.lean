import Mathlib.Data.Finset.Powerset
import Hazard.Proofs.ConsistentResults
/-!
# Levels as families of subsets

A level from the second on, read as a family of sets of numbers, consists of the subsets of the
given size whose direct subsets are all safe. No set is made twice, so the level lists each of them
once.
-/

namespace Hazard.FaultSet

variable {cardinality count : Nat} {safe : List FaultSet} {fault : Fin 64}

/-! ## Every set once -/

theorem nodup_extensions (hsafe : safe.Nodup) : (extensions count safe fault).Nodup := by
  refine List.Nodup.filter _ ((hsafe.filter _).map_on ?_)
  intro left hleft right hright heq
  have hlacks {set : FaultSet} (hset : set ∈ safe.filter fun set => !set.contains fault) :
      set.contains fault = false := by simpa using (List.mem_filter.1 hset).2
  rw [← IndexSet.erase_insert (hlacks hleft), heq, IndexSet.erase_insert (hlacks hright)]

/-- Nothing occurs twice, and what the faults to come will make has not been made yet. -/
structure Growth.Fresh (growth : Growth) (faults : List (Fin 64)) : Prop where
  safe_once : growth.safe.Nodup
  made_once : growth.made.Nodup
  unmade : ∀ smaller ∈ growth.safe, ∀ fault ∈ faults, smaller.insert fault ∉ growth.made

/-- Sets made by a fault hold it. The safe sets that are left do not, so no later fault makes one of
those sets again. -/
theorem Growth.Fresh.extend {growth : Growth} {faults : List (Fin 64)}
    (hfresh : growth.Fresh (fault :: faults)) (hlast : fault ∉ faults) :
    (growth.extend count fault).Fresh faults where
  safe_once := hfresh.safe_once.filter _
  made_once := by
    refine (nodup_extensions hfresh.safe_once).append hfresh.made_once fun set hset hmade => ?_
    obtain ⟨⟨smaller, hsmaller, -, rfl⟩, -⟩ := mem_extensions.1 hset
    exact hfresh.unmade smaller hsmaller fault List.mem_cons_self hmade
  unmade := by
    intro smaller hsmaller later hlater hmade
    obtain ⟨hsmaller, hlacks⟩ := List.mem_filter.1 hsmaller
    rcases List.mem_append.1 hmade with hset | hmade
    · obtain ⟨⟨other, -, -, heq⟩, -⟩ := mem_extensions.1 hset
      have hholds : (smaller.insert later).contains fault = true := by simp [← heq]
      have hne : fault.val ≠ later.val := fun h => hlast (Fin.ext h ▸ hlater)
      simp only [IndexSet.contains_insert, hne, decide_false, Bool.or_false] at hholds
      simp [hholds] at hlacks
    · exact hfresh.unmade smaller hsmaller later (List.mem_cons_of_mem _ hlater) hmade

theorem Growth.Fresh.foldl_extend {growth : Growth} {faults : List (Fin 64)}
    (hfresh : growth.Fresh faults) (hfaults : faults.Nodup) :
    (faults.foldl (Growth.extend count) growth).Fresh [] := by
  induction faults generalizing growth with
  | nil => exact hfresh
  | cons fault faults ih =>
      obtain ⟨hlast, hrest⟩ := List.nodup_cons.1 hfaults
      exact ih (hfresh.extend hlast) hrest

theorem ascends_level (hcardinality : 2 ≤ cardinality) (hsafe : safe.Nodup) :
    Ascends (level cardinality count safe) := by
  have hstart : Growth.Fresh ⟨[], safe⟩ (positions count) := ⟨hsafe, List.nodup_nil, by simp⟩
  have hpositions : (positions count).Nodup := (pairwise_positions count).imp fun h => h.ne
  rw [level_of_two_le hcardinality]
  exact ascends_mergeSort (hstart.foldl_extend hpositions).made_once

/-! ## Families of sets of numbers -/

theorem members_mem_powersetCard (hcount : count ≤ 64) {set : FaultSet} :
    set.members ∈ (Finset.range count).powersetCard cardinality ↔
      set.card = cardinality ∧ set.isSubset (.below count) = true := by
  rw [Finset.mem_powersetCard, IndexSet.card_members, ← IndexSet.members_below hcount,
    IndexSet.members_subset, and_comm]

theorem members_mem_image {sets : List FaultSet} {set : FaultSet} :
    set.members ∈ sets.toFinset.image IndexSet.members ↔ set ∈ sets := by
  rw [Finset.mem_image]
  constructor
  · rintro ⟨other, hother, heq⟩
    exact IndexSet.members_inj.1 heq ▸ List.mem_toFinset.1 hother
  · exact fun hset => ⟨set, List.mem_toFinset.2 hset, rfl⟩

theorem forall_members_erase {sets : List FaultSet} {set : FaultSet} :
    (∀ fault ∈ set.members,
        set.members.erase fault ∈ sets.toFinset.image IndexSet.members) ↔
      ∀ fault : Fin 64, set.contains fault = true → set.erase fault ∈ sets := by
  constructor
  · intro hnumbers fault hfault
    rw [← members_mem_image, IndexSet.members_erase]
    exact hnumbers fault (IndexSet.mem_members.2 hfault)
  · intro hfaults fault hfault
    have hcontains := IndexSet.mem_members.1 hfault
    have herase := hfaults ⟨fault, IndexSet.lt_of_contains hcontains⟩ hcontains
    rwa [← members_mem_image, IndexSet.members_erase] at herase

/-- From safe sets of the size below, a level makes exactly the subsets of the given size that are
without an unsafe direct subset, and lists them in ascending order if no safe set is given twice. -/
theorem level_exact (hcount : count ≤ 64) (hcardinality : 2 ≤ cardinality)
    (hsafe : ∀ set ∈ safe, set.members ∈ (Finset.range count).powersetCard (cardinality - 1)) :
    (level cardinality count safe).toFinset.image IndexSet.members =
        {faults ∈ (Finset.range count).powersetCard cardinality |
          ∀ fault ∈ faults, faults.erase fault ∈ safe.toFinset.image IndexSet.members} ∧
      (safe.Nodup → Ascends (level cardinality count safe)) := by
  have hmembers : ∀ member ∈ safe,
      member.card + 1 = cardinality ∧ member.isSubset (.below count) = true := by
    intro member hmember
    obtain ⟨hcard, hbelow⟩ := (members_mem_powersetCard hcount).1 (hsafe member hmember)
    exact ⟨by omega, hbelow⟩
  have hlevel (set : FaultSet) :
      set.members ∈ (level cardinality count safe).toFinset.image IndexSet.members ↔
        set.members ∈ (Finset.range count).powersetCard cardinality ∧
          ∀ fault ∈ set.members,
            set.members.erase fault ∈ safe.toFinset.image IndexSet.members := by
    rw [members_mem_image, mem_level_of_two_le hcardinality hmembers,
      members_mem_powersetCard hcount, forall_members_erase, and_assoc]
  refine ⟨?_, ascends_level hcardinality⟩
  ext faults
  rw [Finset.mem_filter]
  by_cases hroom : faults ⊆ Finset.range 64
  · obtain ⟨set, rfl⟩ := IndexSet.exists_members_eq hroom
    exact hlevel set
  · constructor
    · intro hfaults
      obtain ⟨set, hset, rfl⟩ := Finset.mem_image.1 hfaults
      exact (hlevel set).1 hfaults
    · rintro ⟨hfaults, -⟩
      have hbelow := (Finset.mem_powersetCard.1 hfaults).1
      exact absurd (hbelow.trans (Finset.range_subset_range.2 hcount)) hroom

/-- The pairs of four faults but the last, each as the number its bits spell. -/
def safePairs : List FaultSet := [⟨3⟩, ⟨5⟩, ⟨6⟩, ⟨9⟩, ⟨10⟩]

/-- Without the pair of the last two faults, two triples of four are left. -/
theorem level_exact_safePairs :
    (4 ≤ 64 ∧ 2 ≤ 3 ∧
        ∀ set ∈ safePairs, set.members ∈ (Finset.range 4).powersetCard (3 - 1)) ∧
      (level 3 4 safePairs).toFinset.image IndexSet.members = {{0, 1, 2}, {0, 1, 3}} ∧
      Ascends (level 3 4 safePairs) := by
  have hsafe : ∀ set ∈ safePairs, set.members ∈ (Finset.range 4).powersetCard (3 - 1) := by
    decide +kernel
  obtain ⟨hlevel, hascends⟩ := level_exact (by decide) (by decide) hsafe
  refine ⟨⟨by decide, by decide, hsafe⟩, ?_, hascends (by decide)⟩
  rw [hlevel]
  decide +kernel

end Hazard.FaultSet
