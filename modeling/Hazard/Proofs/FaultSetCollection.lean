import Hazard.Fault.Collection
import Hazard.Proofs.IndexSet
/-!
# Queries of fault set collections

A collection answers subset and superset queries by looking at some of its buckets only. Every set
lies in the bucket of its cardinality, so the buckets left out could not have changed the answer.
-/

namespace Hazard.FaultSetCollection

def Bucketed (sets : FaultSetCollection) : Prop :=
  ∀ (size : Nat) (bucket : List FaultSet), sets.buckets[size]? = some bucket →
    ∀ set ∈ bucket, set.card = size

theorem mem_toList {sets : FaultSetCollection} {set : FaultSet} :
    set ∈ sets.toList ↔ ∃ (size : Nat) (bucket : List FaultSet),
      sets.buckets[size]? = some bucket ∧ set ∈ bucket := by
  simp only [toList, List.mem_flatten, Array.mem_toList_iff, Array.mem_iff_getElem?]
  constructor
  · rintro ⟨bucket, ⟨size, hsize⟩, hset⟩
    exact ⟨size, bucket, hsize, hset⟩
  · rintro ⟨size, bucket, hsize, hset⟩
    exact ⟨bucket, ⟨size, hsize⟩, hset⟩

/-! ## Adding a set -/

theorem bucketed_empty (faultCount : Nat) : (empty faultCount).Bucketed := by
  intro size bucket hbucket set hset
  rw [empty, Array.getElem?_replicate] at hbucket
  split at hbucket
  · cases hbucket
    exact absurd hset (by simp)
  · cases hbucket

@[simp] theorem toList_empty (faultCount : Nat) : (empty faultCount).toList = [] := by
  simp [empty, toList]

theorem add_cases {sets larger : FaultSetCollection} {set : FaultSet}
    (h : sets.add set = .ok larger) :
    set.card < sets.buckets.size ∧
      (set ∈ sets.buckets.getD set.card [] ∧ larger = sets ∨
        set ∉ sets.buckets.getD set.card [] ∧
          larger = ⟨sets.buckets.modify set.card (· ++ [set]), sets.size + 1⟩) := by
  by_cases hcard : set.card < sets.buckets.size
  · rw [add, if_pos hcard] at h
    refine ⟨hcard, ?_⟩
    by_cases hknown : set ∈ sets.buckets.getD set.card []
    · rw [if_pos (List.contains_iff_mem.2 hknown)] at h
      cases h
      exact Or.inl ⟨hknown, rfl⟩
    · rw [if_neg (mt List.contains_iff_mem.1 hknown)] at h
      cases h
      exact Or.inr ⟨hknown, rfl⟩
  · rw [add, if_neg hcard] at h
    cases h

theorem add_ok {sets : FaultSetCollection} {set : FaultSet}
    (hcard : set.card < sets.buckets.size) : ∃ larger, sets.add set = .ok larger := by
  rw [add, if_pos hcard]
  by_cases hknown : (sets.buckets.getD set.card []).contains set = true
  · exact ⟨_, if_pos hknown⟩
  · exact ⟨_, if_neg hknown⟩

theorem size_buckets_of_add {sets larger : FaultSetCollection} {set : FaultSet}
    (h : sets.add set = .ok larger) : larger.buckets.size = sets.buckets.size := by
  obtain ⟨-, ⟨-, rfl⟩ | ⟨-, rfl⟩⟩ := add_cases h
  · rfl
  · exact Array.size_modify

theorem bucketed_of_add {sets larger : FaultSetCollection} {set : FaultSet}
    (hsets : sets.Bucketed) (h : sets.add set = .ok larger) : larger.Bucketed := by
  obtain ⟨-, ⟨-, rfl⟩ | ⟨-, rfl⟩⟩ := add_cases h
  · exact hsets
  · intro size bucket hbucket member hmember
    rw [Array.getElem?_modify] at hbucket
    split at hbucket
    · rename_i hsize
      obtain ⟨old, hold, rfl⟩ := Option.map_eq_some_iff.1 hbucket
      rcases List.mem_append.1 hmember with hmember | hmember
      · exact hsets size old hold member hmember
      · rw [List.mem_singleton.1 hmember, hsize]
    · exact hsets size bucket hbucket member hmember

theorem mem_toList_of_mem_bucket {sets : FaultSetCollection} {set : FaultSet} {size : Nat}
    (h : set ∈ sets.buckets.getD size []) : set ∈ sets.toList := by
  rw [Array.getD_eq_getD_getElem?] at h
  cases hbucket : sets.buckets[size]? with
  | none => simp [hbucket] at h
  | some bucket => exact mem_toList.2 ⟨size, bucket, hbucket, by simpa [hbucket] using h⟩

theorem Bucketed.mem_bucket {sets : FaultSetCollection} {set : FaultSet} (hsets : sets.Bucketed)
    (h : set ∈ sets.toList) : set ∈ sets.buckets.getD set.card [] := by
  obtain ⟨size, bucket, hbucket, hset⟩ := mem_toList.1 h
  rw [hsets size bucket hbucket set hset, Array.getD_eq_getD_getElem?, hbucket]
  exact hset

private theorem perm_flatten_modify {buckets : List (List FaultSet)} {size : Nat} (set : FaultSet)
    (hsize : size < buckets.length) :
    (buckets.modify size (· ++ [set])).flatten.Perm (set :: buckets.flatten) := by
  induction buckets generalizing size with
  | nil => simp at hsize
  | cons bucket rest ih =>
      cases size with
      | zero =>
          rw [List.modify_zero_cons, List.flatten_cons, List.flatten_cons, List.append_assoc]
          exact List.perm_middle
      | succ size =>
          rw [List.modify_succ_cons, List.flatten_cons, List.flatten_cons]
          have hrest := ih (by simpa using hsize)
          exact (hrest.append_left bucket).trans List.perm_middle

theorem toList_of_add {sets larger : FaultSetCollection} {set : FaultSet}
    (h : sets.add set = .ok larger) :
    set ∈ sets.toList ∧ larger = sets ∨
      set ∉ sets.buckets.getD set.card [] ∧ larger.toList.Perm (set :: sets.toList) ∧
        larger.size = sets.size + 1 := by
  obtain ⟨hcard, ⟨hknown, rfl⟩ | ⟨hnew, rfl⟩⟩ := add_cases h
  · exact Or.inl ⟨mem_toList_of_mem_bucket hknown, rfl⟩
  · refine Or.inr ⟨hnew, ?_, rfl⟩
    rw [toList, Array.toList_modify]
    exact perm_flatten_modify set hcard

theorem mem_toList_of_add {sets larger : FaultSetCollection} {set member : FaultSet}
    (h : sets.add set = .ok larger) :
    member ∈ larger.toList ↔ member ∈ sets.toList ∨ member = set := by
  obtain ⟨hset, rfl⟩ | ⟨-, hperm, -⟩ := toList_of_add h
  · refine ⟨Or.inl, ?_⟩
    rintro (hmember | rfl)
    · exact hmember
    · exact hset
  · rw [hperm.mem_iff, List.mem_cons, or_comm]

theorem perm_toList_of_add {sets larger : FaultSetCollection} {set : FaultSet}
    (h : sets.add set = .ok larger) (hnew : set ∉ sets.toList) :
    larger.toList.Perm (set :: sets.toList) := by
  obtain ⟨hset, -⟩ | ⟨-, hperm, -⟩ := toList_of_add h
  · exact absurd hset hnew
  · exact hperm

/-! ## Subset and superset queries -/

theorem hasSubsetOf_iff {sets : FaultSetCollection} (hsets : sets.Bucketed) {set : FaultSet} :
    sets.hasSubsetOf set = true ↔ ∃ member ∈ sets.toList, member.isSubset set = true := by
  constructor
  · intro h
    obtain ⟨bucket, hbucket, hany⟩ := List.any_eq_true.1 h
    obtain ⟨member, hmember, hsub⟩ := List.any_eq_true.1 hany
    refine ⟨member, ?_, hsub⟩
    exact List.mem_flatten.2 ⟨bucket, List.mem_of_mem_take hbucket, hmember⟩
  · rintro ⟨member, hmember, hsub⟩
    obtain ⟨size, bucket, hbucket, hmember⟩ := mem_toList.1 hmember
    have hcard := IndexSet.card_le_of_isSubset hsub
    have hsize := hsets size bucket hbucket member hmember
    apply List.any_eq_true.2
    refine ⟨bucket, ?_, List.any_eq_true.2 ⟨member, hmember, hsub⟩⟩
    apply List.mem_of_getElem? (i := size)
    rw [List.getElem?_take_of_lt (by omega)]
    simpa using hbucket

theorem hasSupersetOf_iff {sets : FaultSetCollection} (hsets : sets.Bucketed) {set : FaultSet} :
    sets.hasSupersetOf set = true ↔ ∃ member ∈ sets.toList, set.isSubset member = true := by
  constructor
  · intro h
    obtain ⟨bucket, hbucket, hany⟩ := List.any_eq_true.1 h
    obtain ⟨member, hmember, hsub⟩ := List.any_eq_true.1 hany
    refine ⟨member, ?_, hsub⟩
    exact List.mem_flatten.2 ⟨bucket, List.mem_of_mem_drop hbucket, hmember⟩
  · rintro ⟨member, hmember, hsub⟩
    obtain ⟨size, bucket, hbucket, hmember⟩ := mem_toList.1 hmember
    have hcard := IndexSet.card_le_of_isSubset hsub
    have hsize := hsets size bucket hbucket member hmember
    apply List.any_eq_true.2
    refine ⟨bucket, ?_, List.any_eq_true.2 ⟨member, hmember, hsub⟩⟩
    apply List.mem_of_getElem? (i := size - set.card)
    rw [List.getElem?_drop, Nat.add_sub_cancel' (by omega)]
    simpa using hbucket

/-! ## Minimal sets -/

private theorem pairwise_card_flatten (buckets : List (List FaultSet)) (offset : Nat)
    (h : ∀ (size : Nat) (bucket : List FaultSet), buckets[size]? = some bucket →
      ∀ set ∈ bucket, set.card = offset + size) :
    buckets.flatten.Pairwise (fun first second => first.card ≤ second.card) := by
  induction buckets generalizing offset with
  | nil => exact List.Pairwise.nil
  | cons bucket buckets ih =>
      have hhead := h 0 bucket rfl
      have htail : ∀ (size : Nat) (other : List FaultSet), buckets[size]? = some other →
          ∀ set ∈ other, set.card = offset + 1 + size := by
        intro size other hother set hset
        rw [h (size + 1) other (by simpa using hother) set hset]
        omega
      rw [List.flatten_cons, List.pairwise_append]
      refine ⟨?_, ih (offset + 1) htail, ?_⟩
      · apply List.pairwise_of_forall_mem_list
        intro first hfirst second hsecond
        rw [hhead first hfirst, hhead second hsecond]
      · intro first hfirst second hsecond
        obtain ⟨other, hother, hmem⟩ := List.mem_flatten.1 hsecond
        obtain ⟨size, hsize⟩ := List.mem_iff_getElem?.1 hother
        rw [hhead first hfirst, htail size other hsize second hmem]
        omega

theorem pairwise_card_toList {sets : FaultSetCollection} (hsets : sets.Bucketed) :
    sets.toList.Pairwise (fun first second => first.card ≤ second.card) := by
  apply pairwise_card_flatten sets.buckets.toList 0
  intro size bucket hbucket set hset
  rw [Nat.zero_add]
  exact hsets size bucket (by simpa using hbucket) set hset

/-- What a sweep over a list of sets has kept: sets of the list in their order, none inside a later
one, and one inside each set of the list. -/
structure KeptMinimal (sets kept : List FaultSet) : Prop where
  sublist : kept.Sublist sets
  apart : kept.Pairwise fun first second => first.isSubset second = false
  covers : ∀ set ∈ sets, ∃ member ∈ kept, member.isSubset set = true

theorem keptMinimal_step {sets kept : List FaultSet} (h : KeptMinimal sets kept)
    (set : FaultSet) : KeptMinimal (sets ++ [set]) (keepMinimal kept set) := by
  unfold keepMinimal
  split
  · rename_i hany
    obtain ⟨member, hmember, hsub⟩ := List.any_eq_true.1 hany
    refine ⟨h.sublist.trans (List.sublist_append_left _ _), h.apart, fun other hother => ?_⟩
    · rcases List.mem_append.1 hother with hother | hother
      · exact h.covers other hother
      · rw [List.mem_singleton.1 hother]
        exact ⟨member, hmember, hsub⟩
  · rename_i hany
    have hnone : ∀ member ∈ kept, member.isSubset set = false := by
      intro member hmember
      by_contra hsub
      exact hany (List.any_eq_true.2 ⟨member, hmember, by simpa using hsub⟩)
    refine ⟨h.sublist.append (List.Sublist.refl _), ?_, fun other hother => ?_⟩
    · rw [List.pairwise_append]
      refine ⟨h.apart, List.pairwise_singleton _ _, ?_⟩
      intro member hmember other hother
      rw [List.mem_singleton.1 hother]
      exact hnone member hmember
    · rcases List.mem_append.1 hother with hother | hother
      · obtain ⟨member, hmember, hsub⟩ := h.covers other hother
        exact ⟨member, List.mem_append_left _ hmember, hsub⟩
      · rw [List.mem_singleton.1 hother]
        exact ⟨set, by simp, IndexSet.isSubset_refl set⟩

theorem keptMinimal_foldl (seen sets kept : List FaultSet) (h : KeptMinimal seen kept) :
    KeptMinimal (seen ++ sets) (sets.foldl keepMinimal kept) := by
  induction sets generalizing seen kept with
  | nil => simpa using h
  | cons set sets ih =>
      rw [List.foldl_cons, ← List.singleton_append, ← List.append_assoc]
      exact ih _ _ (keptMinimal_step h set)

theorem keptMinimal_minimal (sets : FaultSetCollection) :
    KeptMinimal sets.toList sets.minimal := by
  have hstart : KeptMinimal [] [] := ⟨List.Sublist.refl [], List.Pairwise.nil, by simp⟩
  exact keptMinimal_foldl [] sets.toList [] hstart

/-- Among the kept sets none lies inside another: not inside a later one, since that one would have
been dropped, and not inside an earlier one, which is no larger. -/
theorem eq_of_isSubset_of_mem_minimal {sets : FaultSetCollection} (hsets : sets.Bucketed)
    {first second : FaultSet} (hfirst : first ∈ sets.minimal) (hsecond : second ∈ sets.minimal)
    (hsub : first.isSubset second = true) : first = second := by
  have hkept := keptMinimal_minimal sets
  have hsorted := (pairwise_card_toList hsets).sublist hkept.sublist
  refine List.Pairwise.forall_of_forall_of_flip (l := sets.minimal)
    (R := fun left right => left.isSubset right = true → left = right) (fun _ _ _ => rfl) ?_ ?_
    hfirst hsecond hsub
  · apply hkept.apart.imp
    intro left right hapart hsub
    rw [hapart] at hsub
    exact absurd hsub (by simp)
  · apply hsorted.imp
    intro left right hcard hsub
    exact IndexSet.eq_of_isSubset_of_card_le hsub hcard

theorem mem_minimal {sets : FaultSetCollection} (hsets : sets.Bucketed) {set : FaultSet} :
    set ∈ sets.minimal ↔
      set ∈ sets.toList ∧ ∀ other ∈ sets.toList, other.isSubset set = true → other = set := by
  have hkept := keptMinimal_minimal sets
  constructor
  · intro hset
    refine ⟨hkept.sublist.subset hset, fun other hother hsub => ?_⟩
    obtain ⟨member, hmember, hinside⟩ := hkept.covers other hother
    have heq := eq_of_isSubset_of_mem_minimal hsets hmember hset
      (IndexSet.isSubset_trans hinside hsub)
    subst heq
    exact IndexSet.isSubset_antisymm hsub hinside
  · rintro ⟨hset, hleast⟩
    obtain ⟨member, hmember, hsub⟩ := hkept.covers set hset
    have heq := hleast member (hkept.sublist.subset hmember) hsub
    rwa [← heq]

theorem nodup_minimal (sets : FaultSetCollection) : sets.minimal.Nodup := by
  apply (keptMinimal_minimal sets).apart.imp
  rintro first second hsub rfl
  rw [IndexSet.isSubset_refl] at hsub
  exact absurd hsub (by simp)

/-! ## A history of additions -/

/-- What a collection keeps of the sets that were added to it: each of them once, in the bucket of
its cardinality, and counted. -/
structure Holds (sets : FaultSetCollection) (added : List FaultSet) : Prop where
  bucketed : sets.Bucketed
  mem_iff : ∀ set, set ∈ sets.toList ↔ set ∈ added
  nodup : sets.toList.Nodup
  counted : sets.size = sets.toList.length

theorem holds_empty (faultCount : Nat) : (empty faultCount).Holds [] := by
  refine ⟨bucketed_empty faultCount, fun set => ?_, ?_, ?_⟩
  · rw [toList_empty]
  · rw [toList_empty]
    exact List.nodup_nil
  · rw [toList_empty]
    rfl

theorem holds_of_add {sets larger : FaultSetCollection} {added : List FaultSet} {set : FaultSet}
    (h : sets.Holds added) (hadd : sets.add set = .ok larger) : larger.Holds (added ++ [set]) := by
  have hmem (member : FaultSet) : member ∈ larger.toList ↔ member ∈ added ++ [set] := by
    rw [mem_toList_of_add hadd, h.mem_iff, List.mem_append, List.mem_singleton]
  refine ⟨bucketed_of_add h.bucketed hadd, hmem, ?_, ?_⟩
  · obtain ⟨-, rfl⟩ | ⟨hnew, hperm, -⟩ := toList_of_add hadd
    · exact h.nodup
    · exact hperm.nodup_iff.2 (List.nodup_cons.2 ⟨mt h.bucketed.mem_bucket hnew, h.nodup⟩)
  · obtain ⟨-, rfl⟩ | ⟨-, hperm, hsize⟩ := toList_of_add hadd
    · exact h.counted
    · rw [hsize, hperm.length_eq, List.length_cons, h.counted]

theorem holds_foldlM_add {added sets : List FaultSet} {collection : FaultSetCollection}
    (h : collection.Holds added) (hroom : ∀ set ∈ sets, set.card < collection.buckets.size) :
    ∃ larger, sets.foldlM add collection = .ok larger ∧ larger.Holds (added ++ sets) := by
  induction sets generalizing added collection with
  | nil => exact ⟨collection, rfl, by rwa [List.append_nil]⟩
  | cons set sets ih =>
      obtain ⟨next, hnext⟩ := add_ok (hroom set (by simp))
      have hsize := size_buckets_of_add hnext
      obtain ⟨larger, hlarger, hholds⟩ :=
        ih (holds_of_add h hnext) fun other hother => hsize ▸ hroom other (by simp [hother])
      refine ⟨larger, ?_, by rwa [List.append_assoc] at hholds⟩
      rw [List.foldlM_cons, hnext]
      exact hlarger

/-- Whatever the order in which sets are added, the queries answer for all of them and for no
others, even if the query has more faults than the collection was made for. The sets are listed once
each, smaller ones first, and those without a proper subset among them are the minimal ones. -/
theorem queries_exact (faultCount : Nat) (added : List FaultSet)
    (hroom : ∀ set ∈ added, set.card ≤ faultCount) :
    ∃ collection, added.foldlM add (empty faultCount) = .ok collection ∧
      (∀ query : FaultSet,
        (collection.hasSubsetOf query = true ↔ ∃ set ∈ added, set.members ⊆ query.members) ∧
          (collection.hasSupersetOf query = true ↔ ∃ set ∈ added, query.members ⊆ set.members)) ∧
      collection.toList.Perm added.dedup ∧
      collection.toList.Pairwise (fun first second => first.card ≤ second.card) ∧
      collection.size = added.dedup.length ∧
      collection.minimal.Nodup ∧
      ∀ set, set ∈ collection.minimal ↔
        set ∈ added ∧ ∀ other ∈ added, ¬ other.members ⊂ set.members := by
  have hbuckets : ∀ set ∈ added, set.card < (empty faultCount).buckets.size := by
    intro set hset
    rw [empty, Array.size_replicate]
    exact Nat.lt_succ_of_le (hroom set hset)
  obtain ⟨collection, hcollection, h⟩ := holds_foldlM_add (holds_empty faultCount) hbuckets
  rw [List.nil_append] at h
  have hperm : collection.toList.Perm added.dedup := by
    rw [List.perm_ext_iff_of_nodup h.nodup (List.nodup_dedup added)]
    exact fun set => (h.mem_iff set).trans List.mem_dedup.symm
  refine ⟨collection, hcollection, fun query => ⟨?_, ?_⟩, hperm, pairwise_card_toList h.bucketed,
    h.counted.trans hperm.length_eq, nodup_minimal collection, fun set => ?_⟩
  · simp only [hasSubsetOf_iff h.bucketed, h.mem_iff, IndexSet.members_subset]
  · simp only [hasSupersetOf_iff h.bucketed, h.mem_iff, IndexSet.members_subset]
  · rw [mem_minimal h.bucketed, h.mem_iff]
    refine and_congr_right fun _ => forall_congr' fun other => ?_
    rw [h.mem_iff, IndexSet.members_ssubset, not_and, not_ne_iff]

/-- All of three faults, the first two, the last one, the last two, and the last one again. -/
def assorted : List FaultSet :=
  [.below 3, .below 2, (IndexSet.below 3).diff (.below 2), (IndexSet.below 3).diff (.below 1),
    (IndexSet.below 3).diff (.below 2)]

theorem queries_exact_assorted :
    (∀ set ∈ assorted, set.card ≤ 3) ∧
      ∃ collection, assorted.foldlM add (empty 3) = .ok collection ∧
        collection.hasSubsetOf (.below 8) = true ∧ collection.hasSupersetOf (.below 8) = false ∧
        collection.size = 4 ∧ IndexSet.below 2 ∈ collection.minimal ∧
        IndexSet.below 3 ∉ collection.minimal := by
  have hroom : ∀ set ∈ assorted, set.card ≤ 3 := by decide +kernel
  obtain ⟨collection, hcollection, hqueries, -, -, hsize, -, hminimal⟩ :=
    queries_exact 3 assorted hroom
  obtain ⟨hsubset, hsuperset⟩ := hqueries (.below 8)
  refine ⟨hroom, collection, hcollection, hsubset.2 (by decide +kernel), ?_,
    hsize.trans (by decide +kernel), (hminimal _).2 (by decide +kernel), ?_⟩
  · rw [← Bool.not_eq_true, hsuperset]
    decide +kernel
  · rw [hminimal]
    decide +kernel

end Hazard.FaultSetCollection
