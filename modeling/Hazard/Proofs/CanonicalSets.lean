import Hazard.Proofs.Except
import Hazard.Proofs.StateSet
import Mathlib.Data.Finset.Sort
/-!
# Packed sets are canonical

A packed set goes through the same changes as the finite set it stands for: whatever calls it comes
from, its bits are exactly the members, so that two sets with the same members are the same words.
-/

namespace Hazard.StateSet

/-! ## Finite sets behind packed ones -/

section

variable {set : StateSet} {states : Nat} {members : Finset Nat}
  (hset : set.Comprises states (· ∈ members)) (hrange : members ⊆ Finset.range states)
include hset hrange

theorem Comprises.contains_eq_decide (state : Nat) :
    set.contains state = decide (state ∈ members) := by
  rw [Bool.eq_iff_iff, hset.contains_iff, decide_eq_true_iff]
  exact and_iff_right_of_imp fun hstate => Finset.mem_range.1 (hrange hstate)

theorem Comprises.toList_eq_sort : set.toList = members.sort (· ≤ ·) := by
  have hmembers : set.toList.toFinset = members := by
    ext state
    rw [List.mem_toFinset, mem_toList, hset.contains_eq_decide hrange, decide_eq_true_iff]
  have hascending := pairwise_toList set
  rw [← hmembers, (List.toFinset_sort (· ≤ ·) (hascending.imp Nat.ne_of_lt)).2
    (hascending.imp Nat.le_of_lt)]

theorem Comprises.size_eq_card : set.size = members.card := by
  rw [size_eq_length, hset.toList_eq_sort hrange, Finset.length_sort]

end

/-! ## Sequences of calls -/

/-- How a set comes about, call by call. Only states that the set ranges over are added. -/
inductive Construction (states : Nat) where
  | empty
  | full
  | ofList (list : List (Fin states))
  | insert (before : Construction states) (state : Fin states)
  | erase (before : Construction states) (state : Nat)
  | extend (before : Construction states) (added : List (Fin states))
  | complement (before : Construction states)
  | union (left right : Construction states)
  | inter (left right : Construction states)
  | diff (left right : Construction states)

namespace Construction

variable {states : Nat}

def perform : Construction states → Except Misuse StateSet
  | .empty => .ok (.empty states)
  | .full => .ok (.full states)
  | .ofList list => StateSet.ofList states (list.map Fin.val)
  | .insert before state => do return (← (← before.perform).insert state).2
  | .erase before state => do return ((← before.perform).erase state).2
  | .extend before added => do
    let result := (← before.perform).extend (added.map Fin.val)
    result.2.map fun _ => result.1
  | .complement before => do return (← before.perform).complement
  | .union left right => do return (← left.perform).union (← right.perform)
  | .inter left right => do return (← left.perform).inter (← right.perform)
  | .diff left right => do return (← left.perform).diff (← right.perform)

def members : Construction states → Finset Nat
  | .empty => ∅
  | .full => Finset.range states
  | .ofList list => (list.map Fin.val).toFinset
  | .insert before state => Insert.insert state.val before.members
  | .erase before state => before.members.erase state
  | .extend before added => (added.map Fin.val).toFinset ∪ before.members
  | .complement before => Finset.range states \ before.members
  | .union left right => left.members ∪ right.members
  | .inter left right => left.members ∩ right.members
  | .diff left right => left.members \ right.members

theorem lt_of_mem_map_val (list : List (Fin states)) :
    ∀ state ∈ list.map Fin.val, state < states := by
  intro state hstate
  obtain ⟨member, -, rfl⟩ := List.mem_map.1 hstate
  exact member.isLt

theorem members_subset (construction : Construction states) :
    construction.members ⊆ Finset.range states := by
  have hlist (list : List (Fin states)) :
      (list.map Fin.val).toFinset ⊆ Finset.range states := fun state hstate =>
    Finset.mem_range.2 (lt_of_mem_map_val list state (List.mem_toFinset.1 hstate))
  induction construction with
  | empty => exact Finset.empty_subset _
  | full => exact Finset.Subset.refl _
  | ofList list => exact hlist list
  | insert before state ih =>
    exact Finset.insert_subset (Finset.mem_range.2 state.isLt) ih
  | erase before state ih => exact (Finset.erase_subset _ _).trans ih
  | extend before added ih => exact Finset.union_subset (hlist added) ih
  | complement before ih => exact Finset.sdiff_subset
  | union left right ihleft ihright => exact Finset.union_subset ihleft ihright
  | inter left right ihleft ihright => exact Finset.inter_subset_left.trans ihleft
  | diff left right ihleft ihright => exact Finset.sdiff_subset.trans ihleft

theorem comprises_perform (construction : Construction states) :
    ∃ set, construction.perform = .ok set ∧ set.Comprises states (· ∈ construction.members) := by
  induction construction with
  | empty =>
    exact ⟨_, rfl, (comprises_empty states).congr fun _ _ => by simp [members]⟩
  | full =>
    exact ⟨_, rfl, (comprises_full states).congr fun _ hstate => by simp [members, hstate]⟩
  | ofList list =>
    refine ⟨_, ?_, (comprises_ofList (lt_of_mem_map_val list)).congr fun _ _ => ?_⟩
    · rw [perform, StateSet.ofList, (fits_empty states).extend (lt_of_mem_map_val list)]
    · rw [members, List.mem_toFinset]
  | insert before state ih =>
    obtain ⟨set, hset, hcomprises⟩ := ih
    refine ⟨_, ?_, (hcomprises.adjoin state.isLt).congr fun _ _ => ?_⟩
    · rw [perform, hset]
      change (set.insert state >>= fun result => pure result.2) = _
      rw [hcomprises.toFits.insert state.isLt]
      rfl
    · rw [members, Finset.mem_insert]
  | erase before state ih =>
    obtain ⟨set, hset, hcomprises⟩ := ih
    refine ⟨_, ?_, (hcomprises.erase state).congr fun _ _ => ?_⟩
    · rw [perform, hset]
      rfl
    · rw [members, Finset.mem_erase]
  | extend before added ih =>
    obtain ⟨set, hset, hcomprises⟩ := ih
    refine ⟨_, ?_, (hcomprises.foldl_adjoin (lt_of_mem_map_val added)).congr fun _ _ => ?_⟩
    · rw [perform, hset]
      change (set.extend (added.map Fin.val)).2.map
        (fun _ => (set.extend (added.map Fin.val)).1) = _
      rw [hcomprises.toFits.extend (lt_of_mem_map_val added)]
      rfl
    · rw [members, Finset.mem_union, List.mem_toFinset]
  | complement before ih =>
    obtain ⟨set, hset, hcomprises⟩ := ih
    refine ⟨_, ?_, hcomprises.complement.congr fun _ hstate => ?_⟩
    · rw [perform, hset]
      rfl
    · rw [members, Finset.mem_sdiff, Finset.mem_range, and_iff_right hstate]
  | union left right ihleft ihright =>
    obtain ⟨first, hfirst, hleft⟩ := ihleft
    obtain ⟨second, hsecond, hright⟩ := ihright
    refine ⟨_, ?_, (hleft.union hright).congr fun _ _ => ?_⟩
    · rw [perform, hfirst, hsecond]
      rfl
    · rw [members, Finset.mem_union]
  | inter left right ihleft ihright =>
    obtain ⟨first, hfirst, hleft⟩ := ihleft
    obtain ⟨second, hsecond, hright⟩ := ihright
    refine ⟨_, ?_, (hleft.inter hright).congr fun _ _ => ?_⟩
    · rw [perform, hfirst, hsecond]
      rfl
    · rw [members, Finset.mem_inter]
  | diff left right ihleft ihright =>
    obtain ⟨first, hfirst, hleft⟩ := ihleft
    obtain ⟨second, hsecond, hright⟩ := ihright
    refine ⟨_, ?_, (hleft.diff hright).congr fun _ _ => ?_⟩
    · rw [perform, hfirst, hsecond]
      rfl
    · rw [members, Finset.mem_sdiff]

/-- Whatever calls a set comes from, they succeed and no bit beyond the last state is set.
Membership is that of the finite set that goes through the same changes, adding and removing a state
says whether this set changes, and the members are listed in ascending order and counted. Two sets
are equal as structures exactly if they have the same members. -/
theorem perform_canonical (construction : Construction states) :
    ∃ set, construction.perform = .ok set ∧ set.states = states ∧
      (∀ i word, set.words[i]? = some word → ∀ bit, word.toBitVec.getLsbD bit = true →
        i * 64 + bit < states) ∧
      (∀ state, set.contains state = decide (state ∈ construction.members)) ∧
      (∀ state : Fin states, (set.insert state).map Prod.fst =
        .ok (decide ((construction.insert state).members ≠ construction.members))) ∧
      (∀ state, (set.erase state).1 =
        decide ((construction.erase state).members ≠ construction.members)) ∧
      set.toList = construction.members.sort (· ≤ ·) ∧
      set.size = construction.members.card ∧
      ∀ other : Construction states,
        other.perform = .ok set ↔ other.members = construction.members := by
  obtain ⟨set, hperform, hset⟩ := comprises_perform construction
  have hrange := members_subset construction
  have hcontains := hset.contains_eq_decide hrange
  refine ⟨set, hperform, hset.states_eq, fun i word hword bit hbit => ?_, hcontains,
    fun state => ?_, fun state => ?_, hset.toList_eq_sort hrange, hset.size_eq_card hrange,
    fun other => ?_⟩
  · exact hset.lt_of_contains (contains_of_getLsbD hword hbit)
  · rw [map_eq_ok]
    refine ⟨_, hset.toFits.insert state.isLt, ?_⟩
    rw [hcontains]
    simp [members]
  · rw [erase_fst, hcontains]
    simp [members]
  · obtain ⟨otherSet, hother, hotherSet⟩ := comprises_perform other
    have hotherContains := hotherSet.contains_eq_decide (members_subset other)
    rw [hother, Except.ok.injEq]
    constructor
    · rintro rfl
      ext state
      exact decide_eq_decide.1 ((hotherContains state).symm.trans (hcontains state))
    · intro hmembers
      refine hotherSet.toFits.ext hset.toFits fun state => ?_
      rw [hcontains, hotherContains, hmembers]

end Construction

end Hazard.StateSet
