import Hazard.State.Storage
import Mathlib.Data.List.Nodup
/-!
# Stored vectors are found again

The tables of a storage answer like a plain list of vectors. A vector sits at the end of a run of
taken slots that starts where its digest says; slots are never cleared, so the run stays taken and
the search cannot miss the vector.
-/

namespace Hazard.Storage

variable {storage next : Storage} {vectors : Array Bytes} {stripe : Stripe} {vector other : Bytes}
  {outcome : Except Exhausted Placement} {placement : Placement} {start index distance : Nat}

/-! ## The search in one stripe -/

/-- The slot that a search comes to after so many others. -/
def slotAt (stripe : Stripe) (start distance : Nat) : Nat := (start + distance) % stripe.size

theorem slotAt_zero (stripe : Stripe) (start : Nat) :
    slotAt stripe start 0 = start % stripe.size := by
  rw [slotAt, Nat.add_zero]

theorem slotAt_succ (stripe : Stripe) (start distance : Nat) :
    (slotAt stripe start distance + 1) % stripe.size = slotAt stripe start (distance + 1) := by
  unfold slotAt
  rw [Nat.mod_add_mod, Nat.add_assoc]

def Taken (stripe : Stripe) (start distance : Nat) : Prop :=
  ∃ index, stripe[slotAt stripe start distance]? = some (some index)

def Passed (vectors : Array Bytes) (stripe : Stripe) (vector : Bytes) (start distance : Nat) :
    Prop :=
  ∃ index, stripe[slotAt stripe start distance]? = some (some index) ∧
    vectors[index]? ≠ some vector

/-- What the end of a search says about the slots from `first` on. -/
def Probe.Explains (vectors : Array Bytes) (stripe : Stripe) (vector : Bytes)
    (start first remaining : Nat) : Probe → Prop
  | .found index => vectors[index]? = some vector
  | .vacant slot => ∃ distance, distance < first + remaining ∧
      slot = slotAt stripe start distance ∧ ¬ Taken stripe start distance ∧
      ∀ earlier, first ≤ earlier → earlier < distance → Passed vectors stripe vector start earlier
  | .full => ∀ earlier, first ≤ earlier → earlier < first + remaining →
      Passed vectors stripe vector start earlier

/-- A slot that is passed may be put before the slots that a search has explained. -/
theorem Probe.Explains.pass {first remaining : Nat} {outcome : Probe}
    (hpassed : Passed vectors stripe vector start first)
    (hrest : outcome.Explains vectors stripe vector start (first + 1) remaining) :
    outcome.Explains vectors stripe vector start first (remaining + 1) := by
  have hfrom {bound : Nat}
      (hlater : ∀ earlier, first + 1 ≤ earlier → earlier < bound →
        Passed vectors stripe vector start earlier) (earlier : Nat) (hfirst : first ≤ earlier)
      (hless : earlier < bound) : Passed vectors stripe vector start earlier := by
    rcases Nat.eq_or_lt_of_le hfirst with rfl | hlt
    · exact hpassed
    · exact hlater earlier hlt hless
  cases outcome with
  | found index => exact hrest
  | vacant slot =>
      obtain ⟨distance, hlt, hslot, hvacant, hearlier⟩ := hrest
      exact ⟨distance, by omega, hslot, hvacant, hfrom hearlier⟩
  | full =>
      intro earlier hfirst hless
      exact hfrom hrest earlier hfirst (by omega)

theorem explains_probe (vectors : Array Bytes) (stripe : Stripe) (vector : Bytes)
    (start first remaining : Nat) :
    (probe vectors stripe vector (slotAt stripe start first) remaining).Explains vectors stripe
      vector start first remaining := by
  induction remaining generalizing first with
  | zero =>
      intro earlier hfirst hlast
      omega
  | succ remaining ih =>
      unfold probe
      split
      · next index hslot =>
        split
        · next hfound => exact hfound
        · next hother =>
          rw [slotAt_succ]
          exact (ih (first + 1)).pass ⟨index, hslot, hother⟩
      · next hvacant =>
        refine ⟨first, by omega, rfl, ?_, fun earlier hfirst hless => by omega⟩
        rintro ⟨index, hindex⟩
        exact hvacant index hindex

/-! ## Insertion -/

def grow (storage : Storage) (vector : Bytes) (distance : Nat) : Storage :=
  { storage with
    issued := storage.issued + 1
    vectors := storage.vectors.push vector
    stripes := storage.stripes.modify (storage.stripeOf vector.digest)
      (·.setIfInBounds (slotAt (storage.home vector) vector.digest.toNat distance)
        (some storage.issued)) }

/-- The search for a vector has passed all slots before the one at the distance, which is vacant. -/
structure Vacant (storage : Storage) (vector : Bytes) (distance : Nat) : Prop where
  lt : distance < (storage.home vector).size
  vacant : ¬ Taken (storage.home vector) vector.digest.toNat distance
  passed : ∀ earlier < distance,
    Passed storage.vectors (storage.home vector) vector vector.digest.toNat earlier

inductive Places (storage : Storage) (vector : Bytes) :
    Storage → Except Exhausted Placement → Prop
  | known {index : Nat} (hindex : storage.vectors[index]? = some vector) :
      Places storage vector storage (.ok ⟨index, false⟩)
  | fresh {distance : Nat} (hroom : storage.issued < storage.capacity)
      (hvacant : storage.Vacant vector distance) :
      Places storage vector (storage.grow vector distance) (.ok ⟨storage.issued, true⟩)
  | late {distance : Nat} (hspent : storage.capacity ≤ storage.issued)
      (hvacant : storage.Vacant vector distance) :
      Places storage vector { storage with issued := storage.issued + 1 }
        (.error ⟨.state, storage.capacity⟩)
  | full (hpassed : ∀ earlier < (storage.home vector).size,
        Passed storage.vectors (storage.home vector) vector vector.digest.toNat earlier) :
      Places storage vector storage (.error ⟨.state, storage.capacity⟩)

theorem explains_search (storage : Storage) (vector : Bytes) :
    (storage.search vector).Explains storage.vectors (storage.home vector) vector
      vector.digest.toNat 0 (storage.home vector).size := by
  rw [search, ← slotAt_zero]
  exact explains_probe _ _ _ _ _ _

theorem places_of_place (h : storage.place vector = (next, outcome)) :
    storage.Places vector next outcome := by
  have hsearch := explains_search storage vector
  rw [place] at h
  generalize storage.search vector = ended at h hsearch
  cases ended with
  | found index =>
      cases h
      exact .known hsearch
  | full =>
      cases h
      exact .full fun earlier hless => hsearch earlier (Nat.zero_le _) (by omega)
  | vacant slot =>
      obtain ⟨distance, hlt, rfl, hvacant, hpassed⟩ := hsearch
      have hends : storage.Vacant vector distance :=
        ⟨by omega, hvacant, fun earlier hless => hpassed earlier (Nat.zero_le _) hless⟩
      rw [settle] at h
      split at h
      · next hspent =>
        cases h
        exact .late hspent hends
      · next hroom =>
        cases h
        exact .fresh (Nat.lt_of_not_le hroom) hends

/-! ## Storages in order -/

/-- The slot of a vector lies behind taken slots only. -/
def Findable (stripe : Stripe) (start index : Nat) : Prop :=
  ∃ distance < stripe.size, stripe[slotAt stripe start distance]? = some (some index) ∧
    ∀ earlier < distance, Taken stripe start earlier

structure Sound (storage : Storage) : Prop where
  size_eq : storage.size = storage.vectors.size
  nodup : storage.vectors.toList.Nodup
  findable : ∀ index vector, storage.vectors[index]? = some vector →
    Findable (storage.home vector) vector.digest.toNat index

theorem size_le (storage : Storage) : storage.size ≤ storage.capacity := Nat.min_le_right _ _

theorem sound_create {vectorSize capacity : Nat} (h : create vectorSize capacity = .ok storage) :
    storage.Sound ∧ storage.vectors = #[] ∧ storage.capacity = capacity := by
  unfold create at h
  split at h
  · cases h
  · split at h
    · cases h
    · cases h
      refine ⟨⟨?_, ?_, ?_⟩, rfl, rfl⟩
      · exact Nat.zero_min _
      · simp
      · intro index vector hindex
        simp at hindex

theorem Sound.not_mem_of_vacant (hsound : storage.Sound)
    (hvacant : storage.Vacant vector distance) : vector ∉ storage.vectors := by
  intro hmem
  obtain ⟨index, hindex⟩ := Array.getElem?_of_mem hmem
  obtain ⟨own, -, hslot, htaken⟩ := hsound.findable index vector hindex
  -- its slot would have been passed, or is the vacant one, or lies behind it
  rcases Nat.lt_trichotomy own distance with hless | rfl | hmore
  · obtain ⟨held, hheld, hother⟩ := hvacant.passed own hless
    rw [hslot] at hheld
    cases hheld
    exact hother hindex
  · exact hvacant.vacant ⟨index, hslot⟩
  · exact hvacant.vacant (htaken distance hmore)

/-! ## A new vector -/

theorem stripes_grow : (storage.grow vector distance).stripes =
    storage.stripes.modify (storage.stripeOf vector.digest)
      (·.setIfInBounds (slotAt (storage.home vector) vector.digest.toNat distance)
        (some storage.issued)) := rfl

theorem stripeOf_grow (digest : UInt64) :
    (storage.grow vector distance).stripeOf digest = storage.stripeOf digest := by
  rw [stripeOf, stripeOf, stripes_grow, Array.size_modify]

theorem getD_modify {stripes : Array Stripe} {change : Stripe → Stripe} (hempty : change #[] = #[])
    (number own : Nat) :
    (stripes.modify number change).getD own #[] =
      if number = own then change (stripes.getD own #[]) else stripes.getD own #[] := by
  rw [Array.getD_eq_getD_getElem?, Array.getD_eq_getD_getElem?, Array.getElem?_modify]
  split
  · cases stripes[own]? with
    | none => exact hempty.symm
    | some stripe => rfl
  · rfl

theorem home_grow : (storage.grow vector distance).home other =
    if storage.stripeOf vector.digest = storage.stripeOf other.digest then
      (storage.home other).setIfInBounds
        (slotAt (storage.home vector) vector.digest.toNat distance) (some storage.issued)
    else storage.home other := by
  rw [home, stripeOf_grow, stripes_grow]
  apply getD_modify
  simp

theorem size_home_grow : ((storage.grow vector distance).home other).size =
    (storage.home other).size := by
  rw [home_grow]
  split <;> simp

theorem slotAt_home_grow {start away : Nat} :
    slotAt ((storage.grow vector distance).home other) start away =
      slotAt (storage.home other) start away := by
  rw [slotAt, slotAt, size_home_grow]

/-- The slot that a new vector takes was vacant, so what was there stays there. -/
theorem getElem?_home_grow (hvacant : ¬ Taken (storage.home vector) vector.digest.toNat distance)
    {slot : Nat} (h : (storage.home other)[slot]? = some (some index)) :
    ((storage.grow vector distance).home other)[slot]? = some (some index) := by
  rw [home_grow]
  split
  · next hsame =>
    have hhome : storage.home other = storage.home vector := by rw [home, home, hsame]
    rw [hhome] at h ⊢
    rw [Array.getElem?_setIfInBounds_ne]
    · exact h
    · rintro rfl
      exact hvacant ⟨index, h⟩
  · exact h

theorem Findable.grow (hvacant : ¬ Taken (storage.home vector) vector.digest.toNat distance)
    (h : Findable (storage.home other) start index) :
    Findable ((storage.grow vector distance).home other) start index := by
  obtain ⟨own, hlt, hslot, htaken⟩ := h
  refine ⟨own, by rwa [size_home_grow], ?_, fun earlier hless => ?_⟩
  · rw [slotAt_home_grow]
    exact getElem?_home_grow hvacant hslot
  · obtain ⟨held, hheld⟩ := htaken earlier hless
    refine ⟨held, ?_⟩
    rw [slotAt_home_grow]
    exact getElem?_home_grow hvacant hheld

theorem Sound.size_of_room (hsound : storage.Sound) (hroom : storage.issued < storage.capacity) :
    storage.vectors.size = storage.issued := by
  rw [← hsound.size_eq, size, Nat.min_eq_left (Nat.le_of_lt hroom)]

theorem Sound.grow (hsound : storage.Sound) (hroom : storage.issued < storage.capacity)
    (hvacant : storage.Vacant vector distance) : (storage.grow vector distance).Sound where
  size_eq := by
    have hsize := hsound.size_of_room hroom
    simp only [size, Storage.grow, Array.size_push]
    omega
  nodup := by
    have hnew := hsound.not_mem_of_vacant hvacant
    simp only [Storage.grow, Array.toList_push]
    apply hsound.nodup.append (List.nodup_singleton vector)
    simpa using hnew
  findable := by
    intro index other hindex
    simp only [Storage.grow, Array.getElem?_push] at hindex
    split at hindex
    · next hlast =>
      cases hindex
      refine ⟨distance, by rw [size_home_grow]; exact hvacant.lt, ?_, fun earlier hless => ?_⟩
      · rw [slotAt_home_grow, home_grow, if_pos rfl, hlast, hsound.size_of_room hroom]
        apply Array.getElem?_setIfInBounds_self_of_lt
        exact Nat.mod_lt _ (Nat.zero_lt_of_lt hvacant.lt)
      · obtain ⟨held, hheld, -⟩ := hvacant.passed earlier hless
        refine ⟨held, ?_⟩
        rw [slotAt_home_grow]
        exact getElem?_home_grow hvacant.vacant hheld
    · exact (hsound.findable index other hindex).grow hvacant.vacant

/-- An index that comes too late changes nothing that can be seen. -/
theorem Sound.late (hsound : storage.Sound) (hspent : storage.capacity ≤ storage.issued) :
    ({ storage with issued := storage.issued + 1 } : Storage).Sound where
  size_eq := by
    have hsize := hsound.size_eq
    simp only [size] at hsize ⊢
    omega
  nodup := hsound.nodup
  findable := hsound.findable

/-- An insertion that succeeds keeps the storage in order. Either it finds the vector and changes
nothing, or the vector is new and gets the next index. -/
theorem Sound.place (hsound : storage.Sound)
    (h : storage.place vector = (next, .ok placement)) :
    next.Sound ∧ next.capacity = storage.capacity ∧
      (placement.fresh = false ∧ storage.vectors[placement.index]? = some vector ∧
          next = storage ∨
        placement = ⟨storage.vectors.size, true⟩ ∧ vector ∉ storage.vectors ∧
          next.vectors = storage.vectors.push vector) := by
  cases places_of_place h with
  | known hindex => exact ⟨hsound, rfl, .inl ⟨rfl, hindex, rfl⟩⟩
  | fresh hroom hvacant =>
      rw [hsound.size_of_room hroom]
      exact ⟨hsound.grow hroom hvacant, rfl, .inr ⟨rfl, hsound.not_mem_of_vacant hvacant, rfl⟩⟩

end Hazard.Storage
