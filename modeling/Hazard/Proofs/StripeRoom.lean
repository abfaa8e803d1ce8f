import Hazard.Proofs.NumberedVectors
import Mathlib.Combinatorics.Pigeonhole
/-!
# Room in the stripes

A storage gives out as many indices as its capacity says, but a new vector also needs a slot in the
stripe that its digest chooses. Vectors of other stripes cannot lend it one. So of distinct vectors,
as many as the capacity at most, exactly those are refused whose stripe has been chosen by a
stripe's worth of vectors before them. With four stripes or more that can happen long before the
capacity is reached.
-/

namespace Hazard.Storage

variable {storage next : Storage} {stripe : Stripe} {vector other : Bytes}
  {outcome : Except Exhausted Placement} {vectorSize capacity start slot index distance : Nat}
  {known offered vectors : List Bytes}

/-! ## Taken slots -/

def occupied (stripe : Stripe) : Nat := stripe.countP Option.isSome

theorem occupied_eq_size_iff :
    occupied stripe = stripe.size ↔ ∀ entry ∈ stripe, entry ≠ none := by
  simp [occupied, Array.countP_eq_size, Option.isSome_iff_ne_none]

theorem occupied_setIfInBounds (hslot : stripe[slot]? = some none) :
    occupied (stripe.setIfInBounds slot (some index)) = occupied stripe + 1 := by
  obtain ⟨hlt, hvacant⟩ := Array.getElem?_eq_some_iff.1 hslot
  rw [Array.setIfInBounds_def, dif_pos hlt, occupied, occupied, Array.countP_set, hvacant]
  rfl

theorem stripeFull_iff_occupied (hstripes : 0 < storage.stripes.size) :
    storage.StripeFull vector ↔
      occupied (storage.home vector) = (storage.home vector).size := by
  rw [stripeFull_iff hstripes, forall_taken_iff, occupied_eq_size_iff]

/-! ## One insertion -/

theorem getElem?_of_not_taken (hlt : distance < stripe.size)
    (hvacant : ¬ Taken stripe start distance) :
    stripe[slotAt stripe start distance]? = some none := by
  have hslot : slotAt stripe start distance < stripe.size :=
    Nat.mod_lt _ (Nat.zero_lt_of_lt hlt)
  rw [Array.getElem?_eq_getElem hslot]
  cases hheld : stripe[slotAt stripe start distance] with
  | none => rfl
  | some index => exact absurd ⟨index, by rw [Array.getElem?_eq_getElem hslot, hheld]⟩ hvacant

theorem occupied_home_grow (hvacant : storage.Vacant vector distance) :
    occupied ((storage.grow vector distance).home other) = occupied (storage.home other) +
      if storage.stripeOf vector.digest = storage.stripeOf other.digest then 1 else 0 := by
  rw [home_grow]
  by_cases hsame : storage.stripeOf vector.digest = storage.stripeOf other.digest
  · have hhome : storage.home other = storage.home vector := by rw [home, home, hsame]
    rw [if_pos hsame, if_pos hsame, hhome]
    exact occupied_setIfInBounds (getElem?_of_not_taken hvacant.lt hvacant.vacant)
  · rw [if_neg hsame, if_neg hsame, Nat.add_zero]

namespace Places

variable (h : storage.Places vector next outcome)
include h

theorem size_stripes : next.stripes.size = storage.stripes.size := by
  cases h with
  | fresh hroom hvacant => rw [stripes_grow, Array.size_modify]
  | _ => rfl

theorem size_home (other : Bytes) : (next.home other).size = (storage.home other).size := by
  cases h with
  | fresh hroom hvacant => exact size_home_grow
  | _ => rfl

theorem occupied_home (other : Bytes) :
    occupied (next.home other) = occupied (storage.home other) +
      if isNew outcome = true ∧ storage.stripeOf vector.digest = storage.stripeOf other.digest
      then 1 else 0 := by
  cases h with
  | fresh hroom hvacant =>
      rw [occupied_home_grow hvacant]
      simp [isNew]
  | _ => simp [isNew, home, stripeOf]

end Places

/-! ## Distinct vectors -/

def stripeFor (capacity : Nat) (vector : Bytes) : Nat :=
  vector.digest.toNat * stripeCount capacity / UInt64.size

theorem stripeOf_eq_stripeFor (h : storage.stripes.size = stripeCount capacity) (vector : Bytes) :
    storage.stripeOf vector.digest = stripeFor capacity vector := by
  rw [stripeOf, h, stripeFor]

theorem stripeFor_lt (capacity : Nat) (vector : Bytes) :
    stripeFor capacity vector < stripeCount capacity := by
  rw [stripeFor]
  apply Nat.div_lt_of_lt_mul
  exact Nat.mul_lt_mul_of_pos_right vector.digest.toNat_lt_size (stripeCount_pos capacity)

/-- How many vectors of a list have chosen the stripe of a vector. -/
def crowd (capacity : Nat) (vectors : List Bytes) (vector : Bytes) : Nat :=
  vectors.countP fun other => stripeFor capacity other = stripeFor capacity vector

theorem crowd_append_singleton (capacity : Nat) (vectors : List Bytes) (last vector : Bytes) :
    crowd capacity (vectors ++ [last]) vector = crowd capacity vectors vector +
      if stripeFor capacity last = stripeFor capacity vector then 1 else 0 := by
  simp [crowd, List.countP_append, List.countP_singleton]

theorem crowd_congr (h : stripeFor capacity vector = stripeFor capacity other)
    (vectors : List Bytes) : crowd capacity vectors vector = crowd capacity vectors other := by
  rw [crowd, crowd, h]

/-- What becomes of a new vector when so many others have chosen its stripe. -/
def Fate (capacity rivals : Nat) (outcome : Except Exhausted Placement) : Prop :=
  if rivals < stripeSize capacity then ∃ index, outcome = .ok ⟨index, true⟩
  else outcome = .error ⟨.state, capacity⟩

theorem Fate.isNew_iff {rivals : Nat} (h : Fate capacity rivals outcome) :
    isNew outcome = true ↔ rivals < stripeSize capacity := by
  unfold Fate at h
  split at h
  · next hroom =>
    obtain ⟨index, rfl⟩ := h
    exact ⟨fun _ => hroom, fun _ => rfl⟩
  · next hfull =>
    subst h
    exact ⟨nofun, fun hroom => absurd hroom hfull⟩

/-- The storage has been offered the vectors of a list and knows some of them. A stripe has taken
in the vectors that chose it, until it was full. -/
structure Offered (storage : Storage) (vectorSize capacity : Nat) (known offered : List Bytes) :
    Prop where
  holds : storage.Holds vectorSize capacity known
  sublist : known.Sublist offered
  size_stripes : storage.stripes.size = stripeCount capacity
  size_home : ∀ vector, (storage.home vector).size = stripeSize capacity
  occupied_home : ∀ vector, occupied (storage.home vector) =
    min (crowd capacity offered vector) (stripeSize capacity)

theorem stripes_of_create (h : create vectorSize capacity = .ok storage) :
    storage.stripes =
      Array.replicate (stripeCount capacity) (Array.replicate (stripeSize capacity) none) := by
  unfold create at h
  split at h
  · cases h
  · split at h
    · cases h
    · cases h
      rfl

theorem offered_create (h : create vectorSize capacity = .ok storage) :
    storage.Offered vectorSize capacity [] [] := by
  have hstripes := stripes_of_create h
  have hsize : storage.stripes.size = stripeCount capacity := by
    rw [hstripes, Array.size_replicate]
  have hhome (vector : Bytes) :
      storage.home vector = Array.replicate (stripeSize capacity) none := by
    rw [home, stripeOf_eq_stripeFor hsize, hstripes]
    have hlt := stripeFor_lt capacity vector
    generalize stripeFor capacity vector = number at hlt
    simp [hlt]
  refine ⟨holds_create h, .refl [], hsize, fun vector => ?_, fun vector => ?_⟩
  · rw [hhome, Array.size_replicate]
  · rw [hhome]
    simp [occupied, crowd, Array.countP_replicate]

namespace Offered

variable (h : storage.Offered vectorSize capacity known offered)
include h

theorem stripeFull_iff :
    storage.StripeFull vector ↔ stripeSize capacity ≤ crowd capacity offered vector := by
  rw [stripeFull_iff_occupied h.holds.stripes_pos, h.size_home, h.occupied_home]
  omega

/-- While indices are left, a vector that was not offered before is stored unless its stripe is
full. -/
theorem fate (hnew : vector ∉ offered) (hroom : offered.length < capacity)
    (hplace : storage.place vector = (next, outcome)) :
    Fate capacity (crowd capacity offered vector) outcome := by
  have hunknown : vector ∉ known := fun hmem => hnew (h.sublist.mem hmem)
  have hissued : storage.issued < capacity := by
    have hlength := h.sublist.length_le
    have hsize := h.holds.size_eq
    have hcapacity := h.holds.capacity_eq
    rw [size] at hsize
    omega
  rw [Fate]
  cases places_of_place hplace with
  | known hindex => exact absurd (h.holds.mem_iff.1 (Array.mem_of_getElem? hindex)) hunknown
  | fresh hleft hvacant =>
      have hopen := (h.holds.of_vacant hvacant).2
      rw [h.stripeFull_iff] at hopen
      rw [if_pos (Nat.lt_of_not_le hopen)]
      exact ⟨_, rfl⟩
  | late hspent hvacant =>
      rw [h.holds.capacity_eq] at hspent
      omega
  | full hpassed =>
      have hfull := (h.holds.of_passed hpassed).2
      rw [h.stripeFull_iff] at hfull
      rw [if_neg (Nat.not_lt_of_le hfull), h.holds.capacity_eq]

theorem place (hnew : vector ∉ offered) (hroom : offered.length < capacity)
    (hplace : storage.place vector = (next, outcome)) :
    ∃ known, next.Offered vectorSize capacity known (offered ++ [vector]) := by
  have hplaces := places_of_place hplace
  have hfate := (h.fate hnew hroom hplace).isNew_iff
  refine ⟨_, (h.holds.place hplace).1, ?_, hplaces.size_stripes.trans h.size_stripes,
    fun other => (hplaces.size_home other).trans (h.size_home other), fun other => ?_⟩
  · split
    · exact h.sublist.append (.refl _)
    · exact h.sublist.trans (List.sublist_append_left _ _)
  · rw [hplaces.occupied_home, h.occupied_home, crowd_append_singleton,
      stripeOf_eq_stripeFor h.size_stripes, stripeOf_eq_stripeFor h.size_stripes]
    by_cases hsame : stripeFor capacity vector = stripeFor capacity other
    · rw [crowd_congr hsame] at hfate
      simp only [hsame, and_true, hfate, if_true]
      split <;> omega
    · simp [hsame]

theorem insertAll (hlengths : ∀ vector ∈ vectors, vector.length = vectorSize)
    (hnodup : (offered ++ vectors).Nodup) (hroom : (offered ++ vectors).length ≤ capacity) :
    ∃ later outcomes, storage.insertAll vectors = (later, .ok outcomes) ∧
      outcomes.length = vectors.length ∧
      ∀ position vector outcome, vectors[position]? = some vector →
        outcomes[position]? = some outcome →
        Fate capacity (crowd capacity (offered ++ vectors.take position) vector) outcome := by
  induction vectors generalizing storage known offered with
  | nil => exact ⟨storage, [], rfl, rfl, nofun⟩
  | cons first rest ih =>
      have hsplit : offered ++ first :: rest = (offered ++ [first]) ++ rest := by simp
      have hnew : first ∉ offered := by
        intro hmem
        exact (List.nodup_append.1 hnodup).2.2 first hmem first (by simp) rfl
      have hleft : offered.length < capacity := by
        rw [List.length_append, List.length_cons] at hroom
        omega
      generalize hplace : storage.place first = placed
      obtain ⟨next, outcome⟩ := placed
      have hinsert : storage.insert first = .ok (next, outcome) := by
        have hlength : first.length = storage.vectorSize :=
          (hlengths first (by simp)).trans h.holds.vectorSize_eq.symm
        rw [Storage.insert, if_pos hlength, hplace]
      obtain ⟨known', hnext⟩ := h.place hnew hleft hplace
      rw [hsplit] at hnodup hroom
      obtain ⟨later, outcomes, hrest, hlength, hfates⟩ :=
        ih hnext (fun other hother => hlengths other (by simp [hother])) hnodup hroom
      refine ⟨later, outcome :: outcomes, ?_, by simp [hlength], ?_⟩
      · rw [insertAll_cons hinsert, hrest]
        rfl
      · intro position vector answer hvector hanswer
        cases position with
        | zero =>
            cases hvector
            cases hanswer
            rw [List.take_zero, List.append_nil]
            exact h.fate hnew hleft hplace
        | succ position =>
            rw [List.getElem?_cons_succ] at hvector hanswer
            have hfate := hfates position vector answer hvector hanswer
            rwa [List.append_assoc, List.singleton_append] at hfate

end Offered

theorem crowd_take_lt {position : Nat} (hvector : vectors[position]? = some vector) :
    crowd capacity (vectors.take position) vector < crowd capacity vectors vector := by
  obtain ⟨hlt, hget⟩ := List.getElem?_eq_some_iff.1 hvector
  have hsplit : vectors = vectors.take position ++ vector :: vectors.drop (position + 1) := by
    rw [← hget, List.getElem_cons_drop, List.take_append_drop]
  have hcount : crowd capacity vectors vector = crowd capacity (vectors.take position) vector +
      (crowd capacity (vectors.drop (position + 1)) vector + 1) := by
    conv => lhs; rw [hsplit]
    simp [crowd]
  omega

/-- A crowd grows one by one. -/
theorem exists_crowd_take {count : Nat} (h : count < crowd capacity vectors vector) :
    ∃ position other, vectors[position]? = some other ∧
      crowd capacity (vectors.take position) other = count := by
  induction vectors using List.reverseRecOn with
  | nil => exact absurd h (Nat.not_lt_zero _)
  | append_singleton earlier last ih =>
      by_cases hearlier : count < crowd capacity earlier vector
      · obtain ⟨position, other, hother, hcrowd⟩ := ih hearlier
        have hlt := (List.getElem?_eq_some_iff.1 hother).1
        refine ⟨position, other, ?_, ?_⟩
        · rwa [List.getElem?_append_left hlt]
        · rwa [List.take_append_of_le_length (Nat.le_of_lt hlt)]
      · rw [crowd_append_singleton] at h
        split at h
        · next hlast =>
          refine ⟨earlier.length, last, List.getElem?_concat_length, ?_⟩
          rw [List.take_left', crowd_congr hlast]
          · omega
          · rfl
        · omega

theorem forall_isNew_iff {outcomes : List (Except Exhausted Placement)}
    (hlength : outcomes.length = vectors.length)
    (hfates : ∀ position vector outcome, vectors[position]? = some vector →
      outcomes[position]? = some outcome →
      Fate capacity (crowd capacity (vectors.take position) vector) outcome) :
    (∀ outcome ∈ outcomes, isNew outcome = true) ↔
      ∀ vector ∈ vectors, crowd capacity vectors vector ≤ stripeSize capacity := by
  constructor
  · intro hstored vector _
    apply Nat.le_of_not_lt
    intro hcrowded
    obtain ⟨position, other, hother, hcrowd⟩ := exists_crowd_take hcrowded
    have hlt : position < outcomes.length := by
      rw [hlength]
      exact (List.getElem?_eq_some_iff.1 hother).1
    have hfate := hfates position other _ hother (List.getElem?_eq_getElem hlt)
    have hroom := hfate.isNew_iff.1 (hstored _ (List.getElem_mem hlt))
    omega
  · intro hspread outcome hmem
    obtain ⟨position, hanswer⟩ := List.getElem?_of_mem hmem
    have hlt : position < vectors.length := by
      rw [← hlength]
      exact (List.getElem?_eq_some_iff.1 hanswer).1
    have hvector := List.getElem?_eq_getElem hlt
    apply (hfates position _ outcome hvector hanswer).isNew_iff.2
    calc crowd capacity (vectors.take position) vectors[position]
      _ < crowd capacity vectors vectors[position] := crowd_take_lt hvector
      _ ≤ stripeSize capacity := hspread _ (List.getElem_mem hlt)

/-! ## How large a stripe is -/

theorem le_powerAbove (n : Nat) : n ≤ powerAbove n := by
  unfold powerAbove
  split
  · assumption
  · rw [Nat.one_shiftLeft]
    have := Nat.lt_log2_self (n := n - 1)
    omega

theorem powerAbove_eq {n k : Nat} (hfrom : 1 <<< k < n) (hto : n ≤ 1 <<< (k + 1)) :
    powerAbove n = 1 <<< (k + 1) := by
  have hpos := Nat.two_pow_pos k
  rw [Nat.one_shiftLeft] at hfrom hto
  have hlog : Nat.log2 (n - 1) = k := by
    rw [Nat.log2_eq_iff (by omega)]
    omega
  rw [powerAbove, if_neg (by omega), hlog]

theorem powerAbove_lt {n : Nat} (h : 0 < n) : powerAbove n < 2 * n := by
  unfold powerAbove
  split
  · omega
  · rw [Nat.one_shiftLeft, Nat.pow_succ]
    have := Nat.log2_self_le (n := n - 1) (by omega)
    omega

theorem stripeCount_le_two (h : capacity < 3072) : stripeCount capacity ≤ 2 := by
  have hblocks : capacity / 1024 < 3 := by omega
  have hsmall : ∀ blocks < 3, min (powerAbove (max 1 (min 64 blocks))) 64 ≤ 2 := by decide
  exact hsmall _ hblocks

theorem stripeCount_eq_four (hfrom : 3072 ≤ capacity) (hto : capacity < 5120) :
    stripeCount capacity = 4 := by
  have hblocks : capacity / 1024 = 3 ∨ capacity / 1024 = 4 := by omega
  unfold stripeCount
  rcases hblocks with hblocks | hblocks <;> rw [hblocks] <;> rfl

theorem five_le_stripeCount (h : 5120 ≤ capacity) : 5 ≤ stripeCount capacity := by
  have := le_powerAbove (max 1 (min 64 (capacity / 1024)))
  unfold stripeCount
  omega

/-- With one stripe or two, and where the size of four stripes has just been doubled, a single
stripe has room for the whole capacity. -/
theorem capacity_le_stripeSize_iff :
    capacity ≤ stripeSize capacity ↔
      capacity < 3072 ∨ 4066 ≤ capacity ∧ capacity ≤ 4096 := by
  rw [stripeSize]
  rcases Nat.lt_or_ge capacity 3072 with hless | hfrom
  · have hhalf : 2 * capacity / 2 ≤ 2 * capacity / stripeCount capacity :=
      Nat.div_le_div_left (stripeCount_le_two hless) (stripeCount_pos capacity)
    have := le_powerAbove (2 * capacity / stripeCount capacity + 16)
    omega
  rcases Nat.lt_or_ge capacity 5120 with hto | hfrom
  · rw [stripeCount_eq_four hfrom hto]
    by_cases hdoubled : capacity < 4066
    · rw [powerAbove_eq (k := 10) (by omega) (by omega)]
      omega
    · rw [powerAbove_eq (k := 11) (by omega) (by omega)]
      omega
  · have hfifth : 2 * capacity / stripeCount capacity ≤ 2 * capacity / 5 :=
      Nat.div_le_div_left (five_le_stripeCount hfrom) (by decide)
    generalize 2 * capacity / stripeCount capacity = share at hfifth
    have := powerAbove_lt (n := share + 16) (by omega)
    omega

/-! ## A crowded stripe -/

/-- Many vectors leave some stripe with more than its share. -/
theorem exists_crowd {share : Nat} (hnodup : vectors.Nodup)
    (hmany : stripeCount capacity * share < vectors.length) :
    ∃ vector, share < crowd capacity vectors vector := by
  have hmaps : ∀ vector ∈ vectors.toFinset,
      stripeFor capacity vector ∈ Finset.range (stripeCount capacity) :=
    fun vector _ => Finset.mem_range.2 (stripeFor_lt capacity vector)
  obtain ⟨number, -, hfiber⟩ := Finset.exists_lt_card_fiber_of_mul_lt_card_of_maps_to hmaps
    (n := share) (by rwa [Finset.card_range, List.toFinset_card_of_nodup hnodup])
  obtain ⟨vector, hvector⟩ := Finset.card_pos.1 (Nat.zero_lt_of_lt hfiber)
  have hchosen : {other ∈ vectors.toFinset | stripeFor capacity other = number} =
      (vectors.filter fun other =>
        stripeFor capacity other = stripeFor capacity vector).toFinset := by
    rw [(Finset.mem_filter.1 hvector).2]
    ext other
    simp
  rw [hchosen, List.toFinset_card_of_nodup (hnodup.filter _),
    ← List.countP_eq_length_filter] at hfiber
  exact ⟨vector, hfiber⟩

theorem crowd_eq_length
    (h : ∀ other ∈ vectors, stripeFor capacity other = stripeFor capacity vector) :
    crowd capacity vectors vector = vectors.length := by
  rw [crowd, List.countP_eq_length]
  simpa using h

/-- The slots of a stripe are not enough for one vector more. -/
theorem refused_of_same_stripe {leader : Bytes} (hcreate : create vectorSize capacity = .ok storage)
    (hlengths : ∀ vector ∈ vectors, vector.length = vectorSize) (hnodup : vectors.Nodup)
    (hsame : ∀ vector ∈ vectors, stripeFor capacity vector = stripeFor capacity leader)
    (hlength : vectors.length = stripeSize capacity + 1) (hsmall : stripeSize capacity < capacity) :
    ∃ later outcomes, storage.insertAll vectors = (later, .ok outcomes) ∧
      outcomes[stripeSize capacity]? = some (.error ⟨.state, capacity⟩) := by
  obtain ⟨later, outcomes, hrun, hcount, hfates⟩ :=
    (offered_create hcreate).insertAll hlengths hnodup (by rw [List.nil_append]; omega)
  refine ⟨later, outcomes, hrun, ?_⟩
  have hlast : stripeSize capacity < vectors.length := by omega
  have hanswer : stripeSize capacity < outcomes.length := by omega
  have hrivals : crowd capacity (vectors.take (stripeSize capacity)) vectors[stripeSize capacity] =
      stripeSize capacity := by
    rw [crowd_eq_length, List.length_take, Nat.min_eq_left (Nat.le_of_lt hlast)]
    intro other hother
    rw [hsame other (List.mem_of_mem_take hother), hsame _ (List.getElem_mem hlast)]
  have hfate := hfates _ _ _ (List.getElem?_eq_getElem hlast) (List.getElem?_eq_getElem hanswer)
  rw [List.nil_append, hrivals, Fate, if_neg (Nat.lt_irrefl _)] at hfate
  rw [List.getElem?_eq_getElem hanswer, hfate]

/-- Where a stripe has fewer slots than the capacity says, enough vectors to choose from contain
some that do not fit into their stripe, although they are no more than the capacity. -/
theorem exists_refused (hcreate : create vectorSize capacity = .ok storage)
    (hlengths : ∀ vector ∈ vectors, vector.length = vectorSize) (hnodup : vectors.Nodup)
    (hmany : stripeCount capacity * stripeSize capacity < vectors.length)
    (hsmall : stripeSize capacity < capacity) :
    ∃ chosen later outcomes, chosen.Sublist vectors ∧ chosen.length = stripeSize capacity + 1 ∧
      storage.insertAll chosen = (later, .ok outcomes) ∧
      outcomes[stripeSize capacity]? = some (.error ⟨.state, capacity⟩) := by
  obtain ⟨leader, hcrowd⟩ := exists_crowd hnodup hmany
  rw [crowd, List.countP_eq_length_filter] at hcrowd
  obtain ⟨chosen, hchosen, hlength⟩ : ∃ chosen : List Bytes, chosen.Sublist
      (vectors.filter fun other => stripeFor capacity other = stripeFor capacity leader) ∧
      chosen.length = stripeSize capacity + 1 :=
    ⟨_, List.take_sublist _ _, List.length_take_of_le hcrowd⟩
  have hsublist : chosen.Sublist vectors := hchosen.trans List.filter_sublist
  have hsame : ∀ vector ∈ chosen, stripeFor capacity vector = stripeFor capacity leader := by
    intro vector hmem
    exact of_decide_eq_true (List.mem_filter.1 (hchosen.mem hmem)).2
  obtain ⟨later, outcomes, hrun, hrefused⟩ := refused_of_same_stripe hcreate
    (fun vector hmem => hlengths vector (hsublist.mem hmem)) (hsublist.nodup hnodup) hsame hlength
    hsmall
  exact ⟨chosen, later, outcomes, hsublist, hlength, hrun, hrefused⟩

/-! ## Calls within the capacity -/

def pairs (count : Nat) : List Bytes :=
  (List.range count).map fun number => [number.toUInt8, (number / 256).toUInt8]

theorem length_of_mem_pairs {count : Nat} : ∀ vector ∈ pairs count, vector.length = 2 := by
  simp [pairs]

theorem nodup_pairs {count : Nat} (hcount : count ≤ 65536) : (pairs count).Nodup := by
  refine List.Nodup.map_on ?_ List.nodup_range
  intro left hleft right hright heq
  rw [List.mem_range] at hleft hright
  obtain ⟨hlow, hrest⟩ := List.cons.inj heq
  have hlow := congrArg UInt8.toNat hlow
  have hhigh := congrArg UInt8.toNat (List.cons.inj hrest).1
  simp only [Nat.toUInt8_eq, UInt8.toNat_ofNat'] at hlow hhigh
  omega

/-- Distinct vectors, no more than the capacity, are offered to a new storage. A vector is stored
exactly if the vectors before it have left a slot in its stripe, so all of them are stored exactly
if no stripe is chosen by more vectors than it has slots. Where a stripe has as many slots as the
capacity says, which is so below 3072 and in a narrow range above, nothing is refused. -/
theorem insertAll_stores_until_stripe_full (hcreate : create vectorSize capacity = .ok storage)
    (vectors : List Bytes) (hlengths : ∀ vector ∈ vectors, vector.length = vectorSize)
    (hnodup : vectors.Nodup) (hroom : vectors.length ≤ capacity) :
    ∃ later outcomes, storage.insertAll vectors = (later, .ok outcomes) ∧
      outcomes.length = vectors.length ∧
      (∀ position vector outcome, vectors[position]? = some vector →
        outcomes[position]? = some outcome →
        Fate capacity (crowd capacity (vectors.take position) vector) outcome) ∧
      ((∀ outcome ∈ outcomes, isNew outcome = true) ↔
        ∀ vector ∈ vectors, crowd capacity vectors vector ≤ stripeSize capacity) ∧
      (capacity ≤ stripeSize capacity → ∀ outcome ∈ outcomes, isNew outcome = true) ∧
      (capacity ≤ stripeSize capacity ↔
        capacity < 3072 ∨ 4066 ≤ capacity ∧ capacity ≤ 4096) := by
  obtain ⟨later, outcomes, hrun, hlength, hfates⟩ :=
    (offered_create hcreate).insertAll hlengths hnodup hroom
  have hall := forall_isNew_iff hlength hfates
  refine ⟨later, outcomes, hrun, hlength, hfates, hall, fun hlarge => hall.2 fun vector _ => ?_,
    capacity_le_stripeSize_iff⟩
  calc crowd capacity vectors vector
    _ ≤ vectors.length := List.countP_le_length
    _ ≤ capacity := hroom
    _ ≤ stripeSize capacity := hlarge

theorem insertAll_stores_until_stripe_full_pairs : ∃ storage later outcomes,
    create 2 4096 = .ok storage ∧ storage.insertAll (pairs 4096) = (later, .ok outcomes) ∧
      outcomes.length = 4096 ∧ ∀ outcome ∈ outcomes, isNew outcome = true := by
  obtain ⟨storage, hcreate⟩ : ∃ storage, create 2 4096 = .ok storage := ⟨_, rfl⟩
  have hlength : (pairs 4096).length = 4096 := by simp [pairs]
  obtain ⟨later, outcomes, hrun, hcount, -, -, hstored, hlarge⟩ :=
    insertAll_stores_until_stripe_full hcreate (pairs 4096) length_of_mem_pairs
      (nodup_pairs (by decide)) (Nat.le_of_eq hlength)
  exact ⟨storage, later, outcomes, hcreate, hrun, hcount.trans hlength,
    hstored (hlarge.2 (by decide))⟩

/-- Among the first 8193 vectors of two bytes there are 2049 that choose the same one of four
stripes, which has 2048 slots: the last of them is refused, although the storage was made for 3072
vectors. -/
theorem insertAll_refuses_below_capacity : ∃ storage vectors later outcomes,
    create 2 3072 = .ok storage ∧ vectors.Nodup ∧ (∀ vector ∈ vectors, vector.length = 2) ∧
      vectors.length = 2049 ∧ storage.insertAll vectors = (later, .ok outcomes) ∧
      outcomes[2048]? = some (.error ⟨.state, 3072⟩) := by
  obtain ⟨storage, hcreate⟩ : ∃ storage, create 2 3072 = .ok storage := ⟨_, rfl⟩
  have hslots : stripeSize 3072 = 2048 := by decide
  have hmany : stripeCount 3072 * stripeSize 3072 < (pairs 8193).length := by
    rw [pairs, List.length_map, List.length_range]
    decide
  have hnodup : (pairs 8193).Nodup := nodup_pairs (by decide)
  obtain ⟨chosen, later, outcomes, hsublist, hlength, hrun, hrefused⟩ :=
    exists_refused hcreate length_of_mem_pairs hnodup hmany (by decide)
  rw [hslots] at hlength hrefused
  exact ⟨storage, chosen, later, outcomes, hcreate, hsublist.nodup hnodup,
    fun vector hmem => length_of_mem_pairs vector (hsublist.mem hmem), hlength, hrun, hrefused⟩

end Hazard.Storage
