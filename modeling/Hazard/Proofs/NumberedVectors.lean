import Hazard.Proofs.Storage
/-!
# A storage is a numbered list of vectors

Seen from outside, a storage is the list of the vectors it has taken in, each under its position.
What a call answers depends on that list, and on the slots only where a stripe is full. A call that
fails may use up an index, but an index beyond the capacity is never looked at again.
-/

namespace Hazard.Storage

variable {storage next left right : Storage} {stripe : Stripe} {vector : Bytes}
  {outcome : Except Exhausted Placement} {vectorSize capacity start slot : Nat} {known : List Bytes}

/-! ## Full stripes -/

/-- A search comes to every slot of its stripe. -/
theorem exists_slotAt (start : Nat) (hslot : slot < stripe.size) :
    ∃ distance < stripe.size, slotAt stripe start distance = slot := by
  have hpos : 0 < stripe.size := Nat.zero_lt_of_lt hslot
  have hstart : start % stripe.size < stripe.size := Nat.mod_lt _ hpos
  refine ⟨(slot + stripe.size - start % stripe.size) % stripe.size, Nat.mod_lt _ hpos, ?_⟩
  have hsum : start % stripe.size + (slot + stripe.size - start % stripe.size) =
      slot + stripe.size := by omega
  rw [slotAt, Nat.add_mod_mod, ← Nat.mod_add_mod, hsum, Nat.add_mod_right, Nat.mod_eq_of_lt hslot]

theorem forall_taken_iff : (∀ distance < stripe.size, Taken stripe start distance) ↔
    ∀ entry ∈ stripe, entry ≠ none := by
  constructor
  · rintro htaken entry hentry rfl
    obtain ⟨slot, hslot⟩ := Array.getElem?_of_mem hentry
    obtain ⟨distance, hlt, rfl⟩ := exists_slotAt start (Array.getElem?_eq_some_iff.1 hslot).1
    obtain ⟨index, hindex⟩ := htaken distance hlt
    rw [hslot] at hindex
    cases hindex
  · intro htaken distance hlt
    have hslot : slotAt stripe start distance < stripe.size :=
      Nat.mod_lt _ (Nat.zero_lt_of_lt hlt)
    have hentry := Array.getElem?_eq_getElem hslot
    obtain ⟨index, hindex⟩ := Option.ne_none_iff_exists'.1
      (htaken _ (Array.mem_of_getElem? hentry))
    exact ⟨index, by rw [hentry, hindex]⟩

def StripeFull (storage : Storage) (vector : Bytes) : Prop :=
  ∃ stripe, storage.stripes[storage.stripeOf vector.digest]? = some stripe ∧
    ∀ entry ∈ stripe, entry ≠ none

theorem powerAbove_pos (n : Nat) : 0 < powerAbove n := by
  unfold powerAbove
  split
  · exact Nat.one_pos
  · rw [Nat.one_shiftLeft]
    exact Nat.two_pow_pos _

theorem stripeCount_pos (capacity : Nat) : 0 < stripeCount capacity := by
  have := powerAbove_pos (max 1 (min 64 (capacity / 1024)))
  unfold stripeCount
  omega

theorem stripeOf_lt (hstripes : 0 < storage.stripes.size) (digest : UInt64) :
    storage.stripeOf digest < storage.stripes.size := by
  rw [stripeOf]
  apply Nat.div_lt_of_lt_mul
  exact Nat.mul_lt_mul_of_pos_right digest.toNat_lt_size hstripes

theorem stripeFull_iff (hstripes : 0 < storage.stripes.size) :
    storage.StripeFull vector ↔ ∀ distance < (storage.home vector).size,
      Taken (storage.home vector) vector.digest.toNat distance := by
  have hhome : storage.stripes[storage.stripeOf vector.digest]? = some (storage.home vector) := by
    have hlt := stripeOf_lt hstripes vector.digest
    rw [home]
    generalize storage.stripeOf vector.digest = number at hlt
    simp [hlt]
  rw [forall_taken_iff, StripeFull, hhome]
  simp

/-! ## One call -/

/-- The storage holds exactly the vectors of a list, each under its position. -/
structure Holds (storage : Storage) (vectorSize capacity : Nat) (known : List Bytes) : Prop where
  sound : storage.Sound
  vectorSize_eq : storage.vectorSize = vectorSize
  capacity_eq : storage.capacity = capacity
  stripes_pos : 0 < storage.stripes.size
  vectors_eq : storage.vectors.toList = known

/-- What an insertion may answer when the vectors of a list are known. -/
structure Answers (storage : Storage) (capacity : Nat) (known : List Bytes) (vector : Bytes)
    (outcome : Except Exhausted Placement) : Prop where
  known_iff : ∀ index, outcome = .ok ⟨index, false⟩ ↔ known[index]? = some vector
  fresh : ∀ index, outcome = .ok ⟨index, true⟩ → vector ∉ known ∧ index = known.length
  fails_iff : (∃ error, outcome = .error error) ↔
    vector ∉ known ∧ (known.length = capacity ∨ storage.StripeFull vector)
  error : ∀ error, outcome = .error error → error = ⟨.state, capacity⟩

def isNew : Except Exhausted Placement → Bool
  | .ok placement => placement.fresh
  | .error _ => false

theorem holds_create (h : create vectorSize capacity = .ok storage) :
    storage.Holds vectorSize capacity [] := by
  obtain ⟨hsound, hempty, hcapacity⟩ := sound_create h
  unfold create at h
  split at h
  · cases h
  · split at h
    · cases h
    · cases h
      refine ⟨hsound, rfl, rfl, ?_, rfl⟩
      rw [Array.size_replicate]
      exact stripeCount_pos capacity

theorem answers_fresh (hroom : known.length < capacity) (hnew : vector ∉ known)
    (hvacant : ¬ storage.StripeFull vector) :
    storage.Answers capacity known vector (.ok ⟨known.length, true⟩) where
  known_iff index := ⟨nofun, fun hindex => absurd (List.mem_of_getElem? hindex) hnew⟩
  fresh index heq := by
    cases heq
    exact ⟨hnew, rfl⟩
  fails_iff := by
    refine ⟨nofun, ?_⟩
    rintro ⟨-, hfull | hfull⟩
    · omega
    · exact absurd hfull hvacant
  error := nofun

theorem answers_error (hnew : vector ∉ known)
    (hfull : known.length = capacity ∨ storage.StripeFull vector) :
    storage.Answers capacity known vector (.error ⟨.state, capacity⟩) where
  known_iff index := ⟨nofun, fun hindex => absurd (List.mem_of_getElem? hindex) hnew⟩
  fresh := nofun
  fails_iff := ⟨fun _ => ⟨hnew, hfull⟩, fun _ => ⟨_, rfl⟩⟩
  error error heq := by
    cases heq
    rfl

namespace Holds

variable (h : storage.Holds vectorSize capacity known)
include h

theorem size_eq : storage.size = known.length := by
  rw [h.sound.size_eq, ← h.vectors_eq, Array.length_toList]

theorem length_le : known.length ≤ capacity := by
  rw [← h.size_eq, ← h.capacity_eq]
  exact storage.size_le

theorem getElem?_eq (index : Nat) : storage.vectors[index]? = known[index]? := by
  rw [← h.vectors_eq, Array.getElem?_toList]

theorem mem_iff : vector ∈ storage.vectors ↔ vector ∈ known := by
  rw [← h.vectors_eq, Array.mem_toList_iff]

theorem get_eq_ok {index : Nat} : storage.get index = .ok vector ↔ known[index]? = some vector := by
  rw [get, h.getElem?_eq]
  cases known[index]? <;> simp

theorem answers_known {index : Nat} (hindex : storage.vectors[index]? = some vector) :
    storage.Answers capacity known vector (.ok ⟨index, false⟩) := by
  rw [h.getElem?_eq] at hindex
  have hmem : vector ∈ known := List.mem_of_getElem? hindex
  constructor
  · intro other
    constructor
    · intro heq
      cases heq
      exact hindex
    · intro hother
      have hnodup : known.Nodup := h.vectors_eq ▸ h.sound.nodup
      have hlt := (List.getElem?_eq_some_iff.1 hindex).1
      have heq := (List.getElem?_inj hlt hnodup).1 (hindex.trans hother.symm)
      rw [heq]
  · nofun
  · exact ⟨nofun, fun hfails => absurd hmem hfails.1⟩
  · nofun

/-- A search that comes to a vacant slot shows its vector to be new and the stripe to have room. -/
theorem of_vacant {distance : Nat} (hvacant : storage.Vacant vector distance) :
    vector ∉ known ∧ ¬ storage.StripeFull vector := by
  constructor
  · rw [← h.mem_iff]
    exact h.sound.not_mem_of_vacant hvacant
  · intro hfull
    exact hvacant.vacant ((stripeFull_iff h.stripes_pos).1 hfull distance hvacant.lt)

/-- A search that passes all slots shows its vector to be new and the stripe to be full. -/
theorem of_passed (hpassed : ∀ earlier < (storage.home vector).size,
      Passed storage.vectors (storage.home vector) vector vector.digest.toNat earlier) :
    vector ∉ known ∧ storage.StripeFull vector := by
  constructor
  · rw [← h.mem_iff]
    intro hmem
    obtain ⟨index, hindex⟩ := Array.getElem?_of_mem hmem
    obtain ⟨own, hlt, hslot, -⟩ := h.sound.findable index vector hindex
    obtain ⟨held, hheld, hother⟩ := hpassed own hlt
    rw [hslot] at hheld
    cases hheld
    exact hother hindex
  · rw [stripeFull_iff h.stripes_pos]
    intro distance hlt
    obtain ⟨held, hheld, -⟩ := hpassed distance hlt
    exact ⟨held, hheld⟩

theorem place (hplace : storage.place vector = (next, outcome)) :
    next.Holds vectorSize capacity (if isNew outcome then known ++ [vector] else known) ∧
      storage.Answers capacity known vector outcome := by
  have hcapacity := h.capacity_eq
  have hsize := h.size_eq
  rw [size] at hsize
  cases places_of_place hplace with
  | known hindex => exact ⟨h, h.answers_known hindex⟩
  | fresh hroom hvacant =>
      obtain ⟨hnew, hopen⟩ := h.of_vacant hvacant
      have hissued : storage.issued = known.length := by omega
      refine ⟨⟨h.sound.grow hroom hvacant, h.vectorSize_eq, hcapacity, ?_, ?_⟩, ?_⟩
      · rw [stripes_grow, Array.size_modify]
        exact h.stripes_pos
      · simp [grow, isNew, h.vectors_eq]
      · rw [hissued]
        exact answers_fresh (by omega) hnew hopen
  | late hspent hvacant =>
      obtain ⟨hnew, -⟩ := h.of_vacant hvacant
      refine ⟨⟨h.sound.late hspent, h.vectorSize_eq, hcapacity, h.stripes_pos, h.vectors_eq⟩, ?_⟩
      rw [hcapacity]
      exact answers_error hnew (.inl (by omega))
  | full hpassed =>
      obtain ⟨hnew, hfull⟩ := h.of_passed hpassed
      refine ⟨h, ?_⟩
      rw [hcapacity]
      exact answers_error hnew (.inr hfull)

theorem insert (hlength : vector.length = vectorSize) :
    ∃ next outcome, storage.insert vector = .ok (next, outcome) ∧
      next.Holds vectorSize capacity (if isNew outcome then known ++ [vector] else known) ∧
      storage.Answers capacity known vector outcome := by
  rw [Storage.insert, if_pos (hlength.trans h.vectorSize_eq.symm)]
  generalize hplace : storage.place vector = placed
  obtain ⟨next, outcome⟩ := placed
  exact ⟨next, outcome, rfl, h.place hplace⟩

end Holds

/-! ## Any sequence of calls -/

def newlyStored (vectors : List Bytes) (outcomes : List (Except Exhausted Placement)) :
    List Bytes :=
  ((vectors.zip outcomes).filter fun call => isNew call.2).map (·.1)

theorem insertAll_cons (hinsert : storage.insert vector = .ok (next, outcome))
    (rest : List Bytes) :
    storage.insertAll (vector :: rest) =
      ((next.insertAll rest).1, (next.insertAll rest).2.map (outcome :: ·)) := by
  rw [insertAll, hinsert]

theorem Holds.insertAll (h : storage.Holds vectorSize capacity known) {vectors : List Bytes}
    (hlengths : ∀ vector ∈ vectors, vector.length = vectorSize) :
    ∃ later outcomes, storage.insertAll vectors = (later, .ok outcomes) ∧
      outcomes.length = vectors.length ∧
      later.Holds vectorSize capacity (known ++ newlyStored vectors outcomes) := by
  induction vectors generalizing storage known with
  | nil => exact ⟨storage, [], rfl, rfl, by simpa [newlyStored] using h⟩
  | cons vector rest ih =>
      obtain ⟨next, outcome, hinsert, hnext, -⟩ := h.insert (hlengths vector (by simp))
      obtain ⟨later, outcomes, hrest, hlength, hlater⟩ :=
        ih hnext fun other hother => hlengths other (by simp [hother])
      refine ⟨later, outcome :: outcomes, ?_, by simp [hlength], ?_⟩
      · rw [insertAll_cons hinsert, hrest]
        rfl
      · cases hnew : isNew outcome with
        | false => simpa [newlyStored, hnew] using hlater
        | true => simpa [newlyStored, hnew] using hlater

/-! ## Calls that fail -/

/-- The storages differ at most in indices that came too late. -/
structure Alike (left right : Storage) : Prop where
  vectorSize : left.vectorSize = right.vectorSize
  capacity : left.capacity = right.capacity
  vectors : left.vectors = right.vectors
  stripes : left.stripes = right.stripes
  issued : left.issued = right.issued ∨
    left.capacity ≤ left.issued ∧ right.capacity ≤ right.issued

namespace Alike

variable (h : Alike left right)
include h

theorem size_eq : left.size = right.size := by
  have hcapacity := h.capacity
  rw [size, size]
  rcases h.issued with hissued | hspent
  · rw [hissued, hcapacity]
  · omega

theorem get_eq (index : Nat) : left.get index = right.get index := by
  rw [get, get, h.vectors]

theorem search_eq (vector : Bytes) : left.search vector = right.search vector := by
  have hhome : left.home vector = right.home vector := by
    rw [home, home, stripeOf, stripeOf, h.stripes]
  rw [search, search, hhome, h.vectors]

theorem settle (vector : Bytes) (ended : Probe) :
    Alike (left.settle vector ended).1 (right.settle vector ended).1 ∧
      (left.settle vector ended).2 = (right.settle vector ended).2 := by
  obtain ⟨size, capacity, issued, vectors, stripes⟩ := left
  obtain ⟨size', capacity', issued', vectors', stripes'⟩ := right
  obtain ⟨rfl, rfl, rfl, rfl, hissued⟩ := h
  dsimp only at hissued
  cases ended with
  | found index => exact ⟨⟨rfl, rfl, rfl, rfl, hissued⟩, rfl⟩
  | full => exact ⟨⟨rfl, rfl, rfl, rfl, hissued⟩, rfl⟩
  | vacant slot =>
      rw [Storage.settle, Storage.settle]
      dsimp only
      rcases hissued with rfl | ⟨hleft, hright⟩
      · split
        · exact ⟨⟨rfl, rfl, rfl, rfl, .inl rfl⟩, rfl⟩
        · exact ⟨⟨rfl, rfl, rfl, rfl, .inl rfl⟩, rfl⟩
      · rw [if_pos hleft, if_pos hright]
        have hspent := And.intro (Nat.le_succ_of_le hleft) (Nat.le_succ_of_le hright)
        exact ⟨⟨rfl, rfl, rfl, rfl, .inr hspent⟩, rfl⟩

theorem insert (vector : Bytes) :
    (∃ next next' outcome, left.insert vector = .ok (next, outcome) ∧
      right.insert vector = .ok (next', outcome) ∧ Alike next next') ∨
      ∃ misuse, left.insert vector = .error misuse ∧ right.insert vector = .error misuse := by
  obtain ⟨hnext, houtcome⟩ := h.settle vector (left.search vector)
  rw [Storage.insert, Storage.insert, place, place, ← h.vectorSize, ← h.search_eq]
  generalize left.settle vector (left.search vector) = placed at hnext houtcome
  generalize right.settle vector (left.search vector) = placed' at hnext houtcome
  obtain ⟨next, outcome⟩ := placed
  obtain ⟨next', outcome'⟩ := placed'
  cases houtcome
  split
  · exact .inl ⟨next, next', outcome, rfl, rfl, hnext⟩
  · exact .inr ⟨_, rfl, rfl⟩

theorem insertAll (vectors : List Bytes) :
    Alike (left.insertAll vectors).1 (right.insertAll vectors).1 ∧
      (left.insertAll vectors).2 = (right.insertAll vectors).2 := by
  induction vectors generalizing left right with
  | nil => exact ⟨h, rfl⟩
  | cons vector rest ih =>
      rcases h.insert vector with ⟨next, next', outcome, hleft, hright, hnext⟩ |
        ⟨misuse, hleft, hright⟩
      · rw [insertAll_cons hleft, insertAll_cons hright]
        obtain ⟨halike, hanswers⟩ := ih hnext
        exact ⟨halike, by rw [hanswers]⟩
      · rw [Storage.insertAll, Storage.insertAll, hleft, hright]
        exact ⟨h, rfl⟩

end Alike

/-- A call that fails leaves at most an index that came too late. -/
theorem alike_of_error {error : Exhausted}
    (hinsert : storage.insert vector = .ok (next, .error error)) : Alike next storage := by
  unfold insert at hinsert
  split at hinsert
  · generalize hplace : storage.place vector = placed at hinsert
    cases hinsert
    cases places_of_place hplace with
    | late hspent hvacant => exact ⟨rfl, rfl, rfl, rfl, .inr ⟨Nat.le_succ_of_le hspent, hspent⟩⟩
    | full hpassed => exact ⟨rfl, rfl, rfl, rfl, .inl rfl⟩
  · cases hinsert

/-- After any sequence of calls a storage holds the vectors that were new, in the order in which
they came: `get` is the view of that list and `size` its length. The next call says whether its
vector is in the list and where, stores it behind the list, or fails, and then no later call can
tell that it was made. -/
theorem insertAll_numbers_vectors (hcreate : create vectorSize capacity = .ok storage)
    (vectors : List Bytes) (hlengths : ∀ vector ∈ vectors, vector.length = vectorSize) :
    ∃ later outcomes, storage.insertAll vectors = (later, .ok outcomes) ∧
      outcomes.length = vectors.length ∧
      later.size = (newlyStored vectors outcomes).length ∧ later.size ≤ capacity ∧
      (∀ index vector, later.get index = .ok vector ↔
        (newlyStored vectors outcomes)[index]? = some vector) ∧
      ∀ vector, vector.length = vectorSize →
        ∃ next outcome, later.insert vector = .ok (next, outcome) ∧
          later.Answers capacity (newlyStored vectors outcomes) vector outcome ∧
          ∀ error, outcome = .error error → ∀ rest,
            (next.insertAll rest).2 = (later.insertAll rest).2 ∧
            (next.insertAll rest).1.size = (later.insertAll rest).1.size ∧
            ∀ index, (next.insertAll rest).1.get index = (later.insertAll rest).1.get index := by
  obtain ⟨later, outcomes, hrun, hlength, hlater⟩ := (holds_create hcreate).insertAll hlengths
  rw [List.nil_append] at hlater
  refine ⟨later, outcomes, hrun, hlength, hlater.size_eq, ?_, fun index vector => hlater.get_eq_ok,
    ?_⟩
  · rw [hlater.size_eq]
    exact hlater.length_le
  · intro vector hvector
    obtain ⟨next, outcome, hinsert, -, hanswers⟩ := hlater.insert hvector
    refine ⟨next, outcome, hinsert, hanswers, ?_⟩
    intro error herror rest
    subst herror
    obtain ⟨halike, hsame⟩ := (alike_of_error hinsert).insertAll rest
    exact ⟨hsame, halike.size_eq, halike.get_eq⟩

/-- Room for two vectors of one byte: the third finds none, and the second is found again. -/
theorem insertAll_numbers_vectors_pair : ∃ storage later,
    create 1 2 = .ok storage ∧
      storage.insertAll [[7], [9], [8], [9]] = (later,
        .ok [.ok ⟨0, true⟩, .ok ⟨1, true⟩, .error ⟨.state, 2⟩, .ok ⟨1, false⟩]) ∧
      later.size = 2 ∧ later.get 1 = .ok [9] := by
  obtain ⟨storage, hcreate⟩ : ∃ storage, create 1 2 = .ok storage := ⟨_, rfl⟩
  have hrun : (storage.insertAll [[7], [9], [8], [9]]).2 =
      .ok [.ok ⟨0, true⟩, .ok ⟨1, true⟩, .error ⟨.state, 2⟩, .ok ⟨1, false⟩] := by
    cases hcreate
    decide +kernel
  obtain ⟨later, outcomes, hall, -, hsize, -, hget, -⟩ :=
    insertAll_numbers_vectors hcreate [[7], [9], [8], [9]] (by decide)
  rw [hall] at hrun
  cases hrun
  exact ⟨storage, later, hcreate, hall, hsize, (hget 1 [9]).2 rfl⟩

end Hazard.Storage
