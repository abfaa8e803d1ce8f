import Hazard.Proofs.LinkedChains
/-!
# By first appearance

Choices, pairs of target and label, and merged transitions are all listed by first appearance. A
batch is gathered: every pair once, with what the batch adds up for it. Merging a batch step by step
gathers it, and keeps the choices apart where it has to.
-/

namespace Hazard

section

variable {β : Type} [BEq β] {known found : List β} {value : β}

def discover (known found : List β) : List β :=
  found.foldl (fun seen next => if seen.contains next then seen else seen ++ [next]) known

theorem discover_cons (known found : List β) (value : β) :
    discover known (value :: found) = discover (discover known [value]) found :=
  rfl

theorem discover_append (known found more : List β) :
    discover known (found ++ more) = discover (discover known found) more :=
  List.foldl_append

variable [LawfulBEq β]

theorem discover_singleton_of_mem (hmem : value ∈ known) : discover known [value] = known := by
  simp [discover, hmem]

theorem discover_singleton_of_not_mem (hmem : value ∉ known) :
    discover known [value] = known ++ [value] := by
  simp [discover, hmem]

theorem discover_eq_append (known found : List β) :
    discover known found = known ++ (found.filter (!known.contains ·)).eraseDups := by
  induction found generalizing known with
  | nil => simp [discover]
  | cons value found ih =>
      rw [discover_cons]
      by_cases hmem : value ∈ known
      · rw [discover_singleton_of_mem hmem, ih, List.filter_cons_of_neg (by simpa using hmem)]
      · rw [discover_singleton_of_not_mem hmem, ih, List.filter_cons_of_pos (by simpa using hmem),
          List.eraseDups_cons, List.filter_filter, List.append_assoc, List.singleton_append]
        congr 3
        apply List.filter_congr
        intro other _
        by_cases heq : other = value <;> simp [heq, hmem]

theorem discover_nil (found : List β) : discover [] found = found.eraseDups := by
  rw [discover_eq_append, List.nil_append, List.filter_eq_self.2 (by simp)]

@[simp] theorem mem_discover : value ∈ discover known found ↔ value ∈ known ∨ value ∈ found := by
  rw [discover_eq_append, List.mem_append, List.mem_eraseDups, List.mem_filter]
  by_cases hmem : value ∈ known <;> simp [hmem]

theorem isPrefix_discover (known found : List β) : known <+: discover known found := by
  rw [discover_eq_append]
  exact List.prefix_append ..

theorem nodup_discover (hknown : known.Nodup) (found : List β) : (discover known found).Nodup := by
  induction found generalizing known with
  | nil => exact hknown
  | cons value found ih =>
      rw [discover_cons]
      apply ih
      by_cases hmem : value ∈ known
      · rwa [discover_singleton_of_mem hmem]
      · rw [discover_singleton_of_not_mem hmem]
        refine List.nodup_append.2 ⟨hknown, by simp, ?_⟩
        intro other hother added hadded heq
        rw [heq, List.mem_singleton.1 hadded] at hother
        exact hmem hother

theorem nodup_eraseDups (found : List β) : found.eraseDups.Nodup := by
  rw [← discover_nil]
  exact nodup_discover List.nodup_nil found

end

theorem Distribution.choices_eq (ids : List Nat) : choices ids = ids.eraseDups :=
  discover_nil ids

variable {α : Type}

def Transition.pair (transition : Transition α) : Nat × Label :=
  (transition.target, transition.label)

def Transition.entry (transition : Transition α) : (Nat × Label) × α :=
  (transition.pair, transition.probability)

variable [Scalar α] {merging : Merging} {batch contents : List (Transition α)}

def Scalar.addUp : List α → α
  | [] => 0
  | first :: rest => rest.foldl (· + ·) first

/-- Every key of a batch once, by first appearance, with the probabilities of its transitions added
up in order. -/
def gatherBy {κ : Type} [BEq κ] (key : Transition α → κ) (batch : List (Transition α)) :
    List (κ × α) :=
  (batch.map key).eraseDups.map fun value =>
    (value, Scalar.addUp ((batch.filter (key · == value)).map (·.probability)))

theorem gatherBy_cons {κ : Type} [BEq κ] [LawfulBEq κ] (key : Transition α → κ)
    (transition : Transition α) (rest : List (Transition α)) :
    gatherBy key (transition :: rest) =
      (key transition, ((rest.filter (key · == key transition)).map (·.probability)).foldl
        (· + ·) transition.probability) ::
      gatherBy key (rest.filter (!key · == key transition)) := by
  rw [gatherBy, List.map_cons, List.eraseDups_cons, List.map_cons,
    List.filter_cons_of_pos (by simp), List.filter_map]
  refine congrArg₂ _ rfl (List.map_congr_left fun value hvalue => ?_)
  have hne : value ≠ key transition := by
    simp only [List.mem_eraseDups, List.mem_map, List.mem_filter] at hvalue
    obtain ⟨other, ⟨-, hother⟩, rfl⟩ := hvalue
    simpa using hother
  rw [List.filter_cons_of_neg (by simpa using hne.symm), List.filter_filter]
  refine congrArg (fun own => (value, Scalar.addUp (List.map _ own)))
    (List.filter_congr fun other _ => ?_)
  by_cases hother : key other = value <;> simp [hother, hne]

namespace Merging

theorem foldl_join_cons (held : Transition α) (contents batch : List (Transition α)) :
    batch.foldl merging.join (held :: contents) =
      { held with
        probability := ((batch.filter (merging.joins held)).map
          (·.probability)).foldl (· + ·) held.probability } ::
      (batch.filter (!merging.joins held ·)).foldl merging.join contents := by
  induction batch generalizing held contents with
  | nil => rfl
  | cons added batch ih =>
      rw [List.foldl_cons, join]
      by_cases hjoins : merging.joins held added = true
      · rw [if_pos hjoins, ih, List.filter_cons_of_pos hjoins,
          List.filter_cons_of_neg (by simpa using hjoins)]
        rfl
      · rw [if_neg hjoins, ih, List.filter_cons_of_neg hjoins,
          List.filter_cons_of_pos (by simpa using hjoins)]
        rfl

/-- Where transitions of the same key merge, and no others, a merged batch is gathered by key. -/
theorem map_foldl_join {κ : Type} [BEq κ] [LawfulBEq κ] {key : Transition α → κ}
    (hkey : ∀ (held : Transition α) probability, key { held with probability } = key held)
    (hjoins : ∀ held ∈ batch, ∀ added ∈ batch,
      merging.joins held added = (key added == key held)) :
    (batch.foldl merging.join []).map (fun held => (key held, held.probability)) =
      gatherBy key batch := by
  -- the rest of the batch without the first key is shorter, but not a part of its end
  induction hlength : batch.length using Nat.strongRecOn generalizing batch with
  | ind length ih =>
      cases batch with
      | nil => rfl
      | cons first rest =>
          have hfirst : ∀ added ∈ rest, merging.joins first added = (key added == key first) :=
            fun added hadded => hjoins first (by simp) added (by simp [hadded])
          have hothers : rest.filter (!merging.joins first ·) =
              rest.filter (!key · == key first) :=
            List.filter_congr fun added hadded => by rw [hfirst added hadded]
          rw [List.foldl_cons, join, foldl_join_cons, gatherBy_cons, List.map_cons, hothers,
            List.filter_congr hfirst, hkey]
          refine congrArg₂ _ rfl (ih _ ?_ ?_ rfl)
          · rw [← hlength, List.length_cons]
            exact Nat.lt_succ_of_le (List.length_filter_le ..)
          · intro held hheld added hadded
            exact hjoins held (List.mem_cons_of_mem _ (List.mem_of_mem_filter hheld)) added
              (List.mem_cons_of_mem _ (List.mem_of_mem_filter hadded))

theorem map_entry_foldl_join
    (hjoins : ∀ held ∈ batch, ∀ added ∈ batch,
      merging.joins held added = (added.pair == held.pair)) :
    (batch.foldl merging.join []).map Transition.entry = gatherBy Transition.pair batch :=
  map_foldl_join (fun _ _ => rfl) hjoins

section

omit [Scalar α]

theorem joins_acrossChoices (held added : Transition α) :
    acrossChoices.joins held added = (added.pair == held.pair) := by
  rw [Bool.eq_iff_iff]
  simp [joins, Transition.pair, eq_comm (a := held.target), eq_comm (a := held.label)]

theorem joins_withinChoice (held added : Transition α) :
    withinChoice.joins held added =
      (added.pair == held.pair && held.distribution == added.distribution) := by
  rw [Bool.eq_iff_iff]
  simp [joins, Transition.pair, eq_comm (a := held.target), eq_comm (a := held.label)]

theorem distribution_eq_of_joins {held added : Transition α}
    (hjoins : withinChoice.joins held added = true) : held.distribution = added.distribution := by
  simp only [joins_withinChoice, Bool.and_eq_true, beq_iff_eq] at hjoins
  exact hjoins.2

theorem pair_eq_of_joins {held added : Transition α} (hjoins : merging.joins held added = true) :
    held.pair = added.pair := by
  simp only [joins, Bool.and_eq_true, beq_iff_eq] at hjoins
  simp [Transition.pair, hjoins.1]

end

theorem mem_map_pair_join (contents : List (Transition α)) (added : Transition α)
    (pair : Nat × Label) :
    pair ∈ (merging.join contents added).map Transition.pair ↔
      pair ∈ contents.map Transition.pair ∨ pair = added.pair := by
  induction contents with
  | nil => simp [join]
  | cons held contents ih =>
      rw [join]
      split
      · next hjoins =>
        have hsame := pair_eq_of_joins hjoins
        simp only [List.map_cons, List.mem_cons, ← hsame]
        tauto
      · simp only [List.map_cons, List.mem_cons, ih]
        tauto

theorem mem_map_pair_foldl_join (contents batch : List (Transition α)) (pair : Nat × Label) :
    pair ∈ (batch.foldl merging.join contents).map Transition.pair ↔
      pair ∈ contents.map Transition.pair ∨ pair ∈ batch.map Transition.pair := by
  induction batch generalizing contents with
  | nil => simp
  | cons added batch ih =>
      rw [List.foldl_cons, ih, mem_map_pair_join, List.map_cons, List.mem_cons, or_assoc]

/-! ## Choices kept apart -/

theorem filter_join (contents : List (Transition α)) (added : Transition α) (id : Nat) :
    (withinChoice.join contents added).filter (·.distribution == id) =
      if added.distribution = id then
        withinChoice.join (contents.filter (·.distribution == id)) added
      else contents.filter (·.distribution == id) := by
  induction contents with
  | nil => by_cases hadded : added.distribution = id <;> simp [join, hadded]
  | cons held contents ih =>
      rw [join]
      by_cases hjoins : withinChoice.joins held added = true
      · have hsame := distribution_eq_of_joins hjoins
        by_cases hadded : added.distribution = id <;>
          simp [join, hjoins, hsame, hadded]
      · by_cases hadded : added.distribution = id <;> by_cases hheld : held.distribution = id <;>
          simp [join, hjoins, ih, hadded, hheld]

/-- Merging treats every choice as if it stood alone. -/
theorem filter_foldl_join (contents batch : List (Transition α)) (id : Nat) :
    (batch.foldl withinChoice.join contents).filter (·.distribution == id) =
      (batch.filter (·.distribution == id)).foldl withinChoice.join
        (contents.filter (·.distribution == id)) := by
  induction batch generalizing contents with
  | nil => rfl
  | cons added batch ih =>
      rw [List.foldl_cons, ih, filter_join]
      by_cases hadded : added.distribution = id <;> simp [hadded]

theorem map_entry_filter_foldl_join (batch : List (Transition α)) (id : Nat) :
    ((batch.foldl withinChoice.join []).filter (·.distribution == id)).map Transition.entry =
      gatherBy Transition.pair (batch.filter (·.distribution == id)) := by
  rw [filter_foldl_join]
  apply map_entry_foldl_join
  intro held hheld added hadded
  simp only [List.mem_filter, beq_iff_eq] at hheld hadded
  simp [joins_withinChoice, hheld.2, hadded.2]

theorem discover_distribution_join (known : List Nat) (contents : List (Transition α))
    (added : Transition α) :
    discover known ((withinChoice.join contents added).map (·.distribution)) =
      discover known (contents.map (·.distribution) ++ [added.distribution]) := by
  induction contents generalizing known with
  | nil => rfl
  | cons held contents ih =>
      rw [join]
      by_cases hjoins : withinChoice.joins held added = true
      · have hsame := distribution_eq_of_joins hjoins
        rw [if_pos hjoins, discover_append, discover_singleton_of_mem (by simp [hsame])]
        rfl
      · rw [if_neg hjoins, List.map_cons, discover_cons, ih]
        rfl

theorem choices_foldl_join (batch : List (Transition α)) :
    Distribution.choices ((batch.foldl withinChoice.join []).map (·.distribution)) =
      (batch.map (·.distribution)).eraseDups := by
  have hgeneral (contents : List (Transition α)) :
      discover [] ((batch.foldl withinChoice.join contents).map (·.distribution)) =
        discover [] (contents.map (·.distribution) ++ batch.map (·.distribution)) := by
    induction batch generalizing contents with
    | nil => simp
    | cons added batch ih =>
        rw [List.foldl_cons, ih, discover_append, discover_distribution_join, ← discover_append]
        simp
  rw [Distribution.choices_eq, ← discover_nil, ← discover_nil, hgeneral]
  rfl

end Merging

end Hazard
