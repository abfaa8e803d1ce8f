import Hazard.Markov.Chain
import Hazard.Markov.Process
import Hazard.Proofs.FirstAppearance
/-!
# Numbers for pairs

States are numbered while rows are written for them: the table of pairs grows as the rows mention
new ones, and the work ends when every pair has its row. Numbers never change, so each row can be
read with the numbers of the finished table, which holds exactly the pairs that can be reached.
-/

namespace Hazard

variable {α ρ : Type}

def numbered (pairs : List (Nat × Label)) (entries : List ((Nat × Label) × α)) : Weighted α :=
  entries.map fun entry => (pairs.idxOf entry.1, entry.2)

/-- A pair keeps its number when others follow. -/
theorem idxOf_of_isPrefix {pairs final : List (Nat × Label)} {pair : Nat × Label}
    (hbegins : pairs <+: final) (hmem : pair ∈ pairs) : final.idxOf pair = pairs.idxOf pair := by
  obtain ⟨more, rfl⟩ := hbegins
  exact List.idxOf_append_of_mem hmem

namespace PairTable

def known (table : PairTable) : List (Nat × Label) := table.pairs.toList

theorem intern_eq (table : PairTable) (pair : Nat × Label) :
    table.intern pair =
      ((discover table.known [pair]).idxOf pair, ⟨(discover table.known [pair]).toArray⟩) := by
  obtain ⟨⟨pairs⟩⟩ := table
  rw [intern, List.idxOf?_toArray, known]
  by_cases hmem : pair ∈ pairs
  · obtain ⟨number, hnumber⟩ := Option.ne_none_iff_exists'.1
      (mt List.idxOf?_eq_none_iff.1 (not_not_intro hmem))
    rw [discover_singleton_of_mem hmem, List.idxOf_eq_getD_idxOf?, hnumber]
    rfl
  · rw [List.idxOf?_eq_none_iff.2 hmem, discover_singleton_of_not_mem hmem,
      List.idxOf_append_of_notMem hmem]
    simp

theorem labels_toArray (pairs : List (Nat × Label)) :
    labels ⟨pairs.toArray⟩ = (pairs.map (·.2)).toArray := by
  simp [labels]

end PairTable

/-! ## Rows that number their pairs -/

/-- What writing a row does: the pairs of the row join the table, and the row reads the same with
any later numbers. -/
structure Numbers (number : List (ChainElement α) → PairTable → ρ × PairTable)
    (render : List (Nat × Label) → List (Transition α) → ρ) : Prop where
  grows : ∀ elements table, ∃ found, (number elements table).2.known = discover table.known found ∧
    ∀ pair, pair ∈ found ↔ pair ∈ elements.map (·.transition.pair)
  renders : ∀ elements table final, (number elements table).2.known <+: final →
    (number elements table).1 = render final (elements.map ChainElement.transition)

namespace Numbers

variable {number : List (ChainElement α) → PairTable → ρ × PairTable}
  {render : List (Nat × Label) → List (Transition α) → ρ} (hnumbers : Numbers number render)
  (elements : List (ChainElement α)) (table : PairTable)

include hnumbers

theorem isPrefix_known : table.known <+: (number elements table).2.known := by
  obtain ⟨found, hknown, -⟩ := hnumbers.grows elements table
  rw [hknown]
  exact isPrefix_discover _ _

theorem nodup_known (hnodup : table.known.Nodup) : (number elements table).2.known.Nodup := by
  obtain ⟨found, hknown, -⟩ := hnumbers.grows elements table
  rw [hknown]
  exact nodup_discover hnodup found

theorem mem_known {pair : Nat × Label} : pair ∈ (number elements table).2.known ↔
    pair ∈ table.known ∨
      ∃ transition ∈ elements.map ChainElement.transition, transition.pair = pair := by
  obtain ⟨found, hknown, hfound⟩ := hnumbers.grows elements table
  rw [hknown, mem_discover, hfound]
  simp only [List.mem_map, exists_exists_and_eq_and]

end Numbers

namespace PairTable

theorem known_internAll (table : PairTable) (elements : List (ChainElement α)) :
    (table.internAll elements).2.known =
      discover table.known (elements.map (·.transition.pair)) := by
  induction elements generalizing table with
  | nil => rfl
  | cons element rest ih =>
      rw [List.map_cons, discover_cons]
      simp only [internAll, intern_eq]
      exact ih _

theorem internAll_eq_numbered (table : PairTable) (elements : List (ChainElement α))
    {final : List (Nat × Label)} (hbegins : (table.internAll elements).2.known <+: final) :
    (table.internAll elements).1 = numbered final (elements.map (·.transition.entry)) := by
  induction elements generalizing table with
  | nil => rfl
  | cons element rest ih =>
      have hknown := known_internAll table (element :: rest)
      rw [List.map_cons, discover_cons] at hknown
      rw [hknown] at hbegins
      have hnumber : final.idxOf element.transition.pair =
          (discover table.known [element.transition.pair]).idxOf element.transition.pair :=
        idxOf_of_isPrefix ((isPrefix_discover _ _).trans hbegins) (by simp)
      simp only [internAll, intern_eq, List.map_cons, numbered]
      refine congrArg₂ _ (congrArg (·, element.probability) hnumber.symm) (ih _ ?_)
      rw [known_internAll]
      exact hbegins

theorem numbers_internAll :
    Numbers (α := α) (fun elements table => table.internAll elements)
      fun pairs transitions => numbered pairs (transitions.map Transition.entry) where
  grows := fun elements table => ⟨_, known_internAll table elements, fun _ => Iff.rfl⟩
  renders := by
    intro elements table final hbegins
    rw [internAll_eq_numbered table elements hbegins, List.map_map]
    rfl

end PairTable

namespace TransitionChains

open PairTable

theorem known_internChoices (elements : List (ChainElement α)) (ids : List Nat)
    (table : PairTable) :
    (internChoices elements ids table).2.known =
      discover table.known (ids.flatMap fun id =>
        (elements.filter (·.distribution == id)).map (·.transition.pair)) := by
  induction ids generalizing table with
  | nil => rfl
  | cons id rest ih =>
      rw [List.flatMap_cons, discover_append, ← known_internAll]
      exact ih _

theorem internChoices_eq_numbered (elements : List (ChainElement α)) (ids : List Nat)
    (table : PairTable) {final : List (Nat × Label)}
    (hbegins : (internChoices elements ids table).2.known <+: final) :
    (internChoices elements ids table).1 = ids.map fun id =>
      numbered final ((elements.filter (·.distribution == id)).map (·.transition.entry)) := by
  induction ids generalizing table with
  | nil => rfl
  | cons id rest ih =>
      have hfirst : (table.internAll (elements.filter (·.distribution == id))).2.known <+:
          final := by
        rw [known_internChoices, List.flatMap_cons, discover_append] at hbegins
        rw [known_internAll]
        exact (isPrefix_discover _ _).trans hbegins
      exact congrArg₂ _ (internAll_eq_numbered _ _ hfirst) (ih _ hbegins)

def numberedByChoice (pairs : List (Nat × Label)) (transitions : List (Transition α)) :
    List (Weighted α) :=
  (Distribution.choices (transitions.map (·.distribution))).map fun id =>
    numbered pairs ((transitions.filter (·.distribution == id)).map Transition.entry)

theorem numbers_grouped : Numbers (α := α) grouped numberedByChoice where
  grows := by
    intro elements table
    refine ⟨_, known_internChoices elements _ table, fun pair => ?_⟩
    simp only [Distribution.choices_eq, List.mem_flatMap, List.mem_eraseDups, List.mem_map,
      List.mem_filter, beq_iff_eq]
    constructor
    · rintro ⟨id, -, element, ⟨hmem, -⟩, hpair⟩
      exact ⟨element, hmem, hpair⟩
    · rintro ⟨element, hmem, hpair⟩
      exact ⟨element.distribution, ⟨element, hmem, rfl⟩, element, ⟨hmem, rfl⟩, hpair⟩
  renders := by
    intro elements table final hbegins
    rw [grouped, internChoices_eq_numbered elements _ table hbegins]
    simp only [numberedByChoice, List.filter_map, List.map_map]
    rfl

end TransitionChains

/-! ## The rows of a growing table -/

def rowsFrom (number : List (ChainElement α) → PairTable → ρ × PairTable)
    (outgoing : Nat → Except Misuse (List (ChainElement α))) :
    (fuel next : Nat) → PairTable → Array ρ → Except Misuse (PairTable × Array ρ)
  | 0, _, table, rows => .ok (table, rows)
  | fuel + 1, next, table, rows =>
    match table.pairs[next]? with
    | none => .ok (table, rows)
    | some (state, _) => do
      let (row, table) := number (← outgoing state) table
      rowsFrom number outgoing fuel (next + 1) table (rows.push row)

theorem TransitionChains.processRows_eq (chains : TransitionChains α) (fuel next : Nat)
    (table : PairTable) (choices : Array (List (Weighted α))) :
    chains.processRows fuel next table choices =
      rowsFrom grouped chains.outgoing fuel next table choices := by
  induction fuel generalizing next table choices with
  | zero => rfl
  | succ fuel ih =>
      cases hget : table.pairs[next]? with
      | none => simp only [processRows, rowsFrom, hget]
      | some pair => simp only [processRows, rowsFrom, hget, ih]

theorem TransitionChains.chainRows_eq (chains : TransitionChains α) (fuel next : Nat)
    (table : PairTable) (rows : Array (Weighted α)) :
    chains.chainRows fuel next table ⟨rows⟩ =
      (rowsFrom (fun elements table => table.internAll elements) chains.outgoing fuel next table
        rows).map fun result => (result.1, ⟨result.2⟩) := by
  induction fuel generalizing next table rows with
  | zero => rfl
  | succ fuel ih =>
      simp only [chainRows, rowsFrom]
      cases table.pairs[next]? with
      | none => rfl
      | some pair =>
          cases houtgoing : chains.outgoing pair.1 with
          | error misuse => simp only [houtgoing]; rfl
          | ok elements => simp only [houtgoing]; exact ih ..

section

variable {number : List (ChainElement α) → PairTable → ρ × PairTable}
  {render : List (Nat × Label) → List (Transition α) → ρ}
  {outgoing : Nat → Except Misuse (List (ChainElement α))} {reached : Nat × Label → Prop}
  {bound : List (Nat × Label)} {fuel next : Nat} {table : PairTable} {rows : Array ρ}

theorem rowsFrom_of_length_le (hall : table.known.length ≤ next) :
    rowsFrom number outgoing fuel next table rows = .ok (table, rows) := by
  have hnone : table.pairs[next]? = none := by simpa [PairTable.known] using hall
  cases fuel with
  | zero => rfl
  | succ fuel => simp only [rowsFrom, hnone]

theorem rowsFrom_succ {pair : Nat × Label} {elements : List (ChainElement α)}
    (hpair : table.known[next]? = some pair) (hok : outgoing pair.1 = .ok elements) :
    rowsFrom number outgoing (fuel + 1) next table rows =
      rowsFrom number outgoing fuel (next + 1) (number elements table).2
        (rows.push (number elements table).1) := by
  have hget : table.pairs[next]? = some pair := by simpa [PairTable.known] using hpair
  simp only [rowsFrom, hget, hok]
  rfl

/-- The table grows until its last pair has a row. Pairs that are reached are among those of the
bound, so the fuel is enough. -/
theorem Numbers.rowsFrom_eq (hnumbers : Numbers number render) (lists : Nat → List (Transition α))
    (rows : Array ρ)
    (houtgoing : ∀ pair, reached pair → ∃ elements, outgoing pair.1 = .ok elements ∧
      elements.map ChainElement.transition = lists pair.1)
    (hclosed : ∀ pair, reached pair → ∀ transition ∈ lists pair.1, reached transition.pair)
    (hbound : ∀ pair, reached pair → pair ∈ bound) (hfuel : fuel + next = bound.length)
    (hnext : next ≤ table.known.length) (hnodup : table.known.Nodup)
    (hreached : ∀ pair ∈ table.known, reached pair) :
    ∃ pairs, table.known <+: pairs ∧ pairs.Nodup ∧ (∀ pair ∈ pairs, reached pair) ∧
      (∀ pair ∈ pairs.drop next, ∀ transition ∈ lists pair.1, transition.pair ∈ pairs) ∧
      rowsFrom number outgoing fuel next table rows = .ok (⟨pairs.toArray⟩,
        rows ++ ((pairs.drop next).map fun pair => render pairs (lists pair.1)).toArray) := by
  induction fuel using Nat.strongRecOn generalizing next table rows with
  | ind fuel ih =>
      by_cases hall : table.known.length ≤ next
      · refine ⟨table.known, List.prefix_rfl, hnodup, hreached, ?_, ?_⟩ <;>
          rw [List.drop_eq_nil_of_le hall]
        · simp
        · simp [rowsFrom_of_length_le hall, PairTable.known]
      · have hlength : table.known.length ≤ bound.length :=
          (List.subperm_of_subset hnodup fun pair hpair =>
            hbound pair (hreached pair hpair)).length_le
        -- a pair without a row is one of the bound, so there is fuel left for it
        obtain ⟨fewer, rfl⟩ : ∃ fewer, fuel = fewer + 1 := ⟨fuel - 1, by omega⟩
        obtain ⟨pair, hpair⟩ : ∃ pair, table.known[next]? = some pair :=
          ⟨_, List.getElem?_eq_getElem (by omega)⟩
        have hpairReached := hreached pair (List.mem_of_getElem? hpair)
        obtain ⟨elements, hok, hlist⟩ := houtgoing pair hpairReached
        have hlonger := hnumbers.isPrefix_known elements table
        have hnew : ∀ other ∈ (number elements table).2.known, reached other := by
          intro other hother
          rcases (hnumbers.mem_known elements table).1 hother with hold | ⟨transition, hmem, rfl⟩
          · exact hreached other hold
          · exact hclosed pair hpairReached transition (hlist ▸ hmem)
        have hmore := hlonger.length_le
        obtain ⟨pairs, hbegins, hpairs, hreachedPairs, hclosedPairs, hrows⟩ :=
          @ih fewer (by omega) (next + 1) (number elements table).2
            (rows.push (number elements table).1) (by omega) (by omega)
            (hnumbers.nodup_known elements table hnodup) hnew
        have hkept := hlonger.trans hbegins
        have hdrop : pairs.drop next = pair :: pairs.drop (next + 1) := by
          obtain ⟨hlt, rfl⟩ := List.getElem?_eq_some_iff.1 hpair
          rw [hkept.getElem hlt]
          exact List.drop_eq_getElem_cons (Nat.lt_of_lt_of_le hlt hkept.length_le)
        refine ⟨pairs, hkept, hpairs, hreachedPairs, ?_, ?_⟩
        · rw [hdrop, List.forall_mem_cons]
          refine ⟨fun transition htransition => hbegins.subset ?_, hclosedPairs⟩
          rw [← hlist] at htransition
          exact (hnumbers.mem_known elements table).2 (.inr ⟨transition, htransition, rfl⟩)
        · rw [rowsFrom_succ hpair hok, hrows, hdrop, List.map_cons, ← hlist,
            hnumbers.renders elements table pairs hbegins]
          simp

end

/-! ## Conversion -/

def MarkovChain.ofPairs (pairs : List (Nat × Label)) (lists : Origin → List (Transition α))
    (propositions : List String) : MarkovChain α where
  matrix := ⟨(pairs.map fun pair =>
    numbered pairs ((lists (some pair.1)).map Transition.entry)).toArray⟩
  labels := (pairs.map (·.2)).toArray
  initial := numbered pairs ((lists none).map Transition.entry)
  propositions := propositions

/-- The pairs that transitions lead to, from the initial step on. -/
inductive ReachablePair (lists : Origin → List (Transition α)) : Nat × Label → Prop
  | initial {transition : Transition α} (hmem : transition ∈ lists none) :
      ReachablePair lists transition.pair
  | step {pair : Nat × Label} {transition : Transition α} (hpair : ReachablePair lists pair)
      (hmem : transition ∈ lists (some pair.1)) : ReachablePair lists transition.pair

theorem ReachablePair.mono {lists others : Origin → List (Transition α)}
    (hsub : ∀ origin, (lists origin).map Transition.pair ⊆ (others origin).map Transition.pair)
    {pair : Nat × Label} (hpair : ReachablePair lists pair) : ReachablePair others pair := by
  induction hpair with
  | initial hmem =>
      obtain ⟨other, hother, heq⟩ := List.mem_map.1 (hsub none (List.mem_map_of_mem hmem))
      exact heq ▸ .initial hother
  | @step pair transition _ hmem ih =>
      obtain ⟨other, hother, heq⟩ :=
        List.mem_map.1 (hsub (some pair.1) (List.mem_map_of_mem hmem))
      exact heq ▸ .step ih hother

namespace TransitionChains

variable {chains : TransitionChains α} {lists : Origin → List (Transition α)}

/-- The chains of the initial step and of all states that can be reached are the given lists. -/
structure Lists (chains : TransitionChains α) (lists : Origin → List (Transition α)) : Prop where
  initial : chains.initial.map ChainElement.transition = lists none
  outgoing : ∀ pair, ReachablePair lists pair → ∃ elements, chains.outgoing pair.1 = .ok elements ∧
    elements.map ChainElement.transition = lists (some pair.1)

/-- Every pair belongs to an element. -/
theorem Lists.mem_elements (hlists : chains.Lists lists) {pair : Nat × Label}
    (hpair : ReachablePair lists pair) :
    pair ∈ chains.elements.toList.map (·.transition.pair) := by
  cases hpair with
  | @initial transition hmem =>
      rw [← hlists.initial] at hmem
      obtain ⟨element, helement, rfl⟩ := List.mem_map.1 hmem
      exact List.mem_map.2 ⟨element, (mem_of_mem_chainFrom helement).val, rfl⟩
  | @step source transition hsource hmem =>
      obtain ⟨elements, hok, hlist⟩ := hlists.outgoing source hsource
      rw [← hlist] at hmem
      obtain ⟨element, helement, rfl⟩ := List.mem_map.1 hmem
      rw [TransitionChains.outgoing] at hok
      split at hok
      · cases hok
        exact List.mem_map.2 ⟨element, (mem_of_mem_chainFrom helement).val, rfl⟩
      · cases hok

/-- Whatever the rows are, they come out for exactly the pairs that can be reached. -/
theorem Lists.exists_pairs {number : List (ChainElement α) → PairTable → ρ × PairTable}
    {render : List (Nat × Label) → List (Transition α) → ρ} (hlists : chains.Lists lists)
    (hnumbers : Numbers number render) :
    ∃ pairs, pairs.Nodup ∧ (∀ pair, pair ∈ pairs ↔ ReachablePair lists pair) ∧
      (number chains.initial {}).1 = render pairs (lists none) ∧
      rowsFrom number chains.outgoing chains.elements.size 0 (number chains.initial {}).2 #[] =
        .ok (⟨pairs.toArray⟩,
          (pairs.map fun pair => render pairs (lists (some pair.1))).toArray) := by
  have hreached : ∀ pair ∈ (number chains.initial {}).2.known, ReachablePair lists pair := by
    intro pair hpair
    rcases (hnumbers.mem_known chains.initial {}).1 hpair with hold | ⟨transition, hmem, rfl⟩
    · simp [PairTable.known] at hold
    · exact .initial (hlists.initial ▸ hmem)
  obtain ⟨pairs, hbegins, hnodup, hpairs, hclosed, hrows⟩ :=
    hnumbers.rowsFrom_eq (fun state => lists (some state)) #[] hlists.outgoing
      (fun pair hpair _ hmem => hpair.step hmem) (fun pair hpair => hlists.mem_elements hpair)
      (List.length_map _).symm (Nat.zero_le _)
      (hnumbers.nodup_known chains.initial {} List.nodup_nil) hreached
  refine ⟨pairs, hnodup, fun pair => ⟨hpairs pair, fun hpair => ?_⟩, ?_, ?_⟩
  · induction hpair with
    | @initial transition hmem =>
        rw [← hlists.initial] at hmem
        exact hbegins.subset ((hnumbers.mem_known _ _).2 (.inr ⟨transition, hmem, rfl⟩))
    | step _ hmem ih => exact hclosed _ ih _ hmem
  · rw [hnumbers.renders chains.initial {} pairs hbegins, hlists.initial]
  · simpa using hrows

theorem Lists.toMarkovChain_eq (hlists : chains.Lists lists) :
    ∃ pairs, pairs.Nodup ∧ (∀ pair, pair ∈ pairs ↔ ReachablePair lists pair) ∧
      chains.toMarkovChain = .ok (.ofPairs pairs lists chains.propositions) := by
  obtain ⟨pairs, hnodup, hpairs, hinitial, hrows⟩ :=
    hlists.exists_pairs PairTable.numbers_internAll
  refine ⟨pairs, hnodup, hpairs, ?_⟩
  simp only [toMarkovChain, chainRows_eq, hrows, hinitial, MarkovChain.ofPairs,
    ← PairTable.labels_toArray]
  rfl

theorem Lists.toDecisionProcess_eq (hlists : chains.Lists lists) :
    ∃ pairs, pairs.Nodup ∧ (∀ pair, pair ∈ pairs ↔ ReachablePair lists pair) ∧
      chains.toDecisionProcess = .ok
        { choices := (pairs.map fun pair => numberedByChoice pairs (lists (some pair.1))).toArray
          labels := (pairs.map (·.2)).toArray
          initial := numberedByChoice pairs (lists none)
          propositions := chains.propositions } := by
  obtain ⟨pairs, hnodup, hpairs, hinitial, hrows⟩ := hlists.exists_pairs numbers_grouped
  refine ⟨pairs, hnodup, hpairs, ?_⟩
  simp only [toDecisionProcess, processRows_eq, hrows, hinitial, ← PairTable.labels_toArray]
  rfl

end TransitionChains

end Hazard
