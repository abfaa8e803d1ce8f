import Mathlib.Algebra.Order.Field.Rat
import Hazard.Model.Gallery
import Hazard.Proofs.GeneratedChain
/-!
# Generated structures are valid

While a model is explored, the probabilities of a source are accepted batch by batch, before
transitions are merged, grouped by choice and numbered. None of these steps loses or adds
probability, and every pair that can be reached has the batch of its target, so a finished structure
is accepted once more.
-/

namespace Hazard

open Traversal

/-! ## What validation accepts -/

/-- Choices that are accepted: there is one, and each adds up to one. -/
structure Accepted (choices : List (Weighted ℚ)) : Prop where
  offers : choices ≠ []
  adds_up : ∀ entries ∈ choices, Distribution.isOff entries.total = false

theorem Distribution.isOff_total_nil : isOff (Weighted.total ([] : Weighted ℚ)) = true := by
  decide +kernel

theorem MarkovChain.validate_eq_ok {chain : MarkovChain ℚ} :
    chain.validate = .ok () ↔ Accepted [chain.initial] ∧
      ∀ state < chain.stateCount, Accepted [chain.matrix.row state] := by
  have hrow (origin : Origin) (entries : Weighted ℚ) :
      ((if entries.isEmpty then .error (.deadlock origin)
        else if Distribution.isOff entries.total then
          .error (.invalidDistribution origin entries.total)
        else .ok ()) : Except (TraversalError ℚ) Unit) = .ok () ↔ Accepted [entries] := by
    cases entries with
    | nil =>
        constructor
        · intro h
          cases h
        · intro h
          have hon := h.adds_up [] List.mem_cons_self
          simp [Distribution.isOff_total_nil] at hon
    | cons entry rest =>
        rw [List.isEmpty_cons, if_neg Bool.false_ne_true]
        cases hoff : Distribution.isOff (Weighted.total (entry :: rest)) with
        | false => exact ⟨fun _ => ⟨by simp, by simpa using hoff⟩, fun _ => rfl⟩
        | true =>
            constructor
            · intro h
              cases h
            · intro h
              simp [h.adds_up _ List.mem_cons_self] at hoff
  constructor
  · intro h
    obtain ⟨_, hinitial, hrows⟩ := bind_eq_ok.1 h
    exact ⟨(hrow none _).1 hinitial, fun state hstate =>
      (hrow (some state) _).1 (forM_eq_ok.1 hrows state (List.mem_range.2 hstate))⟩
  · rintro ⟨hinitial, hrows⟩
    refine bind_eq_ok.2 ⟨(), (hrow none _).2 hinitial, forM_eq_ok.2 fun state hstate => ?_⟩
    exact (hrow (some state) _).2 (hrows state (List.mem_range.1 hstate))

theorem DecisionProcess.validate_eq_ok {process : DecisionProcess ℚ} :
    process.validate = .ok () ↔ Accepted process.initial ∧
      ∀ state < process.stateCount, Accepted (process.choicesOf state) := by
  have hchoices (origin : Origin) (choices : List (Weighted ℚ)) :
      ((if choices.isEmpty then .error (.deadlock origin)
        else choices.forM fun entries =>
          if Distribution.isOff entries.total then
            .error (.invalidDistribution origin entries.total)
          else .ok ()) : Except (TraversalError ℚ) Unit) = .ok () ↔ Accepted choices := by
    cases choices with
    | nil =>
        constructor
        · intro h
          cases h
        · exact fun h => absurd rfl h.offers
    | cons first rest =>
        rw [List.isEmpty_cons, if_neg Bool.false_ne_true, forM_eq_ok]
        constructor
        · refine fun h => ⟨by simp, fun entries hentries => ?_⟩
          by_contra hoff
          simpa [hoff] using h entries hentries
        · intro h entries hentries
          simp [h.adds_up entries hentries]
  constructor
  · intro h
    obtain ⟨_, hinitial, hrows⟩ := bind_eq_ok.1 h
    exact ⟨(hchoices none _).1 hinitial, fun state hstate =>
      (hchoices (some state) _).1 (forM_eq_ok.1 hrows state (List.mem_range.2 hstate))⟩
  · rintro ⟨hinitial, hrows⟩
    refine bind_eq_ok.2 ⟨(), (hchoices none _).2 hinitial, forM_eq_ok.2 fun state hstate => ?_⟩
    exact (hchoices (some state) _).2 (hrows state (List.mem_range.1 hstate))

/-! ## What an exploration accepts -/

namespace Merging

/-- The parts of a batch that have to add up: the batch itself, or each of its choices. -/
def parts : Merging → List (Transition ℚ) → List (List (Transition ℚ))
  | .acrossChoices, batch => [batch]
  | .withinChoice, batch => (Distribution.choices (batch.map (·.distribution))).map fun id =>
      batch.filter (·.distribution == id)

def Admits (merging : Merging) (batch : List (Transition ℚ)) : Prop :=
  batch ≠ [] ∧ ∀ part ∈ merging.parts batch,
    Distribution.isOff (part.map (·.probability)).sum = false

variable {merging : Merging} {arena next : ChainArena ℚ} {origin : Origin}
  {batch : List (Transition ℚ)}

theorem isOff_of_check {probabilities : List ℚ}
    (h : Distribution.check origin probabilities = .ok ()) :
    Distribution.isOff probabilities.sum = false := by
  rw [Distribution.check] at h
  split at h
  · cases h
  · rw [List.sum_eq_foldl]
    by_contra hoff
    simp only [Bool.not_eq_false] at hoff
    rw [if_pos hoff] at h
    cases h

theorem admits_of_check (h : merging.check origin batch = .ok ()) : merging.Admits batch := by
  refine ⟨ne_nil_of_check h, ?_⟩
  intro part hpart
  cases merging with
  | acrossChoices =>
      rw [List.mem_singleton.1 hpart]
      exact isOff_of_check h
  | withinChoice =>
      obtain ⟨id, hid, rfl⟩ := List.mem_map.1 hpart
      rw [check, Distribution.checkChoices] at h
      split at h
      · cases h
      · exact isOff_of_check (forM_eq_ok.1 h id hid)

theorem admits_of_passes {final : ChainArena ℚ} {stream : List (Origin × List (Transition ℚ))}
    (hpasses : merging.observer.Passes arena stream final) :
    ∀ entry ∈ stream, merging.Admits entry.2 := by
  induction hpasses with
  | nil => simp
  | cons hshown _ ih =>
      rw [List.forall_mem_cons]
      exact ⟨admits_of_check (observe_eq_ok hshown).1, ih⟩

/-! ## What merging keeps -/

theorem sum_probability_foldl_join (merging : Merging) (batch : List (Transition ℚ)) :
    ((batch.foldl merging.join []).map (·.probability)).sum = (batch.map (·.probability)).sum := by
  simpa using merging.sum_foldl_join (fun _ => 1) [] batch

theorem exists_part (batch : List (Transition ℚ)) :
    ∀ part ∈ merging.parts (batch.foldl merging.join []), ∃ own ∈ merging.parts batch,
      (part.map (·.probability)).sum = (own.map (·.probability)).sum := by
  cases merging with
  | acrossChoices =>
      intro part hpart
      rw [List.mem_singleton.1 hpart]
      exact ⟨batch, List.mem_singleton_self batch, sum_probability_foldl_join _ batch⟩
  | withinChoice =>
      intro part hpart
      obtain ⟨id, hid, rfl⟩ := List.mem_map.1 hpart
      rw [choices_foldl_join, ← Distribution.choices_eq] at hid
      refine ⟨_, List.mem_map_of_mem hid, ?_⟩
      rw [filter_foldl_join]
      exact sum_probability_foldl_join _ _

theorem Admits.merged (h : merging.Admits batch) :
    merging.Admits (batch.foldl merging.join []) := by
  refine ⟨?_, fun part hpart => ?_⟩
  · obtain ⟨first, hfirst⟩ := List.exists_mem_of_ne_nil batch h.1
    intro hnil
    have hpair : first.pair ∈ (batch.foldl merging.join []).map Transition.pair :=
      (mem_map_pair_foldl_join [] batch _).2 (.inr (List.mem_map_of_mem hfirst))
    simp [hnil] at hpair
  · obtain ⟨own, hown, hsum⟩ := exists_part batch part hpart
    rw [hsum]
    exact h.2 own hown

/-! ## What numbering keeps -/

def numberedParts (merging : Merging) (pairs : List (Nat × Label))
    (transitions : List (Transition ℚ)) : List (Weighted ℚ) :=
  (merging.parts transitions).map fun part => numbered pairs (part.map Transition.entry)

theorem total_numbered (pairs : List (Nat × Label)) (transitions : List (Transition ℚ)) :
    (numbered pairs (transitions.map Transition.entry)).total =
      (transitions.map (·.probability)).sum := by
  rw [Weighted.total, Scalar.sum_eq, numbered, List.map_map, List.map_map]
  rfl

theorem Admits.accepted (h : merging.Admits batch) (pairs : List (Nat × Label)) :
    Accepted (merging.numberedParts pairs batch) := by
  refine ⟨?_, fun entries hentries => ?_⟩
  · obtain ⟨first, hfirst⟩ := List.exists_mem_of_ne_nil batch h.1
    cases merging with
    | acrossChoices => simp [numberedParts, parts]
    | withinChoice =>
        have hid : first.distribution ∈ Distribution.choices (batch.map (·.distribution)) := by
          rw [Distribution.choices_eq, List.mem_eraseDups]
          exact List.mem_map_of_mem hfirst
        exact List.ne_nil_of_mem (List.mem_map_of_mem (List.mem_map_of_mem hid))
  · obtain ⟨part, hpart, rfl⟩ := List.mem_map.1 hentries
    rw [total_numbered]
    exact h.2 part hpart

theorem inside_numberedParts (merging : Merging) {pairs : List (Nat × Label)}
    {transitions : List (Transition ℚ)}
    (hmem : ∀ transition ∈ transitions, transition.pair ∈ pairs) :
    ∀ entries ∈ merging.numberedParts pairs transitions, ∀ entry ∈ entries,
      entry.1 < pairs.length := by
  intro entries hentries
  obtain ⟨part, hpart, rfl⟩ := List.mem_map.1 hentries
  refine MarkovChain.inside_numbered fun transition htransition => hmem transition ?_
  cases merging with
  | acrossChoices => rwa [List.mem_singleton.1 hpart] at htransition
  | withinChoice =>
      obtain ⟨id, -, rfl⟩ := List.mem_map.1 hpart
      exact List.mem_of_mem_filter htransition

/-! ## What is recorded -/

/-- Lists of transitions that are admissible for the initial step and for every state that can be
reached. -/
structure Supplies (merging : Merging) (lists : Origin → List (Transition ℚ)) : Prop where
  initial : merging.Admits (lists none)
  states : ∀ pair, ReachablePair lists pair → merging.Admits (lists (some pair.1))

theorem exists_lists (merging : Merging) {model : Model ℚ} {config : TraversalConfig}
    {options : TraversalOptions ℚ} {space : StateSpace}
    (h : traverse model config options merging.observer
      (.create config.stateCapacity config.transitionCapacity) = .ok (space, arena)) :
    ∃ lists, (arena.finish space.stateCount space.propositions).Lists lists ∧
      merging.Supplies lists := by
  obtain ⟨_, done, stream, -, hexplored, rfl, rfl, hrunning⟩ :=
    exists_explored h (traverse_goes merging.neverStops_observer h)
  have hpasses := hexplored.passes hrunning
  have hcovers := covers_of_explored hexplored rfl
  have hadmits (origin : Origin) (horigin : (stream.map (·.1)).count origin = 1) :
      merging.Admits (merged merging stream origin) := by
    have hmem := List.count_pos_iff.1 (horigin ▸ Nat.one_pos)
    exact (admits_of_passes hpasses _ (mem_stream_of_mem_map hmem)).merged
  refine ⟨merged merging stream, merging.records_observer.lists hpasses hcovers _,
    hadmits none hcovers.initial, fun pair hpair => hadmits _ ?_⟩
  exact hcovers.once _ (hcovers.lt_of_reachable (reachablePair_merged.1 hpair))

section

variable {lists : Origin → List (Transition ℚ)} {pairs : List (Nat × Label)} {pair : Nat × Label}
  (hsupplies : merging.Supplies lists) (hpairs : ∀ pair, pair ∈ pairs ↔ ReachablePair lists pair)

include hpairs

variable (merging) in
theorem inside_initial : ∀ entries ∈ merging.numberedParts pairs (lists none),
    ∀ entry ∈ entries, entry.1 < pairs.length :=
  merging.inside_numberedParts fun _ hmem => (hpairs _).2 (.initial hmem)

variable (merging) in
theorem inside_state (hpair : pair ∈ pairs) :
    ∀ entries ∈ merging.numberedParts pairs (lists (some pair.1)),
      ∀ entry ∈ entries, entry.1 < pairs.length :=
  merging.inside_numberedParts fun _ hmem => MarkovChain.mem_pairs_of_step hpairs hpair hmem

include hsupplies

theorem Supplies.accepted (hpair : pair ∈ pairs) :
    Accepted (merging.numberedParts pairs (lists (some pair.1))) :=
  (hsupplies.states pair ((hpairs pair).1 hpair)).accepted pairs

end

end Merging

/-! ## Generated structures -/

namespace Setup

variable {setup : Setup ℚ} {config : TraversalConfig} {options : GenerateOptions}

theorem exists_chain_lists {chain : MarkovChain ℚ}
    (h : setup.generateMarkovChain config options = .ok chain) :
    ∃ pairs lists propositions, pairs.Nodup ∧ (∀ pair, pair ∈ pairs ↔ ReachablePair lists pair) ∧
      Merging.acrossChoices.Supplies lists ∧ chain = .ofPairs pairs lists propositions := by
  obtain ⟨chains, hchains, hchain⟩ := bind_eq_ok.1 h
  obtain ⟨model, -, hrest⟩ := bind_eq_ok.1 hchains
  obtain ⟨parts, -, hrest⟩ := bind_eq_ok.1 hrest
  obtain ⟨⟨space, arena⟩, htraverse, hfinish⟩ := bind_eq_ok.1 hrest
  cases hfinish
  obtain ⟨lists, hlists, hsupplies⟩ := Merging.exists_lists .acrossChoices htraverse
  obtain ⟨pairs, hnodup, hpairs, hmade⟩ := hlists.toMarkovChain_eq
  cases hmade.symm.trans (orMisuse_eq_ok.1 hchain)
  exact ⟨pairs, lists, _, hnodup, hpairs, hsupplies, rfl⟩

theorem exists_process_lists {process : DecisionProcess ℚ}
    (h : setup.generateDecisionProcess config options = .ok process) :
    ∃ pairs lists, (∀ pair, pair ∈ pairs ↔ ReachablePair lists pair) ∧
      Merging.withinChoice.Supplies lists ∧ process.labels.size = pairs.length ∧
      process.initial = Merging.withinChoice.numberedParts pairs (lists none) ∧
      process.choices = (pairs.map fun pair =>
        Merging.withinChoice.numberedParts pairs (lists (some pair.1))).toArray := by
  have hparts (pairs : List (Nat × Label)) (transitions : List (Transition ℚ)) :
      TransitionChains.numberedByChoice pairs transitions =
        Merging.withinChoice.numberedParts pairs transitions := by
    rw [TransitionChains.numberedByChoice, Merging.numberedParts, Merging.parts, List.map_map]
    rfl
  obtain ⟨chains, hchains, hprocess⟩ := bind_eq_ok.1 h
  obtain ⟨model, -, hrest⟩ := bind_eq_ok.1 hchains
  obtain ⟨parts, -, hrest⟩ := bind_eq_ok.1 hrest
  obtain ⟨⟨space, arena⟩, htraverse, hfinish⟩ := bind_eq_ok.1 hrest
  cases hfinish
  obtain ⟨lists, hlists, hsupplies⟩ := Merging.exists_lists .withinChoice htraverse
  obtain ⟨pairs, -, hpairs, hmade⟩ := hlists.toDecisionProcess_eq
  cases hmade.symm.trans (orMisuse_eq_ok.1 hprocess)
  exact ⟨pairs, lists, hpairs, hsupplies, by simp, hparts _ _, by simp only [hparts]⟩

/-- What is generated is valid: it is accepted once more, every state has its label and its row or
its choices, and no transition leads out of the structure. -/
theorem generated_valid (setup : Setup ℚ) (config : TraversalConfig) (options : GenerateOptions) :
    (∀ chain, setup.generateMarkovChain config options = .ok chain →
      chain.validate = .ok () ∧ chain.labels.size = chain.matrix.rowCount ∧
        (∀ entry ∈ chain.initial, entry.1 < chain.stateCount) ∧
        ∀ row ∈ chain.matrix.rows, ∀ entry ∈ row, entry.1 < chain.stateCount) ∧
    ∀ process, setup.generateDecisionProcess config options = .ok process →
      process.validate = .ok () ∧ process.labels.size = process.choices.size ∧
        (∀ entries ∈ process.initial, ∀ entry ∈ entries, entry.1 < process.stateCount) ∧
        ∀ choices ∈ process.choices, ∀ entries ∈ choices, ∀ entry ∈ entries,
          entry.1 < process.stateCount := by
  constructor
  · intro chain h
    obtain ⟨pairs, lists, propositions, hnodup, hpairs, hsupplies, rfl⟩ := exists_chain_lists h
    have hcount : (MarkovChain.ofPairs pairs lists propositions).stateCount = pairs.length :=
      MarkovChain.stateCount_ofPairs
    rw [hcount]
    refine ⟨?_, ?_, ?_, ?_⟩
    · rw [MarkovChain.validate_eq_ok, hcount]
      refine ⟨hsupplies.initial.accepted pairs, fun state hstate => ?_⟩
      have hpair := List.getElem_mem hstate
      rw [← hnodup.idxOf_getElem state hstate, MarkovChain.row_ofPairs hpair]
      exact hsupplies.accepted hpairs hpair
    · simp [MarkovChain.ofPairs, SparseMatrix.rowCount]
    · exact Merging.inside_initial .acrossChoices hpairs _ List.mem_cons_self
    · intro row hrow
      obtain ⟨pair, hpair, rfl⟩ : ∃ pair ∈ pairs,
          numbered pairs ((lists (some pair.1)).map Transition.entry) = row := by
        simpa [MarkovChain.ofPairs] using hrow
      exact Merging.inside_state .acrossChoices hpairs hpair _ List.mem_cons_self
  · intro process h
    obtain ⟨pairs, lists, hpairs, hsupplies, hcount, hinitial, hchoices⟩ := exists_process_lists h
    have hstates : process.stateCount = pairs.length := hcount
    rw [hstates, hinitial, hchoices, hcount]
    refine ⟨?_, by simp, Merging.inside_initial _ hpairs, ?_⟩
    · rw [DecisionProcess.validate_eq_ok, hstates, hinitial]
      refine ⟨hsupplies.initial.accepted pairs, fun state hstate => ?_⟩
      have hown : process.choicesOf state =
          Merging.withinChoice.numberedParts pairs (lists (some pairs[state].1)) := by
        simp [DecisionProcess.choicesOf, hchoices, hstate]
      rw [hown]
      exact hsupplies.accepted hpairs (List.getElem_mem hstate)
    · intro choices hmem
      obtain ⟨pair, hpair, rfl⟩ := List.mem_map.1 (List.mem_toArray.1 hmem)
      exact Merging.inside_state _ hpairs hpair

theorem generated_valid_nestedFaults_twoWays :
    ∃ (chain : MarkovChain ℚ) (process : DecisionProcess ℚ),
      generateMarkovChain (.ok Model.nestedFaults) { stateCapacity := 8 } {} = .ok chain ∧
      generateDecisionProcess (.ok Model.twoWays) { stateCapacity := 8 } {} = .ok process ∧
      chain.stateCount = 3 ∧ process.stateCount = 3 ∧
      chain.validate = .ok () ∧ chain.matrix.rowCount = 3 ∧
      (∀ row ∈ chain.matrix.rows, ∀ entry ∈ row, entry.1 < 3) ∧
      process.validate = .ok () ∧ process.choices.size = 3 ∧
      ∀ choices ∈ process.choices, ∀ entries ∈ choices, ∀ entry ∈ entries, entry.1 < 3 := by
  have hchain : (generateMarkovChain (.ok (Model.nestedFaults (α := ℚ))) { stateCapacity := 8 }
      {}).map (·.stateCount) = .ok 3 := by decide +kernel
  have hprocess : (generateDecisionProcess (.ok (Model.twoWays (α := ℚ))) { stateCapacity := 8 }
      {}).map (·.stateCount) = .ok 3 := by decide +kernel
  obtain ⟨chain, hchain, hcount⟩ := map_eq_ok.1 hchain
  obtain ⟨process, hprocess, hcount'⟩ := map_eq_ok.1 hprocess
  obtain ⟨hvalid, hrows, -, hinside⟩ := (generated_valid _ _ _).1 chain hchain
  obtain ⟨hvalid', hchoices, -, hinside'⟩ := (generated_valid _ _ _).2 process hprocess
  rw [hcount] at hinside
  rw [hcount'] at hinside'
  exact ⟨chain, process, hchain, hprocess, hcount, hcount', hvalid, hrows.symm.trans hcount,
    hinside, hvalid', hchoices.symm.trans hcount', hinside'⟩

end Setup

end Hazard
