import Mathlib.Algebra.BigOperators.Ring.List
import Mathlib.Algebra.Field.Rat
import Mathlib.Data.List.Nodup
import Mathlib.Tactic.Ring
import Hazard.Proofs.Expectation
import Hazard.Proofs.RecordedStreams
/-!
# Label sequences

A recorded system shows a sequence of labels with the total probability of the transitions that
carry them, one after another. Merged, with its labels moved to states and its states numbered
afresh, it still does.
-/

namespace Hazard

/-- The sequences of transitions that carry the given labels, from a source on. -/
def walks (lists : Origin → List (Transition ℚ)) : Origin → List Label → List (List (Transition ℚ))
  | _, [] => [[]]
  | origin, label :: rest =>
    ((lists origin).filter (·.label == label)).flatMap fun transition =>
      (walks lists (some transition.target) rest).map (transition :: ·)

def walkWeight (walk : List (Transition ℚ)) : ℚ := (walk.map (·.probability)).prod

def Weighted.weightOf (entries : Weighted ℚ) (state : Nat) : ℚ :=
  ((entries.filter (·.1 == state)).map (·.2)).sum

namespace MarkovChain

def paths (chain : MarkovChain ℚ) : List Label → List (List Nat)
  | [] => [[]]
  | label :: rest =>
    ((List.range chain.stateCount).filter (chain.label · == label)).flatMap fun state =>
      (chain.paths rest).map (state :: ·)

/-- The weight of a path whose first state is entered with the given weights. -/
def pathWeightFrom (chain : MarkovChain ℚ) : Weighted ℚ → List Nat → ℚ
  | _, [] => 1
  | entries, state :: rest =>
    entries.weightOf state * chain.pathWeightFrom (chain.matrix.row state) rest

def pathWeight (chain : MarkovChain ℚ) (path : List Nat) : ℚ :=
  chain.pathWeightFrom chain.initial path

end MarkovChain

/-! ## Sums over sequences -/

theorem sum_map_sequences {β : Type} (items : List β) (rests : β → List (List β))
    {weight : List β → ℚ} {own : β → ℚ} {later : β → List β → ℚ}
    (hweight : ∀ item rest, weight (item :: rest) = own item * later item rest) :
    ((items.flatMap fun item => (rests item).map (item :: ·)).map weight).sum =
      (items.map fun item => own item * ((rests item).map (later item)).sum).sum := by
  induction items with
  | nil => rfl
  | cons item items ih =>
      rw [List.flatMap_cons, List.map_append, List.sum_append, ih, List.map_map, List.map_cons,
        List.sum_cons, ← List.sum_map_mul_left]
      simp only [Function.comp_def, hweight]

theorem sum_map_filter {β : Type} (items : List β) (test : β → Bool) (weight value : β → ℚ) :
    ((items.filter test).map fun item => weight item * value item).sum =
      (items.map fun item => weight item * if test item then value item else 0).sum := by
  induction items with
  | nil => rfl
  | cons item items ih =>
      by_cases htest : test item = true <;> simp [htest, ih]

namespace Weighted

theorem weightOf_cons (entry : Nat × ℚ) (rest : Weighted ℚ) (state : Nat) :
    weightOf (entry :: rest) state =
      (if state = entry.1 then entry.2 else 0) + rest.weightOf state := by
  by_cases hstate : entry.1 = state
  · simp [weightOf, hstate]
  · simp [weightOf, hstate, Ne.symm hstate]

theorem mean_eq_sum_weightOf {entries : Weighted ℚ} {states : Nat}
    (hinside : ∀ entry ∈ entries, entry.1 < states) (value : Nat → ℚ) :
    entries.mean value =
      ((List.range states).map fun state => entries.weightOf state * value state).sum := by
  induction entries with
  | nil => simp [weightOf]
  | cons entry rest ih =>
      rw [List.forall_mem_cons] at hinside
      have hone : List.count entry.1 (List.range states) = 1 :=
        List.count_eq_one_of_mem List.nodup_range (List.mem_range.2 hinside.1)
      simp only [mean_cons, weightOf_cons, add_mul, List.sum_map_add, ih hinside.2, ite_mul,
        zero_mul]
      rw [List.sum_map_ite_eq, hone]
      simp

theorem mean_numbered (pairs : List (Nat × Label)) (transitions : List (Transition ℚ))
    (value : Nat → ℚ) :
    (numbered pairs (transitions.map Transition.entry)).mean value =
      (transitions.map fun transition =>
        transition.probability * value (pairs.idxOf transition.pair)).sum := by
  rw [mean, numbered, List.map_map, List.map_map]
  rfl

end Weighted

/-! ## Merging -/

theorem walkWeight_cons (transition : Transition ℚ) (walk : List (Transition ℚ)) :
    walkWeight (transition :: walk) = transition.probability * walkWeight walk :=
  List.prod_cons

theorem sum_walks_cons (lists : Origin → List (Transition ℚ)) (origin : Origin) (label : Label)
    (rest : List Label) :
    ((walks lists origin (label :: rest)).map walkWeight).sum =
      ((lists origin).map fun transition => transition.probability *
        if transition.label == label then
          ((walks lists (some transition.target) rest).map walkWeight).sum
        else 0).sum := by
  rw [walks, sum_map_sequences _ _ walkWeight_cons, sum_map_filter]

theorem Merging.sum_foldl_join (merging : Merging) (value : Nat × Label → ℚ)
    (contents batch : List (Transition ℚ)) :
    ((batch.foldl merging.join contents).map fun transition =>
        transition.probability * value transition.pair).sum =
      (contents.map fun transition => transition.probability * value transition.pair).sum +
        (batch.map fun transition => transition.probability * value transition.pair).sum := by
  have hjoin (contents : List (Transition ℚ)) (added : Transition ℚ) :
      ((merging.join contents added).map fun transition =>
          transition.probability * value transition.pair).sum =
        (contents.map fun transition => transition.probability * value transition.pair).sum +
          added.probability * value added.pair := by
    induction contents with
    | nil => simp [join]
    | cons held contents ih =>
        rw [join]
        split
        · next hjoins =>
          have hsame := pair_eq_of_joins hjoins
          simp only [List.map_cons, List.sum_cons, ← hsame]
          simp only [Transition.pair]
          ring
        · rw [List.map_cons, List.sum_cons, ih, List.map_cons, List.sum_cons, add_assoc]
  induction batch generalizing contents with
  | nil => simp
  | cons added batch ih =>
      rw [List.foldl_cons, ih, hjoin, List.map_cons, List.sum_cons, add_assoc]

/-- Transitions that merge were taken for the same next step. -/
theorem sum_walks_merged (merging : Merging) (stream : List (Origin × List (Transition ℚ)))
    (labels : List Label) (origin : Origin) :
    ((walks (merged merging stream) origin labels).map walkWeight).sum =
      ((walks (batchOf stream) origin labels).map walkWeight).sum := by
  induction labels generalizing origin with
  | nil => rfl
  | cons label rest ih =>
      rw [sum_walks_cons, sum_walks_cons]
      simp only [ih]
      have hsum := Merging.sum_foldl_join merging (fun pair =>
        if pair.2 == label then ((walks (batchOf stream) (some pair.1) rest).map walkWeight).sum
        else 0) [] (batchOf stream origin)
      simpa [merged, Transition.pair] using hsum

/-! ## Numbering -/

namespace MarkovChain

variable {pairs : List (Nat × Label)} {lists : Origin → List (Transition ℚ)}
  {propositions : List String} {pair : Nat × Label}

theorem sum_paths_cons (chain : MarkovChain ℚ) {entries : Weighted ℚ}
    (hinside : ∀ entry ∈ entries, entry.1 < chain.stateCount) (label : Label)
    (rest : List Label) :
    ((chain.paths (label :: rest)).map (chain.pathWeightFrom entries)).sum =
      entries.mean fun state => if chain.label state == label then
        ((chain.paths rest).map (chain.pathWeightFrom (chain.matrix.row state))).sum else 0 := by
  rw [paths, sum_map_sequences _ _ fun state rest => rfl, sum_map_filter,
    Weighted.mean_eq_sum_weightOf hinside]

theorem stateCount_ofPairs : (ofPairs pairs lists propositions).stateCount = pairs.length := by
  simp [ofPairs, stateCount]

theorem label_ofPairs (hpair : pair ∈ pairs) :
    (ofPairs pairs lists propositions).label (pairs.idxOf pair) = pair.2 := by
  simp [ofPairs, label, List.getElem?_idxOf hpair]

theorem row_ofPairs (hpair : pair ∈ pairs) :
    (ofPairs pairs lists propositions).matrix.row (pairs.idxOf pair) =
      numbered pairs ((lists (some pair.1)).map Transition.entry) := by
  simp [ofPairs, SparseMatrix.row, List.getElem?_idxOf hpair]

theorem mem_pairs_of_step (hpairs : ∀ pair, pair ∈ pairs ↔ ReachablePair lists pair)
    (hpair : pair ∈ pairs) {transition : Transition ℚ} (hmem : transition ∈ lists (some pair.1)) :
    transition.pair ∈ pairs :=
  (hpairs _).2 (((hpairs pair).1 hpair).step hmem)

theorem inside_numbered {transitions : List (Transition ℚ)}
    (hmem : ∀ transition ∈ transitions, transition.pair ∈ pairs) :
    ∀ entry ∈ numbered pairs (transitions.map Transition.entry), entry.1 < pairs.length := by
  intro entry hentry
  simp only [numbered, List.map_map, List.mem_map] at hentry
  obtain ⟨transition, htransition, rfl⟩ := hentry
  exact List.idxOf_lt_length_iff.2 (hmem transition htransition)

/-- Taking the state of a pair for the pair changes no sum: the label is the one of the transition
taken, and the row is the one of its target. -/
theorem sum_walks_eq_sum_paths (hpairs : ∀ pair, pair ∈ pairs ↔ ReachablePair lists pair)
    (labels : List Label) {origin : Origin}
    (hmem : ∀ transition ∈ lists origin, transition.pair ∈ pairs) :
    ((walks lists origin labels).map walkWeight).sum =
      (((ofPairs pairs lists propositions).paths labels).map
        ((ofPairs pairs lists propositions).pathWeightFrom
          (numbered pairs ((lists origin).map Transition.entry)))).sum := by
  induction labels generalizing origin with
  | nil => rfl
  | cons label rest ih =>
      -- the states on both sides are entered with the same weights, so the rests are compared
      have hinside : ∀ entry ∈ numbered pairs ((lists origin).map Transition.entry),
          entry.1 < (ofPairs pairs lists propositions).stateCount := by
        rw [stateCount_ofPairs]
        exact inside_numbered hmem
      rw [sum_walks_cons, sum_paths_cons _ hinside, Weighted.mean_numbered]
      refine congrArg List.sum (List.map_congr_left fun transition htransition => ?_)
      have hpair := hmem transition htransition
      have hrest := ih fun next hnext => mem_pairs_of_step hpairs hpair hnext
      rw [label_ofPairs hpair, row_ofPairs hpair, ← hrest]
      rfl

theorem row_ofPairs_cases (hnodup : pairs.Nodup) (state : Nat) :
    (ofPairs pairs lists propositions).matrix.row state = [] ∨
      ∃ pair ∈ pairs, (ofPairs pairs lists propositions).matrix.row state =
        numbered pairs ((lists (some pair.1)).map Transition.entry) := by
  by_cases hstate : state < pairs.length
  · have hpair := List.getElem_mem hstate
    refine .inr ⟨pairs[state], hpair, ?_⟩
    rw [← row_ofPairs hpair, hnodup.idxOf_getElem]
  · exact .inl (by simp [ofPairs, SparseMatrix.row, hstate])

theorem nodup_numbered {transitions : List (Transition ℚ)}
    (hmem : ∀ transition ∈ transitions, transition.pair ∈ pairs)
    (hnodup : (transitions.map Transition.pair).Nodup) :
    ((numbered pairs (transitions.map Transition.entry)).map (·.1)).Nodup := by
  have hcolumns : (numbered pairs (transitions.map Transition.entry)).map (·.1) =
      (transitions.map Transition.pair).map pairs.idxOf := by
    simp only [numbered, List.map_map]
    rfl
  rw [hcolumns]
  refine hnodup.map_on ?_
  intro pair hpair other hother hnumber
  obtain ⟨transition, htransition, rfl⟩ := List.mem_map.1 hpair
  exact (List.idxOf_inj (hmem transition htransition)).1 hnumber

end MarkovChain

theorem map_entry_merged (stream : List (Origin × List (Transition ℚ))) (origin : Origin) :
    (merged .acrossChoices stream origin).map Transition.entry =
      gatherBy Transition.pair (batchOf stream origin) :=
  Merging.map_entry_foldl_join fun held _ added _ => Merging.joins_acrossChoices held added

theorem nodup_pair_merged (stream : List (Origin × List (Transition ℚ))) (origin : Origin) :
    ((merged .acrossChoices stream origin).map Transition.pair).Nodup := by
  have hpairs : (merged .acrossChoices stream origin).map Transition.pair =
      ((batchOf stream origin).map Transition.pair).eraseDups := by
    have hgather := congrArg (List.map Prod.fst) (map_entry_merged stream origin)
    simpa [gatherBy, Function.comp_def, Transition.entry] using hgather
  rw [hpairs]
  exact nodup_eraseDups _

/-- The chain that is made of a recorded stream shows every sequence of labels with the probability
that the stream gives it, and has one state for every pair that can be reached. -/
theorem ChainArena.toMarkovChain_labelSequences (stateCapacity transitionCapacity states : Nat)
    (propositions : List String) (stream : List (Origin × List (Transition ℚ)))
    (arena : ChainArena ℚ)
    (hpasses : chainObserver.Passes (create stateCapacity transitionCapacity) stream arena)
    (hcovers : Covers stream states) :
    ∃ (chain : MarkovChain ℚ) (pairs : List (Nat × Label)),
      (arena.finish states propositions).toMarkovChain = .ok chain ∧
      (∀ labels, ((walks (batchOf stream) none labels).map walkWeight).sum =
        ((chain.paths labels).map chain.pathWeight).sum) ∧
      pairs.Nodup ∧ (∀ pair, pair ∈ pairs ↔ ReachablePair (batchOf stream) pair) ∧
      chain.labels = (pairs.map (·.2)).toArray ∧ chain.matrix.rowCount = chain.stateCount ∧
      (∀ pair ∈ pairs, chain.matrix.row (pairs.idxOf pair) =
        numbered pairs (gatherBy Transition.pair (batchOf stream (some pair.1)))) ∧
      (∀ state, ∀ entry ∈ chain.matrix.row state, entry.1 < chain.stateCount) ∧
      ∀ state, ((chain.matrix.row state).map (·.1)).Nodup := by
  have hlists := (Merging.records_observer .acrossChoices).lists hpasses hcovers propositions
  obtain ⟨pairs, hnodup, hpairs, hchain⟩ := hlists.toMarkovChain_eq
  refine ⟨_, pairs, hchain, ?_, hnodup, fun pair => (hpairs pair).trans reachablePair_merged, rfl,
    ?_, ?_, ?_, ?_⟩
  · intro labels
    rw [← sum_walks_merged .acrossChoices]
    exact MarkovChain.sum_walks_eq_sum_paths hpairs labels
      fun transition hmem => (hpairs _).2 (.initial hmem)
  · simp [MarkovChain.ofPairs, SparseMatrix.rowCount, MarkovChain.stateCount]
  · intro pair hpair
    rw [MarkovChain.row_ofPairs hpair, map_entry_merged]
  · intro state
    rw [MarkovChain.stateCount_ofPairs]
    rcases MarkovChain.row_ofPairs_cases hnodup state with hrow | ⟨pair, hpair, hrow⟩ <;> rw [hrow]
    · simp
    · exact MarkovChain.inside_numbered fun _ => MarkovChain.mem_pairs_of_step hpairs hpair
  · intro state
    rcases MarkovChain.row_ofPairs_cases hnodup state with hrow | ⟨pair, hpair, hrow⟩ <;> rw [hrow]
    · simp
    · exact MarkovChain.nodup_numbered (fun _ => MarkovChain.mem_pairs_of_step hpairs hpair)
        (nodup_pair_merged stream _)

def red : Label := .below 1

def signals : List (Origin × List (Transition ℚ)) :=
  [(some 1, [⟨0, 1, red, 0⟩]),
    (none, [⟨0, 1 / 3, red, 0⟩, ⟨0, 1 / 3, .empty, 0⟩, ⟨0, 1 / 3, red, 1⟩]),
    (some 0, [⟨1, 1 / 2, red, 0⟩, ⟨0, 1 / 2, .empty, 0⟩])]

theorem covers_signals : Covers signals 2 where
  initial := by decide
  once := by decide
  inside := by decide

theorem passes_signals :
    ∃ arena, ChainArena.chainObserver.Passes (.create 3 5) signals arena :=
  ⟨_, .cons (Prod.ext rfl (by decide +kernel)) (.cons (Prod.ext rfl (by decide +kernel))
    (.cons (Prod.ext rfl (by decide +kernel)) .nil))⟩

/-- Red twice in a row has probability one third, and one target makes a red and a dark state. -/
theorem ChainArena.toMarkovChain_labelSequences_signals :
    ∃ (arena : ChainArena ℚ) (chain : MarkovChain ℚ) (pairs : List (Nat × Label)),
      chainObserver.Passes (create 3 5) signals arena ∧ Covers signals 2 ∧
      (arena.finish 2 ["red"]).toMarkovChain = .ok chain ∧
      ((chain.paths [red, red]).map chain.pathWeight).sum = 1 / 3 ∧ pairs.Nodup ∧
      (0, red) ∈ pairs ∧ (0, .empty) ∈ pairs ∧ chain.labels = (pairs.map (·.2)).toArray ∧
      (∀ state, ∀ entry ∈ chain.matrix.row state, entry.1 < chain.stateCount) ∧
      ∀ state, ((chain.matrix.row state).map (·.1)).Nodup := by
  obtain ⟨arena, hpasses⟩ := passes_signals
  obtain ⟨chain, pairs, hchain, hsums, hnodup, hpairs, hlabels, -, -, hinside, hcolumns⟩ :=
    toMarkovChain_labelSequences 3 5 2 ["red"] signals arena hpasses covers_signals
  have hred : (⟨0, 1 / 3, red, 0⟩ : Transition ℚ) ∈ batchOf signals none := by decide +kernel
  have hdark : (⟨0, 1 / 3, .empty, 0⟩ : Transition ℚ) ∈ batchOf signals none := by decide +kernel
  refine ⟨arena, chain, pairs, hpasses, covers_signals, hchain, ?_, hnodup,
    (hpairs _).2 (.initial hred), (hpairs _).2 (.initial hdark), hlabels, hinside, hcolumns⟩
  rw [← hsums]
  decide +kernel

end Hazard
