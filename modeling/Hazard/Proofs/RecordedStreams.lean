import Hazard.Proofs.Exploration
import Hazard.Proofs.PairNumbering
/-!
# Recorded streams

Chains are recorded from a stream of batches. Whoever lets a whole stream pass has, for every source
of it, the merged batch of the source, whatever the order in which the sources came.
-/

namespace Hazard

variable {α : Type}

def batchOf (stream : List (Origin × List (Transition α))) (origin : Origin) :
    List (Transition α) :=
  (stream.lookup origin).getD []

/-- One initial batch and one batch for every state, with all targets among the states. -/
structure Covers (stream : List (Origin × List (Transition α))) (states : Nat) : Prop where
  initial : (stream.map (·.1)).count none = 1
  once : ∀ state < states, (stream.map (·.1)).count (some state) = 1
  inside : ∀ entry ∈ stream, ∀ transition ∈ entry.2, transition.target < states

def reported (stream : List (Origin × List (Transition α))) (origin : Origin) :
    List (Transition α) :=
  (stream.filter (·.1 == origin)).flatMap (·.2)

section

variable {stream : List (Origin × List (Transition α))} {origin : Origin}

theorem reported_eq_nil (hcount : (stream.map (·.1)).count origin = 0) :
    reported stream origin = [] := by
  have hnone : ∀ entry ∈ stream, ¬(entry.1 == origin) = true := by
    intro entry hentry heq
    rw [List.count_eq_zero] at hcount
    exact hcount (List.mem_map.2 ⟨entry, hentry, by simpa using heq⟩)
  rw [reported, List.filter_eq_nil_iff.2 hnone, List.flatMap_nil]

theorem reported_eq_batchOf (hcount : (stream.map (·.1)).count origin = 1) :
    reported stream origin = batchOf stream origin := by
  induction stream with
  | nil => simp at hcount
  | cons entry rest ih =>
      obtain ⟨source, batch⟩ := entry
      rw [List.map_cons, List.count_cons] at hcount
      by_cases hsource : source = origin
      · subst hsource
        have hrest : reported rest source = [] := reported_eq_nil (by simpa using hcount)
        rw [reported] at hrest
        simp [reported, batchOf, hrest]
      · have hne : (origin == source) = false := by simpa using Ne.symm hsource
        simp only [beq_iff_eq, hsource, if_false, Nat.add_zero] at hcount
        have hrest := ih hcount
        simpa [reported, batchOf, hsource, List.lookup_cons, hne] using hrest

theorem batchOf_eq_nil (hnot : origin ∉ stream.map (·.1)) : batchOf stream origin = [] := by
  have hnone : stream.lookup origin = none := by
    rw [List.lookup_eq_none_iff]
    intro entry hentry
    have hne : origin ≠ entry.1 := fun heq => hnot (List.mem_map.2 ⟨entry, hentry, heq.symm⟩)
    simpa using hne
  rw [batchOf, hnone, Option.getD_none]

theorem mem_stream_of_mem_map (hmem : origin ∈ stream.map (·.1)) :
    (origin, batchOf stream origin) ∈ stream := by
  cases hlookup : stream.lookup origin with
  | none =>
      rw [List.lookup_eq_none_iff] at hlookup
      obtain ⟨entry, hentry, rfl⟩ := List.mem_map.1 hmem
      simpa using hlookup entry hentry
  | some batch =>
      obtain ⟨before, after, rfl, -⟩ := List.lookup_eq_some_iff.1 hlookup
      simp [batchOf, hlookup]

theorem Covers.lt_of_mem {states : Nat} (hcovers : Covers stream states) {transition : Transition α}
    (hmem : transition ∈ batchOf stream origin) : transition.target < states := by
  by_cases horigin : origin ∈ stream.map (·.1)
  · exact hcovers.inside _ (mem_stream_of_mem_map horigin) transition hmem
  · rw [batchOf_eq_nil horigin] at hmem
    simp at hmem

theorem Covers.lt_of_reachable {states : Nat} (hcovers : Covers stream states)
    {pair : Nat × Label} (hpair : ReachablePair (batchOf stream) pair) : pair.1 < states := by
  cases hpair with
  | initial hmem => exact hcovers.lt_of_mem hmem
  | step _ hmem => exact hcovers.lt_of_mem hmem

end

/-! ## Observers that record -/

variable [Scalar α]

def Records (observer : Observer α (ChainArena α)) (merging : Merging) : Prop :=
  ∀ arena origin batch next, observer.observe arena origin batch = (next, .ok .proceed) →
    batch ≠ [] ∧ arena.appendAll merging origin batch = (next, .ok .proceed)

namespace Merging

/-- Who records a system: without choices all transitions of a source may merge, with choices those
of one choice. -/
def observer : Merging → Observer α (ChainArena α)
  | .acrossChoices => ChainArena.chainObserver
  | .withinChoice => ChainArena.processObserver

def check (origin : Origin) (batch : List (Transition α)) :
    Merging → Except (TraversalError α) Unit
  | .acrossChoices => Distribution.check origin (batch.map (·.probability))
  | .withinChoice => Distribution.checkChoices origin batch

variable {merging : Merging} {origin : Origin} {batch : List (Transition α)}
  {arena next : ChainArena α} {verdict : Verdict}

theorem observe_eq : merging.observer.observe arena origin batch =
    arena.accept merging origin batch (merging.check origin batch) := by
  cases merging <;> rfl

theorem ne_nil_of_check (h : merging.check origin batch = .ok ()) : batch ≠ [] := by
  rintro rfl
  cases merging <;> cases h

theorem observe_eq_ok (h : merging.observer.observe arena origin batch = (next, .ok verdict)) :
    merging.check origin batch = .ok () ∧
      arena.appendAll merging origin batch = (next, .ok verdict) := by
  rw [observe_eq] at h
  cases hcheck : merging.check origin batch with
  | error error =>
      rw [hcheck] at h
      cases h
  | ok accepted =>
      rw [hcheck] at h
      exact ⟨rfl, h⟩

theorem records_observer (merging : Merging) : Records (α := α) merging.observer merging := by
  intro arena origin batch next hshown
  obtain ⟨hcheck, happend⟩ := observe_eq_ok hshown
  exact ⟨ne_nil_of_check hcheck, happend⟩

end Merging

namespace Records

variable {observer : Observer α (ChainArena α)} {merging : Merging} {arena final : ChainArena α}
  {stream : List (Origin × List (Transition α))} {contents : Origin → List (Transition α)}

theorem batch_ne_nil (hrecords : Records observer merging)
    (hpasses : observer.Passes arena stream final) : ∀ entry ∈ stream, entry.2 ≠ [] := by
  induction hpasses with
  | nil => simp
  | cons hshown _ ih =>
      rw [List.forall_mem_cons]
      exact ⟨(hrecords _ _ _ _ hshown).1, ih⟩

theorem holds (hrecords : Records observer merging)
    (hpasses : observer.Passes arena stream final) (hholds : arena.Holds contents) :
    final.Holds fun origin => (reported stream origin).foldl merging.join (contents origin) := by
  induction hpasses generalizing contents with
  | nil => exact hholds
  | @cons arena next final source batch rest hshown _ ih =>
      have hstep := ih (hholds.appendAll (hrecords _ _ _ _ hshown).2)
      convert hstep using 2 with origin
      by_cases horigin : source = origin
      · subst horigin
        simp [reported]
      · simp [reported, horigin, Function.update_of_ne (Ne.symm horigin)]

end Records

/-! ## Finished chains -/

def merged (merging : Merging) (stream : List (Origin × List (Transition α))) (origin : Origin) :
    List (Transition α) :=
  (batchOf stream origin).foldl merging.join []

section

variable {merging : Merging} {stream : List (Origin × List (Transition α))}

theorem reachablePair_merged {pair : Nat × Label} :
    ReachablePair (merged merging stream) pair ↔ ReachablePair (batchOf stream) pair := by
  have hpairs (origin : Origin) (pair : Nat × Label) :
      pair ∈ (merged merging stream origin).map Transition.pair ↔
        pair ∈ (batchOf stream origin).map Transition.pair := by
    rw [merged, Merging.mem_map_pair_foldl_join]
    simp
  exact ⟨.mono fun origin pair => (hpairs origin pair).1,
    .mono fun origin pair => (hpairs origin pair).2⟩

theorem Records.lists {observer : Observer α (ChainArena α)} {arena : ChainArena α}
    {stateCapacity transitionCapacity states : Nat} (hrecords : Records observer merging)
    (hpasses : observer.Passes (.create stateCapacity transitionCapacity) stream arena)
    (hcovers : Covers stream states) (propositions : List String) :
    (arena.finish states propositions).Lists (merged merging stream) := by
  have hholds := hrecords.holds hpasses (ChainArena.holds_create _ _)
  refine ⟨?_, ?_⟩
  · rw [hholds.map_transition_initial, merged, reported_eq_batchOf hcovers.initial]
  · intro pair hpair
    have hlt := hcovers.lt_of_reachable (reachablePair_merged.1 hpair)
    have hcount := hcovers.once pair.1 hlt
    have hmem : some pair.1 ∈ stream.map (·.1) := List.count_pos_iff.1 (by omega)
    have hne : merged merging stream (some pair.1) ≠ [] := by
      obtain ⟨first, hfirst⟩ := List.exists_mem_of_ne_nil _
        (hrecords.batch_ne_nil hpasses _ (mem_stream_of_mem_map hmem))
      have hpairs : first.pair ∈ (merged merging stream (some pair.1)).map Transition.pair :=
        (Merging.mem_map_pair_foldl_join [] _ _).2 (.inr (List.mem_map_of_mem hfirst))
      intro hnil
      simp [hnil] at hpairs
    rw [merged, ← reported_eq_batchOf hcount] at hne ⊢
    exact hholds.exists_outgoing hlt hne

end

end Hazard
