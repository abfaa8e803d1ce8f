import Mathlib.Algebra.Order.Field.Rat
import Hazard.Proofs.RecordedStreams
/-!
# Choices stay separate

A system with choices becomes a decision process whose states are the pairs that can be reached.
Every choice of a batch becomes one distribution of its own, by first appearance, with the weights
of the batch added up pair by pair.
-/

namespace Hazard

variable {α : Type} [Scalar α]

/-- The choices of a batch, each once and by first appearance; in each its pairs, each once, with
their probabilities added up. -/
def choicesIn (pairs : List (Nat × Label)) (batch : List (Transition α)) : List (Weighted α) :=
  (batch.map (·.distribution)).eraseDups.map fun id =>
    numbered pairs (gatherBy Transition.pair (batch.filter (·.distribution == id)))

theorem numberedByChoice_merged (pairs : List (Nat × Label))
    (stream : List (Origin × List (Transition α))) (origin : Origin) :
    TransitionChains.numberedByChoice pairs (merged .withinChoice stream origin) =
      choicesIn pairs (batchOf stream origin) := by
  rw [TransitionChains.numberedByChoice, merged, Merging.choices_foldl_join, choicesIn]
  simp only [Merging.map_entry_filter_foldl_join]

/-- The process that is made of a recorded stream has one state for every pair that can be reached,
and there the choices that the stream has for the target of the pair. -/
theorem ChainArena.toDecisionProcess_choices (stateCapacity transitionCapacity states : Nat)
    (propositions : List String) (stream : List (Origin × List (Transition α)))
    (arena : ChainArena α)
    (hpasses : processObserver.Passes (create stateCapacity transitionCapacity) stream arena)
    (hcovers : Covers stream states) :
    ∃ pairs : List (Nat × Label), pairs.Nodup ∧
      (∀ pair, pair ∈ pairs ↔ ReachablePair (batchOf stream) pair) ∧
      (arena.finish states propositions).toDecisionProcess = .ok
        { choices := (pairs.map fun pair => choicesIn pairs (batchOf stream (some pair.1))).toArray
          labels := (pairs.map (·.2)).toArray
          initial := choicesIn pairs (batchOf stream none)
          propositions := propositions } := by
  have hlists := (Merging.records_observer .withinChoice).lists hpasses hcovers propositions
  obtain ⟨pairs, hnodup, hpairs, hprocess⟩ := hlists.toDecisionProcess_eq
  simp only [reachablePair_merged] at hpairs
  simp only [numberedByChoice_merged] at hprocess
  exact ⟨pairs, hnodup, hpairs, hprocess⟩

def won : Label := .below 1

/-- A wager under two interleaved choices, one of which names an outcome twice. -/
def wagers : List (Origin × List (Transition Rat)) :=
  [(some 0, [⟨1, 1 / 2, won, 7⟩, ⟨1, 1 / 4, won, 3⟩, ⟨0, 1 / 2, .empty, 7⟩, ⟨0, 1 / 2, .empty, 3⟩,
      ⟨1, 1 / 4, won, 3⟩]),
    (none, [⟨0, 1, .empty, 0⟩]),
    (some 1, [⟨1, 1, .empty, 0⟩])]

theorem covers_wagers : Covers wagers 2 where
  initial := by decide
  once := by decide
  inside := by decide

theorem passes_wagers :
    ∃ arena, ChainArena.processObserver.Passes (.create 2 8) wagers arena :=
  ⟨_, .cons (Prod.ext rfl (by decide +kernel)) (.cons (Prod.ext rfl (by decide +kernel))
    (.cons (Prod.ext rfl (by decide +kernel)) .nil))⟩

/-- The state after a wager is won once is not the state in which it was won. -/
theorem ChainArena.toDecisionProcess_choices_wagers :
    ∃ (arena : ChainArena Rat) (pairs : List (Nat × Label)),
      processObserver.Passes (create 2 8) wagers arena ∧ Covers wagers 2 ∧
      pairs.Nodup ∧ (1, won) ∈ pairs ∧ (1, .empty) ∈ pairs ∧
      choicesIn pairs (batchOf wagers (some 0)) =
        [[(pairs.idxOf (1, won), 1 / 2), (pairs.idxOf (0, .empty), 1 / 2)],
          [(pairs.idxOf (1, won), 1 / 2), (pairs.idxOf (0, .empty), 1 / 2)]] ∧
      (arena.finish 2 ["won"]).toDecisionProcess = .ok
        { choices := (pairs.map fun pair => choicesIn pairs (batchOf wagers (some pair.1))).toArray
          labels := (pairs.map (·.2)).toArray
          initial := choicesIn pairs (batchOf wagers none)
          propositions := ["won"] } := by
  obtain ⟨arena, hpasses⟩ := passes_wagers
  obtain ⟨pairs, hnodup, hpairs, hprocess⟩ :=
    toDecisionProcess_choices 2 8 2 ["won"] wagers arena hpasses covers_wagers
  have hbefore : (⟨0, 1, .empty, 0⟩ : Transition Rat) ∈ batchOf wagers none := by decide +kernel
  have hwin : (⟨1, 1 / 2, won, 7⟩ : Transition Rat) ∈ batchOf wagers (some 0) := by decide +kernel
  have hafter : (⟨1, 1, .empty, 0⟩ : Transition Rat) ∈ batchOf wagers (some 1) := by decide +kernel
  have hwon := (ReachablePair.initial hbefore).step hwin
  have hgather : ∀ id ∈ [7, 3],
      gatherBy Transition.pair ((batchOf wagers (some 0)).filter (·.distribution == id)) =
        [((1, won), 1 / 2), ((0, .empty), 1 / 2)] := by decide +kernel
  have hids : ((batchOf wagers (some 0)).map (·.distribution)).eraseDups = [7, 3] := by
    decide +kernel
  refine ⟨arena, pairs, hpasses, covers_wagers, hnodup, (hpairs _).2 hwon,
    (hpairs _).2 (hwon.step hafter), ?_, hprocess⟩
  rw [choicesIn, hids]
  simp [numbered, hgather]

end Hazard
