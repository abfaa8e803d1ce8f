import Mathlib.Algebra.Order.Field.Rat
import Hazard.Proofs.FirstAppearance
/-!
# Chains after any offers

Transitions are offered to an arena one after another, for any sources in any order. Its chains show
what it has taken: for every source every key once, by first appearance, with the probabilities
taken under it added up. An offer is refused only for want of room, and leaves the arena as it was.
-/

namespace Hazard

variable {α : Type}

/-! ## Keys -/

namespace Merging

variable {merging : Merging}

/-- What the transitions that share an element agree in. -/
def key (merging : Merging) (transition : Transition α) : Nat × Label × Option Nat :=
  (transition.target, transition.label,
    match merging with
    | .acrossChoices => none
    | .withinChoice => some transition.distribution)

theorem joins_eq_key (held added : Transition α) :
    merging.joins held added = (merging.key added == merging.key held) := by
  rw [Bool.eq_iff_iff, beq_iff_eq, eq_comm (a := merging.key added)]
  cases merging <;> simp [joins, key, and_assoc]

variable [Scalar α]

theorem map_key_foldl_join (batch : List (Transition α)) :
    (batch.foldl merging.join []).map (fun held => (merging.key held, held.probability)) =
      gatherBy merging.key batch :=
  map_foldl_join (fun _ _ => rfl) fun held _ added _ => joins_eq_key held added

theorem forall_joins_iff {batch : List (Transition α)} {transition : Transition α} :
    (∀ held ∈ batch.foldl merging.join [], merging.joins held transition = false) ↔
      merging.key transition ∉ batch.map merging.key := by
  have hkeys : (batch.foldl merging.join []).map merging.key =
      (batch.map merging.key).eraseDups := by
    have hgather : (List.map (fun held => (merging.key held, held.probability))
        (batch.foldl merging.join [])).map Prod.fst = (gatherBy merging.key batch).map Prod.fst :=
      congrArg _ (map_key_foldl_join batch)
    simpa [gatherBy, Function.comp_def] using hgather
  rw [← List.mem_eraseDups, ← hkeys, List.mem_map, not_exists]
  refine forall_congr' fun held => ?_
  rw [joins_eq_key, beq_eq_false_iff_ne, not_and, ne_comm]

end Merging

/-! ## One offer -/

namespace ChainArena

variable {arena larger : ChainArena α} {contents : Origin → List (Transition α)}
  {paths : Origin → List Nat} {origin : Origin} {merging : Merging} {transition : Transition α}

theorem link_kept (arena : ChainArena α) (origin : Origin) (last : Option Nat) (index : Nat) :
    (arena.link origin last index).elements.size = arena.elements.size ∧
      (arena.link origin last index).heads.size = arena.heads.size ∧
      (arena.link origin last index).capacity = arena.capacity := by
  cases last <;> cases origin <;> simp [link]

variable [Scalar α]

/-- The room for sources and elements stays as it is, and no more elements are made than there is
room for. -/
theorem Holds.append_kept (hholds : arena.Holds contents)
    (hok : arena.append merging origin transition = .ok larger)
    (hroom : arena.elements.size ≤ arena.capacity) :
    larger.heads.size = arena.heads.size ∧ larger.capacity = arena.capacity ∧
      larger.elements.size ≤ larger.capacity := by
  obtain ⟨paths, hrep⟩ := hholds
  obtain ⟨-, -, ⟨-, index, -, -, -, -, -, -, rfl⟩ | ⟨-, hfree, rfl⟩⟩ := hrep.append_cases hok
  · simpa using hroom
  · obtain ⟨helements, hheads, hcapacity⟩ := link_kept _ origin _ _
    rw [helements, hheads, hcapacity, Array.size_push]
    exact ⟨rfl, rfl, hfree⟩

/-- An arena refuses a transition of a source that it has room for iff no element of the source
takes it and there is no room for one more. -/
theorem Represents.append_eq_error (hrep : arena.Represents contents paths) {head : Option Nat}
    (hhead : arena.head? origin = some head) {error : TraversalError α} :
    arena.append merging origin transition = .error error ↔
      error = .exhausted ⟨.transition, arena.capacity⟩ ∧
        (∀ held ∈ contents origin, merging.joins held transition = false) ∧
        arena.capacity ≤ arena.elements.size := by
  rcases hrep.append_outcome hhead merging transition with
    ⟨before, index, after, element, hpath, hget, -, hjoins, happend⟩ | ⟨hnone, happend⟩
  · have hmem : element.transition ∈ contents origin := by
      rw [← (hrep.carries origin).held, hpath, heldAt_append, heldAt_cons hget]
      simp
    rw [happend]
    constructor
    · intro hrefused
      cases hrefused
    · rintro ⟨-, hnone, -⟩
      rw [hnone _ hmem] at hjoins
      cases hjoins
  · rw [happend]
    split
    · next hfull =>
      rw [Except.error.injEq, eq_comm]
      exact (and_iff_left ⟨hnone, hfull⟩).symm
    · next hfree =>
      refine iff_of_false (fun hrefused => ?_) fun hrefused => hfree hrefused.2.2
      cases hrefused

end ChainArena

/-! ## Any offers -/

/-- An arena and what it has taken so far, each transition with its source. -/
structure ChainLog (α : Type) where
  arena : ChainArena α
  taken : List (Origin × Transition α)

namespace ChainLog

def start (stateCapacity transitionCapacity : Nat) : ChainLog α :=
  ⟨.create stateCapacity transitionCapacity, []⟩

def takenFor (log : ChainLog α) (origin : Origin) : List (Transition α) :=
  (log.taken.filter (·.1 == origin)).map (·.2)

variable [Scalar α]

def offer (merging : Merging) (log : ChainLog α) (call : Origin × Transition α) : ChainLog α :=
  match log.arena.appendAll merging call.1 [call.2] with
  | (arena, .ok _) => ⟨arena, log.taken ++ [call]⟩
  | (arena, .error _) => ⟨arena, log.taken⟩

variable {merging : Merging} {log : ChainLog α} {call : Origin × Transition α}

theorem offer_of_ok {larger : ChainArena α}
    (hok : log.arena.append merging call.1 call.2 = .ok larger) :
    log.offer merging call = ⟨larger, log.taken ++ [call]⟩ := by
  rw [offer, ChainArena.appendAll, hok]
  rfl

theorem offer_of_error {error : TraversalError α}
    (herror : log.arena.append merging call.1 call.2 = .error error) :
    log.offer merging call = log := by
  rw [offer, ChainArena.appendAll, herror]

/-- The chains of the arena hold what was taken, and keep to the room there is. -/
structure Faithful (merging : Merging) (stateCapacity transitionCapacity : Nat)
    (log : ChainLog α) : Prop where
  heads_size : log.arena.heads.size = stateCapacity
  capacity_eq : log.arena.capacity = transitionCapacity
  size_le : log.arena.elements.size ≤ log.arena.capacity
  holds : log.arena.Holds fun origin => (log.takenFor origin).foldl merging.join []

theorem faithful_start (merging : Merging) (stateCapacity transitionCapacity : Nat) :
    (start stateCapacity transitionCapacity : ChainLog α).Faithful merging stateCapacity
      transitionCapacity where
  heads_size := by simp [start, ChainArena.create]
  capacity_eq := rfl
  size_le := Nat.zero_le _
  holds := ChainArena.holds_create stateCapacity transitionCapacity

variable {stateCapacity transitionCapacity : Nat}

theorem Faithful.offer (hfaithful : log.Faithful merging stateCapacity transitionCapacity)
    (call : Origin × Transition α) :
    (log.offer merging call).Faithful merging stateCapacity transitionCapacity := by
  cases houtcome : log.arena.append merging call.1 call.2 with
  | error error =>
      rw [offer_of_error houtcome]
      exact hfaithful
  | ok larger =>
      rw [offer_of_ok houtcome]
      obtain ⟨hheads, hcapacity, hsize⟩ := hfaithful.holds.append_kept houtcome hfaithful.size_le
      refine ⟨hheads.trans hfaithful.heads_size, hcapacity.trans hfaithful.capacity_eq, hsize, ?_⟩
      convert hfaithful.holds.append houtcome using 2 with origin
      by_cases horigin : origin = call.1
      · subst horigin
        simp [takenFor]
      · simp [takenFor, Ne.symm horigin, Function.update_of_ne horigin]

theorem Faithful.foldl_offer (hfaithful : log.Faithful merging stateCapacity transitionCapacity)
    (calls : List (Origin × Transition α)) :
    (calls.foldl (ChainLog.offer merging) log).Faithful merging stateCapacity
      transitionCapacity := by
  induction calls generalizing log with
  | nil => exact hfaithful
  | cons call calls ih => exact ih (hfaithful.offer call)

theorem Faithful.exists_head (hfaithful : log.Faithful merging stateCapacity transitionCapacity)
    {origin : Origin} (hsource : ∀ source ∈ origin, source < stateCapacity) :
    ∃ head, log.arena.head? origin = some head := by
  cases origin with
  | none => exact ⟨_, rfl⟩
  | some source =>
      have hlt : source < log.arena.heads.size := by
        rw [hfaithful.heads_size]
        exact hsource source rfl
      exact ⟨_, Array.getElem?_eq_getElem hlt⟩

/-- A source that there is room for is refused a transition iff its key is new for the source and no
element is left for it. -/
theorem Faithful.append_eq_error
    (hfaithful : log.Faithful merging stateCapacity transitionCapacity) {origin : Origin}
    (hsource : ∀ source ∈ origin, source < stateCapacity) {transition : Transition α}
    {error : TraversalError α} :
    log.arena.append merging origin transition = .error error ↔
      error = .exhausted ⟨.transition, transitionCapacity⟩ ∧
        merging.key transition ∉ (log.takenFor origin).map merging.key ∧
        transitionCapacity ≤ log.arena.elements.size := by
  obtain ⟨head, hhead⟩ := hfaithful.exists_head hsource
  obtain ⟨paths, hrep⟩ := hfaithful.holds
  rw [hrep.append_eq_error hhead, Merging.forall_joins_iff, hfaithful.capacity_eq]

/-- The walk from the given place comes past the elements at the given places, none twice, and ends.
They are one for each key of the batch, by first appearance, with the probabilities under the key
added up in order. -/
structure Gathers (merging : Merging) (elements : Array (ChainElement α)) (head : Option Nat)
    (path : List Nat) (batch : List (Transition α)) : Prop where
  segment : Segment elements head path none
  once : path.Nodup
  walk : chainFrom elements (elements.size + 1) head = path.filterMap (elements[·]?)
  sums : (path.filterMap (elements[·]?)).map
      (fun element => (merging.key element.transition, element.probability)) =
    gatherBy merging.key batch

theorem gathers_of_carries {arena : ChainArena α} {origin : Origin} {path : List Nat}
    {batch : List (Transition α)} {head : Option Nat}
    (hcarries : arena.Carries origin path (batch.foldl merging.join []))
    (hhead : arena.head? origin = some head) : Gathers merging arena.elements head path batch := by
  have hsegment := hcarries.segment head hhead
  have hlength : path.length < arena.elements.size + 1 :=
    Nat.lt_succ_of_le (hsegment.length_le hcarries.nodup)
  have hwalk := hsegment.chainFrom_eq hlength
  refine ⟨hsegment, hcarries.nodup, hwalk, ?_⟩
  rw [← Merging.map_key_foldl_join, ← hcarries.held, ← hsegment.map_transition_chainFrom hlength,
    hwalk, List.map_map]
  rfl

structure Shows (merging : Merging) (stateCapacity transitionCapacity : Nat) (log : ChainLog α)
    (paths : Origin → List Nat) : Prop where
  gathers : ∀ origin, (∀ source ∈ origin, source < stateCapacity) →
    ∃ head, log.arena.head? origin = some head ∧
      Gathers merging log.arena.elements head (paths origin) (log.takenFor origin)
  apart : ∀ origin other, origin ≠ other → (paths origin).Disjoint (paths other)
  room : log.arena.elements.size ≤ transitionCapacity
  refuses_iff : ∀ origin transition, (∀ source ∈ origin, source < stateCapacity) →
    ((∃ error, log.arena.append merging origin transition = .error error) ↔
      merging.key transition ∉ (log.takenFor origin).map merging.key ∧
        log.arena.elements.size = transitionCapacity)
  refused : ∀ origin transition error, (∀ source ∈ origin, source < stateCapacity) →
    log.arena.append merging origin transition = .error error →
      error = .exhausted ⟨.transition, transitionCapacity⟩ ∧
        log.offer merging (origin, transition) = log

/-- Whatever is offered, for whatever sources and in whatever order: the chain of every source
gathers what was taken for it, no two chains share an element, there are never more elements than
there is room for, and an offer is refused iff its key is new for the source and all room is taken,
and then changes nothing. -/
theorem shows_after_offers (merging : Merging) (stateCapacity transitionCapacity : Nat)
    (calls : List (Origin × Transition α)) :
    ∃ paths, (calls.foldl (offer merging) (start stateCapacity transitionCapacity)).Shows merging
      stateCapacity transitionCapacity paths := by
  have hfaithful :=
    (faithful_start merging stateCapacity transitionCapacity).foldl_offer calls
  generalize calls.foldl (offer merging) (start stateCapacity transitionCapacity) = log
    at hfaithful ⊢
  have hroom := hfaithful.capacity_eq ▸ hfaithful.size_le
  obtain ⟨paths, hrep⟩ := hfaithful.holds
  refine ⟨paths, fun origin hsource => ?_, ?_, hroom, fun origin transition hsource => ?_, ?_⟩
  · obtain ⟨head, hhead⟩ := hfaithful.exists_head hsource
    exact ⟨head, hhead, gathers_of_carries (hrep.carries origin) hhead⟩
  · intro origin other hne index hindex hother
    exact hne (hrep.disjoint origin other index hindex hother)
  · constructor
    · rintro ⟨error, herror⟩
      obtain ⟨-, hnew, hfull⟩ := (hfaithful.append_eq_error hsource).1 herror
      exact ⟨hnew, le_antisymm hroom hfull⟩
    · rintro ⟨hnew, hfull⟩
      exact ⟨_, (hfaithful.append_eq_error hsource).2 ⟨rfl, hnew, hfull.ge⟩⟩
  · intro origin transition error hsource herror
    exact ⟨((hfaithful.append_eq_error hsource).1 herror).1, offer_of_error herror⟩

/-- Two sources and the initial step take turns. The third and the last transition share elements
with earlier ones, and there is no room for the fifth. -/
def turns : List (Origin × Transition ℚ) :=
  [(none, ⟨0, 1 / 2, .empty, 0⟩), (some 0, ⟨1, 1 / 4, .empty, 0⟩), (none, ⟨0, 1 / 2, .empty, 1⟩),
    (some 0, ⟨1, 1 / 4, .below 1, 0⟩), (some 1, ⟨0, 1, .empty, 0⟩), (some 0, ⟨1, 1 / 2, .empty, 0⟩)]

theorem shows_after_offers_turns :
    ∃ paths, (turns.foldl (offer .acrossChoices) (start 2 3)).Shows .acrossChoices 2 3 paths ∧
      (turns.foldl (offer .acrossChoices) (start 2 3)).arena.elements.size = 3 ∧
      (turns.foldl (offer .acrossChoices) (start 2 3)).takenFor (some 1) = [] ∧
      gatherBy Merging.acrossChoices.key
          ((turns.foldl (offer .acrossChoices) (start 2 3)).takenFor (some 0)) =
        [((1, .empty, none), 3 / 4), ((1, .below 1, none), 1 / 4)] := by
  obtain ⟨paths, hshows⟩ := shows_after_offers .acrossChoices 2 3 turns
  exact ⟨paths, hshows, by decide +kernel, by decide +kernel, by decide +kernel⟩

end ChainLog

end Hazard
