import Hazard.Graph.Cycles
import Hazard.Proofs.StateSet
import Mathlib.Data.List.Nodup
import Mathlib.Logic.Relation
import Mathlib.Order.Lattice
/-!
# The search for cycles

The invariant of the depth-first search, and what entering a state and looking at an edge make of
it. States under way lead to every state entered after them whose component is still open, and
every such state leads back to one under way. The low number of a state under way is at most the
number of every open state that an edge from its part of the trail leads to.
-/

namespace Hazard

open Relation

def StateGraph.Inside (graph : StateGraph) (within : StateSet) (source target : Nat) : Prop :=
  within.contains source = true ∧ within.contains target = true ∧
    target ∈ graph.successors source

namespace CycleSearch

variable {graph : StateGraph} {within : StateSet} {search : CycleSearch} {state other : Nat}

/-! ## Numbers -/

def Entered (search : CycleSearch) (state : Nat) : Prop :=
  search.numberOf state ≠ none

/-- The number of a state, or zero if it has none. -/
def rank (search : CycleSearch) (state : Nat) : Nat :=
  (search.numberOf state).getD 0

def Closed (search : CycleSearch) (state : Nat) : Prop :=
  search.Entered state ∧ state ∉ search.trail

def underWay (search : CycleSearch) : List Nat :=
  search.frames.map Frame.state

theorem numberOf_enter (hstate : state < search.number.size) :
    (search.enter graph state).numberOf other =
      if other = state then some search.entered else search.numberOf other := by
  simp only [numberOf, enter, Array.getElem?_setIfInBounds]
  by_cases hother : other = state
  · simp [hother, hstate]
  · simp [hother, Ne.symm hother]

theorem entered_enter (hstate : state < search.number.size) :
    (search.enter graph state).Entered other ↔ other = state ∨ search.Entered other := by
  rw [Entered, Entered, numberOf_enter hstate]
  by_cases hother : other = state
  · simp [hother]
  · simp [hother]

theorem rank_enter (hstate : state < search.number.size) :
    (search.enter graph state).rank other =
      if other = state then search.entered else search.rank other := by
  rw [rank, rank, numberOf_enter hstate]
  split <;> rfl

theorem lowOf_enter (hstate : state < search.low.size) :
    (search.enter graph state).lowOf other =
      if other = state then search.entered else search.lowOf other := by
  simp only [lowOf, enter, Array.getD_eq_getD_getElem?, Array.getElem?_setIfInBounds]
  by_cases hother : other = state
  · simp [hother, hstate]
  · simp [hother, Ne.symm hother]

theorem lowOf_lower {bound : Nat} (hstate : state < search.low.size) :
    (search.lower state bound).lowOf other =
      if other = state then min (search.lowOf state) bound else search.lowOf other := by
  simp only [lowOf, lower, Array.getD_eq_getD_getElem?, Array.getElem?_modify]
  by_cases hother : other = state
  · simp [hother, hstate]
  · simp [hother, Ne.symm hother]

/-! ## The invariant -/

def Awaits (search : CycleSearch) (pending : Nat → Nat → Prop) (source target : Nat) : Prop :=
  pending source target ∨ ∃ frame ∈ search.frames, frame.state = source ∧ target ∈ frame.ahead

/-- The newest state under way that is not newer than the given one. -/
def Owns (search : CycleSearch) (owner state : Nat) : Prop :=
  search.rank owner ≤ search.rank state ∧
    ∀ other ∈ search.underWay, search.rank other ≤ search.rank state →
      search.rank other ≤ search.rank owner

/-- Numbers descend along the trail and along the states under way, which are part of it. -/
structure Ordered (graph : StateGraph) (within : StateSet) (search : CycleSearch) : Prop where
  number_size : search.number.size = graph.stateCount
  low_size : search.low.size = graph.stateCount
  onTrail_fits : search.onTrail.Fits graph.stateCount
  cyclic_fits : search.cyclic.Fits graph.stateCount
  within_of_entered : ∀ {state}, search.Entered state → within.contains state = true
  rank_lt : ∀ {state}, search.Entered state → search.rank state < search.entered
  onTrail_iff : ∀ {state}, search.onTrail.contains state = true ↔ state ∈ search.trail
  trail_entered : ∀ {state}, state ∈ search.trail → search.Entered state
  trail_desc : search.trail.Pairwise fun newer older => search.rank older < search.rank newer
  underWay_trail : ∀ {state}, state ∈ search.underWay → state ∈ search.trail
  underWay_desc : search.underWay.Pairwise fun newer older => search.rank older < search.rank newer

structure Explored (graph : StateGraph) (within : StateSet) (pending : Nat → Nat → Prop)
    (search : CycleSearch) : Prop where
  ahead_edge : ∀ frame ∈ search.frames, ∀ target ∈ frame.ahead,
    target ∈ graph.successors frame.state
  explored : ∀ {source target}, search.Entered source → graph.Inside within source target →
    search.Entered target ∨ search.Awaits pending source target
  closed : ∀ {source target}, search.Closed source → graph.Inside within source target →
    search.Closed target

/-- The trail hangs together: it leads back to states under way, and they lead on to all of it that
is newer. -/
structure Linked (graph : StateGraph) (within : StateSet) (search : CycleSearch) : Prop where
  leads_back : ∀ {state}, state ∈ search.trail → ∃ owner ∈ search.underWay,
    search.rank owner ≤ search.rank state ∧ ReflTransGen (graph.Inside within) state owner
  leads_on : ∀ {owner state}, owner ∈ search.underWay → state ∈ search.trail →
    search.rank owner ≤ search.rank state → ReflTransGen (graph.Inside within) owner state

/-- Low numbers are numbers of states that can be reached, and bound where edges lead to. -/
structure Bounded (graph : StateGraph) (within : StateSet) (pending : Nat → Nat → Prop)
    (search : CycleSearch) : Prop where
  low_le : ∀ {owner}, owner ∈ search.underWay → search.lowOf owner ≤ search.rank owner
  low_reached : ∀ {owner}, owner ∈ search.underWay → ∃ state ∈ search.trail,
    ReflTransGen (graph.Inside within) owner state ∧ search.rank state = search.lowOf owner
  low_bound : ∀ {owner source target}, owner ∈ search.underWay → source ∈ search.trail →
    search.Owns owner source → graph.Inside within source target → target ∈ search.trail →
      search.lowOf owner ≤ search.rank target ∨ search.Awaits pending source target

structure Sound (graph : StateGraph) (within : StateSet) (pending : Nat → Nat → Prop)
    (search : CycleSearch) : Prop
    extends search.Ordered graph within, search.Explored graph within pending,
      search.Linked graph within, search.Bounded graph within pending where
  cyclic_iff : ∀ {state}, search.cyclic.contains state = true ↔
    search.Closed state ∧ TransGen (graph.Inside within) state state

theorem sound_start (graph : StateGraph) (within : StateSet) :
    (start graph.stateCount).Sound graph within fun _ _ => False := by
  have hfresh (state : Nat) : ¬ (start graph.stateCount).Entered state := by
    simp only [Entered, numberOf, start, Array.getElem?_replicate]
    split <;> simp
  exact {
    number_size := by simp [start]
    low_size := by simp [start]
    onTrail_fits := StateSet.fits_empty _
    cyclic_fits := StateSet.fits_empty _
    within_of_entered := fun h => absurd h (hfresh _)
    rank_lt := fun h => absurd h (hfresh _)
    onTrail_iff := by simp [start, StateSet.contains_empty]
    trail_entered := by simp [start]
    trail_desc := .nil
    underWay_trail := by simp [start, underWay]
    underWay_desc := .nil
    ahead_edge := by simp [start]
    explored := fun h => absurd h (hfresh _)
    closed := fun h => absurd h.1 (hfresh _)
    leads_back := by simp [start]
    leads_on := by simp [start]
    low_le := by simp [start, underWay]
    low_reached := by simp [start, underWay]
    low_bound := by simp [start]
    cyclic_iff := by
      intro state
      have hempty : (start graph.stateCount).cyclic.contains state = false :=
        StateSet.contains_empty
      simp [hempty, Closed, hfresh] }

variable {pending : Nat → Nat → Prop}

theorem Explored.closed_of_reaches (hexplored : search.Explored graph within pending)
    {source target : Nat} (hsource : search.Closed source)
    (hpath : ReflTransGen (graph.Inside within) source target) : search.Closed target := by
  induction hpath with
  | refl => exact hsource
  | tail _ hedge ih => exact hexplored.closed ih hedge

theorem Ordered.eq_of_rank_eq (hordered : search.Ordered graph within)
    (hstate : state ∈ search.trail) (hother : other ∈ search.trail)
    (hrank : search.rank state = search.rank other) : state = other := by
  have hdiffer : (search.trail.map search.rank).Nodup :=
    List.pairwise_map.2 (hordered.trail_desc.imp fun h => h.ne')
  exact List.inj_on_of_nodup_map hdiffer hstate hother hrank

theorem Ordered.lt_of_mem_trail (hordered : search.Ordered graph within)
    (hwithin : within.Fits graph.stateCount) (hstate : state ∈ search.trail) :
    state < graph.stateCount :=
  hwithin.lt_of_contains (hordered.within_of_entered (hordered.trail_entered hstate))

/-! ## Entering a state -/

section Enter

variable (hordered : search.Ordered graph within) (hlt : state < graph.stateCount)
include hordered hlt

theorem Ordered.rank_enter_self : (search.enter graph state).rank state = search.entered := by
  rw [rank_enter (hordered.number_size ▸ hlt), if_pos rfl]

theorem Ordered.lowOf_enter_self : (search.enter graph state).lowOf state = search.entered := by
  rw [lowOf_enter (hordered.low_size ▸ hlt), if_pos rfl]

variable (hnew : ¬ search.Entered state)
include hnew

theorem Ordered.rank_enter_of_mem (hother : other ∈ search.trail) :
    (search.enter graph state).rank other = search.rank other := by
  have hne : other ≠ state := fun h => hnew (h ▸ hordered.trail_entered hother)
  rw [rank_enter (hordered.number_size ▸ hlt), if_neg hne]

theorem Ordered.lowOf_enter_of_mem (hother : other ∈ search.trail) :
    (search.enter graph state).lowOf other = search.lowOf other := by
  have hne : other ≠ state := fun h => hnew (h ▸ hordered.trail_entered hother)
  rw [lowOf_enter (hordered.low_size ▸ hlt), if_neg hne]

theorem Ordered.rank_enter_lt (hother : other ∈ search.trail) :
    (search.enter graph state).rank other < search.entered := by
  rw [hordered.rank_enter_of_mem hlt hnew hother]
  exact hordered.rank_lt (hordered.trail_entered hother)

theorem Ordered.closed_enter :
    (search.enter graph state).Closed other ↔ search.Closed other := by
  have hne (h : search.Entered other) : other ≠ state := fun heq => hnew (heq ▸ h)
  have htrail : (search.enter graph state).trail = state :: search.trail := rfl
  rw [Closed, Closed, entered_enter (hordered.number_size ▸ hlt), htrail, List.mem_cons]
  tauto

theorem Ordered.enter (hstate : within.contains state = true) :
    (search.enter graph state).Ordered graph within where
  number_size := by simpa [CycleSearch.enter] using hordered.number_size
  low_size := by simpa [CycleSearch.enter] using hordered.low_size
  onTrail_fits := hordered.onTrail_fits.adjoin hlt
  cyclic_fits := hordered.cyclic_fits
  within_of_entered := by
    intro other hother
    rcases (entered_enter (hordered.number_size ▸ hlt)).1 hother with rfl | hother
    · exact hstate
    · exact hordered.within_of_entered hother
  rank_lt := by
    intro other hother
    rw [rank_enter (hordered.number_size ▸ hlt)]
    split
    · exact Nat.lt_succ_self _
    · next hne =>
      have hold := ((entered_enter (hordered.number_size ▸ hlt)).1 hother).resolve_left hne
      exact Nat.lt_succ_of_lt (hordered.rank_lt hold)
  onTrail_iff := by
    intro other
    refine (hordered.onTrail_fits.contains_adjoin hlt).trans ?_
    rw [hordered.onTrail_iff]
    exact List.mem_cons.symm
  trail_entered := by
    intro other hother
    rw [entered_enter (hordered.number_size ▸ hlt)]
    exact (List.mem_cons.1 hother).imp_right hordered.trail_entered
  trail_desc := by
    refine List.pairwise_cons.2 ⟨fun older holder => ?_, ?_⟩
    · rw [hordered.rank_enter_self hlt]
      exact hordered.rank_enter_lt hlt hnew holder
    · refine hordered.trail_desc.imp_of_mem fun ha hb h => ?_
      rwa [hordered.rank_enter_of_mem hlt hnew ha, hordered.rank_enter_of_mem hlt hnew hb]
  underWay_trail := by
    intro other hother
    exact List.mem_cons.2 ((List.mem_cons.1 hother).imp_right hordered.underWay_trail)
  underWay_desc := by
    refine List.pairwise_cons.2 ⟨fun older holder => ?_, ?_⟩
    · rw [hordered.rank_enter_self hlt]
      exact hordered.rank_enter_lt hlt hnew (hordered.underWay_trail holder)
    · refine hordered.underWay_desc.imp_of_mem fun ha hb h => ?_
      rwa [hordered.rank_enter_of_mem hlt hnew (hordered.underWay_trail ha),
        hordered.rank_enter_of_mem hlt hnew (hordered.underWay_trail hb)]

omit hordered hlt hnew in
theorem Awaits.enter {source target : Nat} (h : search.Awaits pending source target) :
    (search.enter graph state).Awaits pending source target := by
  refine h.imp_right ?_
  rintro ⟨frame, hframe, hrest⟩
  exact ⟨frame, List.mem_cons_of_mem _ hframe, hrest⟩

omit hordered hlt hnew in
theorem awaits_enter_self {target : Nat} (hedge : graph.Inside within state target) :
    (search.enter graph state).Awaits pending state target :=
  .inr ⟨⟨state, graph.successors state⟩, List.mem_cons_self, rfl, hedge.2.2⟩

theorem Explored.enter (hexplored : search.Explored graph within pending) :
    (search.enter graph state).Explored graph within pending where
  ahead_edge := by
    intro frame hframe target htarget
    rcases List.mem_cons.1 hframe with rfl | hframe
    · exact htarget
    · exact hexplored.ahead_edge frame hframe target htarget
  explored := by
    intro source target hsource hedge
    have hentered (other : Nat) : (search.enter graph state).Entered other ↔ _ :=
      entered_enter (hordered.number_size ▸ hlt)
    rcases (hentered source).1 hsource with rfl | hsource
    · exact .inr (awaits_enter_self hedge)
    · exact (hexplored.explored hsource hedge).imp (fun h => (hentered target).2 (.inr h)) .enter
  closed := by
    intro source target hsource hedge
    rw [hordered.closed_enter hlt hnew] at hsource ⊢
    exact hexplored.closed hsource hedge

theorem Linked.enter (hlinked : search.Linked graph within)
    (hreach : ∀ owner ∈ search.underWay, ReflTransGen (graph.Inside within) owner state) :
    (search.enter graph state).Linked graph within where
  leads_back := by
    intro other hother
    rcases List.mem_cons.1 hother with rfl | hother
    · exact ⟨other, List.mem_cons_self, le_rfl, .refl⟩
    · obtain ⟨owner, howner, hrank, hpath⟩ := hlinked.leads_back hother
      refine ⟨owner, List.mem_cons_of_mem _ howner, ?_, hpath⟩
      rwa [hordered.rank_enter_of_mem hlt hnew hother,
        hordered.rank_enter_of_mem hlt hnew (hordered.underWay_trail howner)]
  leads_on := by
    intro owner other howner hother hrank
    rcases List.mem_cons.1 howner with rfl | hunder
    · rcases List.mem_cons.1 hother with rfl | hold
      · exact .refl
      · rw [hordered.rank_enter_self hlt] at hrank
        exact absurd (hordered.rank_enter_lt hlt hnew hold) (by omega)
    · rcases List.mem_cons.1 hother with rfl | hold
      · exact hreach owner hunder
      · rw [hordered.rank_enter_of_mem hlt hnew hold,
          hordered.rank_enter_of_mem hlt hnew (hordered.underWay_trail hunder)] at hrank
        exact hlinked.leads_on hunder hold hrank

theorem Bounded.enter (hbounded : search.Bounded graph within pending) :
    (search.enter graph state).Bounded graph within pending where
  low_le := by
    intro owner howner
    rcases List.mem_cons.1 howner with rfl | hunder
    · rw [hordered.lowOf_enter_self hlt, hordered.rank_enter_self hlt]
    · have hmem := hordered.underWay_trail hunder
      rw [hordered.lowOf_enter_of_mem hlt hnew hmem, hordered.rank_enter_of_mem hlt hnew hmem]
      exact hbounded.low_le hunder
  low_reached := by
    intro owner howner
    rcases List.mem_cons.1 howner with rfl | hunder
    · refine ⟨owner, List.mem_cons_self, .refl, ?_⟩
      rw [hordered.rank_enter_self hlt, hordered.lowOf_enter_self hlt]
    · obtain ⟨target, htarget, hpath, hrank⟩ := hbounded.low_reached hunder
      refine ⟨target, List.mem_cons_of_mem _ htarget, hpath, ?_⟩
      rw [hordered.rank_enter_of_mem hlt hnew htarget,
        hordered.lowOf_enter_of_mem hlt hnew (hordered.underWay_trail hunder), hrank]
  low_bound := by
    intro owner source target howner hsource howns hedge htarget
    rcases List.mem_cons.1 hsource with rfl | hsource
    · exact .inr (awaits_enter_self hedge)
    -- An old source is owned by an old state, and the new state is above every low number.
    have hrank_source := hordered.rank_enter_lt hlt hnew hsource
    rcases List.mem_cons.1 howner with rfl | hunder
    · have hle := howns.1
      rw [hordered.rank_enter_self hlt] at hle
      omega
    have hmem := hordered.underWay_trail hunder
    rw [hordered.lowOf_enter_of_mem hlt hnew hmem]
    rcases List.mem_cons.1 htarget with rfl | htarget
    · left
      have hle := hbounded.low_le hunder
      have hlt' := hordered.rank_lt (hordered.trail_entered hmem)
      rw [hordered.rank_enter_self hlt]
      omega
    · rw [hordered.rank_enter_of_mem hlt hnew htarget]
      refine (hbounded.low_bound hunder hsource ⟨?_, ?_⟩ hedge htarget).imp_right .enter
      · have hle := howns.1
        rwa [hordered.rank_enter_of_mem hlt hnew hmem,
          hordered.rank_enter_of_mem hlt hnew hsource] at hle
      · intro other hother hrank
        have hnewest := howns.2 other (List.mem_cons_of_mem _ hother)
        rw [hordered.rank_enter_of_mem hlt hnew hmem, hordered.rank_enter_of_mem hlt hnew hsource,
          hordered.rank_enter_of_mem hlt hnew (hordered.underWay_trail hother)] at hnewest
        exact hnewest hrank

end Enter

theorem Sound.enter (hwithin : within.Fits graph.stateCount)
    (hsound : search.Sound graph within pending) (hstate : within.contains state = true)
    (hnew : ¬ search.Entered state)
    (hreach : ∀ owner ∈ search.underWay, ReflTransGen (graph.Inside within) owner state) :
    (search.enter graph state).Sound graph within pending := by
  have hlt : state < graph.stateCount := hwithin.lt_of_contains hstate
  have hordered := hsound.toOrdered
  exact {
    hordered.enter hlt hnew hstate, hsound.toExplored.enter hordered hlt hnew,
    hsound.toLinked.enter hordered hlt hnew hreach, hsound.toBounded.enter hordered hlt hnew with
    cyclic_iff := by
      intro other
      rw [hordered.closed_enter hlt hnew]
      exact hsound.cyclic_iff }

/-! ## Looking at an edge -/

theorem Sound.resolve (hsound : search.Sound graph within pending)
    (hpending : ∀ source target, pending source target → graph.Inside within source target →
      search.Entered target ∧
        (target ∈ search.trail → ∀ owner ∈ search.underWay, search.Owns owner source →
          search.lowOf owner ≤ search.rank target)) :
    search.Sound graph within fun _ _ => False where
  __ := hsound
  explored := by
    intro source target hsource hedge
    rcases hsound.explored hsource hedge with htarget | hawaits | hframe
    · exact .inl htarget
    · exact .inl (hpending source target hawaits hedge).1
    · exact .inr (.inr hframe)
  low_bound := by
    intro owner source target howner hsource howns hedge htarget
    rcases hsound.low_bound howner hsource howns hedge htarget with hlow | hawaits | hframe
    · exact .inl hlow
    · exact .inl ((hpending source target hawaits hedge).2 htarget owner howner howns)
    · exact .inr (.inr hframe)

theorem Sound.lower (hwithin : within.Fits graph.stateCount)
    (hsound : search.Sound graph within pending) {bound : Nat} (hstate : state ∈ search.underWay)
    (hbound : ∃ target ∈ search.trail, ReflTransGen (graph.Inside within) state target ∧
      search.rank target = bound) :
    (search.lower state bound).Sound graph within pending := by
  have hlt : state < search.low.size := by
    rw [hsound.low_size]
    exact hsound.lt_of_mem_trail hwithin (hsound.underWay_trail hstate)
  have hle (owner : Nat) : (search.lower state bound).lowOf owner ≤ search.lowOf owner := by
    rw [lowOf_lower hlt]
    split
    · next h => simp [h]
    · exact le_rfl
  exact {
    __ := hsound
    low_size := by simpa [CycleSearch.lower] using hsound.low_size
    low_le := fun howner => (hle _).trans (hsound.low_le howner)
    low_reached := by
      intro owner howner
      rw [lowOf_lower hlt]
      split
      · next h =>
        subst h
        rcases le_total (search.lowOf owner) bound with hmin | hmin
        · rw [min_eq_left hmin]
          exact hsound.low_reached howner
        · rw [min_eq_right hmin]
          exact hbound
      · exact hsound.low_reached howner
    low_bound := by
      intro owner source target howner hsource howns hedge htarget
      exact (hsound.low_bound howner hsource howns hedge htarget).imp_left (hle owner).trans }

section Top

variable {successor : Nat} {ahead : List Nat} {frames : List Frame}

theorem mem_underWay (hframes : search.frames = ⟨state, ahead⟩ :: frames) :
    other ∈ search.underWay ↔ other = state ∨ other ∈ frames.map Frame.state := by
  rw [underWay, hframes, List.map_cons, List.mem_cons]

theorem Ordered.underWay_rest_desc (hordered : search.Ordered graph within)
    (hframes : search.frames = ⟨state, ahead⟩ :: frames) :
    (∀ other ∈ frames.map Frame.state, search.rank other < search.rank state) ∧
      (frames.map Frame.state).Pairwise
        fun newer older => search.rank older < search.rank newer := by
  have hdesc := hordered.underWay_desc
  rw [underWay, hframes, List.map_cons, List.pairwise_cons] at hdesc
  exact hdesc

theorem Ordered.rank_le_top (hordered : search.Ordered graph within)
    (hframes : search.frames = ⟨state, ahead⟩ :: frames) (hother : other ∈ search.underWay) :
    search.rank other ≤ search.rank state := by
  rcases (mem_underWay hframes).1 hother with rfl | hother
  · exact le_rfl
  · exact ((hordered.underWay_rest_desc hframes).1 other hother).le

theorem Ordered.top_owns (hordered : search.Ordered graph within)
    (hframes : search.frames = ⟨state, ahead⟩ :: frames)
    (hrank : search.rank state ≤ search.rank other) : search.Owns state other :=
  ⟨hrank, fun _ hunder _ => hordered.rank_le_top hframes hunder⟩

theorem Sound.advance (hsound : search.Sound graph within fun _ _ => False)
    (hframes : search.frames = ⟨state, successor :: ahead⟩ :: frames) :
    ({ search with frames := ⟨state, ahead⟩ :: frames } : CycleSearch).Sound graph within
      fun source target => source = state ∧ target = successor := by
  have hawaits {source target : Nat} (h : search.Awaits (fun _ _ => False) source target) :
      ({ search with frames := ⟨state, ahead⟩ :: frames } : CycleSearch).Awaits
        (fun source target => source = state ∧ target = successor) source target := by
    rcases h with hfalse | ⟨frame, hframe, rfl, htarget⟩
    · exact hfalse.elim
    · rw [hframes, List.mem_cons] at hframe
      rcases hframe with rfl | hframe
      · rcases List.mem_cons.1 htarget with rfl | htarget
        · exact .inl ⟨rfl, rfl⟩
        · exact .inr ⟨_, List.mem_cons_self, rfl, htarget⟩
      · exact .inr ⟨frame, List.mem_cons_of_mem _ hframe, rfl, htarget⟩
  obtain ⟨number, low, entered, trail, onTrail, _, cyclic⟩ := search
  cases hframes
  exact {
    __ := hsound
    ahead_edge := by
      intro frame hframe target htarget
      rcases List.mem_cons.1 hframe with rfl | hframe
      · exact hsound.ahead_edge _ List.mem_cons_self target (List.mem_cons_of_mem _ htarget)
      · exact hsound.ahead_edge frame (List.mem_cons_of_mem _ hframe) target htarget
    explored := fun hsource hedge => (hsound.explored hsource hedge).imp_right hawaits
    low_bound := fun howner hsource howns hedge htarget =>
      (hsound.low_bound howner hsource howns hedge htarget).imp_right hawaits }

theorem look_cases (graph : StateGraph) (within : StateSet) (search : CycleSearch)
    (state successor : Nat) :
    within.contains successor = false ∧ search.look graph within state successor = search ∨
      within.contains successor = true ∧ search.numberOf successor = none ∧
        search.look graph within state successor = search.enter graph successor ∨
      (∃ number, search.numberOf successor = some number ∧
        search.onTrail.contains successor = true ∧
        search.look graph within state successor = search.lower state number) ∨
      search.numberOf successor ≠ none ∧ search.onTrail.contains successor = false ∧
        search.look graph within state successor = search := by
  rw [look]
  cases hwithin : within.contains successor with
  | false => simp
  | true =>
      cases hnumber : search.numberOf successor with
      | none => simp
      | some number =>
          cases honTrail : search.onTrail.contains successor with
          | false => simp
          | true => simp

theorem Sound.look (hwithin : within.Fits graph.stateCount)
    (hsound : search.Sound graph within fun _ _ => False)
    (hframes : search.frames = ⟨state, successor :: ahead⟩ :: frames) :
    (({ search with frames := ⟨state, ahead⟩ :: frames } : CycleSearch).look graph within state
      successor).Sound graph within fun _ _ => False := by
  have hadvanced := hsound.advance hframes
  have hsuccessor : successor ∈ graph.successors state :=
    hsound.ahead_edge ⟨state, successor :: ahead⟩ (by simp [hframes]) successor List.mem_cons_self
  generalize hpopped : ({ search with frames := ⟨state, ahead⟩ :: frames } : CycleSearch) = popped
    at hadvanced ⊢
  have hpopped_frames : popped.frames = ⟨state, ahead⟩ :: frames := by rw [← hpopped]
  have hunder : state ∈ popped.underWay := (mem_underWay hpopped_frames).2 (.inl rfl)
  have htrail := hadvanced.underWay_trail hunder
  have hstate := hadvanced.within_of_entered (hadvanced.trail_entered htrail)
  rcases look_cases graph within popped state successor with
    ⟨hout, hlook⟩ | ⟨hin, hnew, hlook⟩ | ⟨number, hnumber, hopen, hlook⟩ | ⟨hold, hclosed, hlook⟩
  · rw [hlook]
    refine hadvanced.resolve ?_
    rintro source target ⟨rfl, rfl⟩ hedge
    exact absurd hedge.2.1 (by simp [hout])
  · rw [hlook]
    have hlt := hwithin.lt_of_contains hin
    have hnew : ¬ popped.Entered successor := not_not.2 hnew
    have hreach : ∀ owner ∈ popped.underWay, ReflTransGen (graph.Inside within) owner successor :=
      fun owner howner => (hadvanced.leads_on howner htrail
        (hadvanced.rank_le_top hpopped_frames howner)).tail ⟨hstate, hin, hsuccessor⟩
    have hentered := hadvanced.enter hwithin hin hnew hreach
    refine hentered.resolve ?_
    rintro source target ⟨rfl, rfl⟩ hedge
    refine ⟨(entered_enter (hadvanced.number_size ▸ hlt)).2 (.inl rfl), ?_⟩
    intro _ owner howner howns
    have hlow := (hentered.low_le howner).trans howns.1
    have hrank := hadvanced.rank_enter_lt hlt hnew htrail
    rw [hadvanced.rank_enter_self hlt]
    omega
  · rw [hlook]
    have hmem := hadvanced.onTrail_iff.1 hopen
    have hedge : graph.Inside within state successor :=
      ⟨hstate, hadvanced.within_of_entered (hadvanced.trail_entered hmem), hsuccessor⟩
    have hrank : popped.rank successor = number := by rw [rank, hnumber, Option.getD_some]
    have hlowered := hadvanced.lower hwithin hunder ⟨successor, hmem, .single hedge, hrank⟩
    refine hlowered.resolve ?_
    rintro source target ⟨rfl, rfl⟩ -
    refine ⟨hadvanced.trail_entered hmem, fun _ owner howner howns => ?_⟩
    obtain rfl : owner = source := hadvanced.eq_of_rank_eq (hadvanced.underWay_trail howner) htrail
      (le_antisymm howns.1 (howns.2 source hunder le_rfl))
    rw [lowOf_lower (hadvanced.low_size ▸ hadvanced.lt_of_mem_trail hwithin htrail), if_pos rfl]
    exact (min_le_right _ _).trans hrank.ge
  · rw [hlook]
    refine hadvanced.resolve ?_
    rintro source target ⟨rfl, rfl⟩ -
    refine ⟨hold, fun hmem => ?_⟩
    rw [← hadvanced.onTrail_iff, hclosed] at hmem
    cases hmem

end Top

end CycleSearch

end Hazard
