import Hazard.Proofs.CycleSearch
/-!
# Leaving states and closing components

A state that is left either reaches back beyond itself, and its parent takes over what it owned, or
it closes the component of all states entered since. No edge leaves that component but to closed
ones, so its states lie on cycles all together or not at all.
-/

namespace Hazard

open Relation

namespace CycleSearch

variable {graph : StateGraph} {within : StateSet} {search : CycleSearch} {state other : Nat}

/-! ## Closing a component -/

theorem exists_trail_split {trail : List Nat} (hstate : state ∈ trail) :
    ∃ older, trail = trail.takeWhile (· != state) ++ state :: older := by
  induction trail with
  | nil => cases hstate
  | cons first rest ih =>
      by_cases hfirst : first = state
      · exact ⟨rest, by simp [hfirst]⟩
      · obtain ⟨older, holder⟩ := ih ((List.mem_cons.1 hstate).resolve_left (Ne.symm hfirst))
        refine ⟨older, ?_⟩
        rw [List.takeWhile_cons_of_pos (by simpa using hfirst), List.cons_append, ← holder]

section Close

variable (hordered : search.Ordered graph within) (hstate : state ∈ search.trail)
include hordered hstate

/-- The component is what the trail has from the state on, the states entered since. -/
theorem Ordered.close_eq : ∃ newer older : List Nat,
    search.trail = newer ++ state :: older ∧
      (∀ other, other ∈ newer ↔ other ∈ search.trail ∧ search.rank state < search.rank other) ∧
      (∀ other, other ∈ newer ++ [state] ↔
        other ∈ search.trail ∧ search.rank state ≤ search.rank other) ∧
      (∀ other, other ∈ older ↔ other ∈ search.trail ∧ search.rank other < search.rank state) ∧
      search.close graph state =
        { search with
          trail := older
          onTrail := (newer ++ [state]).foldl (fun set member => (set.erase member).2)
            search.onTrail
          cyclic := if !newer.isEmpty || (graph.successors state).contains state then
              (newer ++ [state]).foldl StateSet.adjoin search.cyclic else search.cyclic } := by
  obtain ⟨older, htrail⟩ := exists_trail_split hstate
  generalize hnewer : search.trail.takeWhile (· != state) = newer at htrail
  have hdesc := hordered.trail_desc
  rw [htrail, List.pairwise_append, List.pairwise_cons] at hdesc
  obtain ⟨-, ⟨holder, -⟩, hsince⟩ := hdesc
  have hup (other : Nat) (h : other ∈ newer) := hsince other h state List.mem_cons_self
  have hdrop : search.trail.drop (newer ++ [state]).length = older := by
    rw [htrail, List.append_cons newer state older, List.drop_left]
  refine ⟨newer, older, htrail, fun other => ?_, fun other => ?_, fun other => ?_, ?_⟩
  · have hnewer := hup other
    have holder := holder other
    rw [htrail]
    grind
  · have hnewer := hup other
    have holder := holder other
    rw [htrail]
    grind
  · have hnewer := hup other
    have holder := holder other
    rw [htrail]
    grind
  · simp only [CycleSearch.close, hnewer, hdrop]

theorem Ordered.mem_close_trail : other ∈ (search.close graph state).trail ↔
    other ∈ search.trail ∧ search.rank other < search.rank state := by
  obtain ⟨newer, older, -, -, -, holder, hclose⟩ := hordered.close_eq hstate
  rw [hclose]
  exact holder other

theorem Ordered.closed_close : (search.close graph state).Closed other ↔
    search.Closed other ∨ other ∈ search.trail ∧ search.rank state ≤ search.rank other := by
  rw [Closed, Closed, hordered.mem_close_trail hstate]
  change search.Entered other ∧ _ ↔ _
  by_cases hmem : other ∈ search.trail
  · simp [hmem, hordered.trail_entered hmem]
  · simp [hmem]

theorem Ordered.contains_close_cyclic (hwithin : within.Fits graph.stateCount) :
    (search.close graph state).cyclic.Fits graph.stateCount ∧
      ∀ other, (search.close graph state).cyclic.contains other = true ↔
        search.cyclic.contains other = true ∨
          (other ∈ search.trail ∧ search.rank state ≤ search.rank other) ∧
            ((∃ member ∈ search.trail, search.rank state < search.rank member) ∨
              state ∈ graph.successors state) := by
  obtain ⟨newer, older, -, hnewer, hcomponent, -, hclose⟩ := hordered.close_eq hstate
  have hflag : (!newer.isEmpty || (graph.successors state).contains state) = true ↔
      (∃ member ∈ search.trail, search.rank state < search.rank member) ∨
        state ∈ graph.successors state := by
    simp only [← hnewer]
    cases newer <;> simp
  have hadjoined := hordered.cyclic_fits.foldl_adjoin
    fun member (hmember : member ∈ newer ++ [state]) =>
      hordered.lt_of_mem_trail hwithin ((hcomponent member).1 hmember).1
  rw [hclose, ← hflag]
  dsimp only
  split
  · next hcyclic =>
    refine ⟨hadjoined.1, fun other => ?_⟩
    rw [hadjoined.2, hcomponent]
    tauto
  · next hcyclic =>
    refine ⟨hordered.cyclic_fits, fun other => ?_⟩
    tauto

theorem Ordered.close (hwithin : within.Fits graph.stateCount)
    (hunder : ∀ other ∈ search.underWay, search.rank other < search.rank state) :
    (search.close graph state).Ordered graph within where
  __ := hordered
  onTrail_fits := (hordered.onTrail_fits.foldl_erase _).1
  cyclic_fits := (hordered.contains_close_cyclic hstate hwithin).1
  onTrail_iff := by
    intro other
    obtain ⟨newer, older, -, -, hcomponent, holder, hclose⟩ := hordered.close_eq hstate
    rw [hclose, (hordered.onTrail_fits.foldl_erase _).2, hordered.onTrail_iff, hcomponent, holder]
    by_cases hmem : other ∈ search.trail
    · simp [hmem]
    · simp [hmem]
  trail_entered := fun hother =>
    hordered.trail_entered ((hordered.mem_close_trail hstate).1 hother).1
  trail_desc := hordered.trail_desc.sublist (List.drop_sublist _ _)
  underWay_trail := fun hother => (hordered.mem_close_trail hstate).2
    ⟨hordered.underWay_trail hother, hunder _ hother⟩

end Close

/-! ## Leaving a state -/

section Leave

variable {frames : List Frame} (hframes : search.frames = ⟨state, []⟩ :: frames)
include hframes

theorem Awaits.pop {source target : Nat} (h : search.Awaits (fun _ _ => False) source target) :
    ({ search with frames } : CycleSearch).Awaits (fun _ _ => False) source target := by
  rcases h with hfalse | ⟨frame, hframe, rfl, htarget⟩
  · exact hfalse.elim
  · rw [hframes, List.mem_cons] at hframe
    rcases hframe with rfl | hframe
    · cases htarget
    · exact .inr ⟨frame, hframe, rfl, htarget⟩

theorem mem_underWay_of_pop (hother : other ∈ ({ search with frames } : CycleSearch).underWay) :
    other ∈ search.underWay :=
  (mem_underWay hframes).2 (.inr hother)

theorem Ordered.pop (hordered : search.Ordered graph within) :
    ({ search with frames } : CycleSearch).Ordered graph within where
  __ := hordered
  underWay_trail := fun hother => hordered.underWay_trail (mem_underWay_of_pop hframes hother)
  underWay_desc := (hordered.underWay_rest_desc hframes).2

theorem Explored.pop (hexplored : search.Explored graph within fun _ _ => False) :
    ({ search with frames } : CycleSearch).Explored graph within fun _ _ => False where
  __ := hexplored
  ahead_edge := fun frame hframe =>
    hexplored.ahead_edge frame (hframes ▸ List.mem_cons_of_mem _ hframe)
  explored := fun hsource hedge => (hexplored.explored hsource hedge).imp_right (.pop hframes)

variable (hsound : search.Sound graph within fun _ _ => False)
include hsound

theorem Sound.top_trail : state ∈ search.trail :=
  hsound.underWay_trail ((mem_underWay hframes).2 (.inl rfl))

theorem Sound.not_awaits {source target : Nat} (hrank : search.rank state ≤ search.rank source) :
    ¬ search.Awaits (fun _ _ => False) source target := by
  intro hawaits
  rcases hawaits.pop hframes with hfalse | ⟨frame, hframe, rfl, -⟩
  · exact hfalse
  · have := (hsound.underWay_rest_desc hframes).1 frame.state (List.mem_map_of_mem hframe)
    omega

theorem Sound.low_bound_top {source target : Nat} (hsource : source ∈ search.trail)
    (hrank : search.rank state ≤ search.rank source) (hedge : graph.Inside within source target)
    (htarget : target ∈ search.trail) : search.lowOf state ≤ search.rank target :=
  (hsound.low_bound ((mem_underWay hframes).2 (.inl rfl)) hsource
    (hsound.top_owns hframes hrank) hedge htarget).resolve_right
    (hsound.not_awaits hframes hrank)

/-- What the state left owned goes to its parent, which knows how far back the state reaches. -/
theorem Bounded.pop
    (hparent : ∀ parent ∈ frames.head?, search.lowOf parent.state ≤ search.lowOf state) :
    ({ search with frames } : CycleSearch).Bounded graph within fun _ _ => False where
  low_le := fun howner => hsound.low_le (mem_underWay_of_pop hframes howner)
  low_reached := fun howner => hsound.low_reached (mem_underWay_of_pop hframes howner)
  low_bound := by
    intro owner source target howner hsource howns hedge htarget
    by_cases hrank : search.rank state ≤ search.rank source
    · left
      have hbound := hsound.low_bound_top hframes hsource hrank hedge htarget
      cases frames with
      | nil => cases howner
      | cons parent others =>
          obtain ⟨hbelow, hdesc⟩ := hsound.underWay_rest_desc hframes
          have hnewest : search.rank parent.state ≤ search.rank owner :=
            howns.2 parent.state List.mem_cons_self
              ((hbelow parent.state List.mem_cons_self).le.trans hrank)
          rcases List.mem_cons.1 howner with rfl | howner
          · exact (hparent parent rfl).trans hbound
          · have := (List.pairwise_cons.1 hdesc).1 owner howner
            omega
    · refine (hsound.low_bound (mem_underWay_of_pop hframes howner) hsource ⟨howns.1, ?_⟩ hedge
        htarget).imp_right (.pop hframes)
      intro under hunder hle
      rcases (mem_underWay hframes).1 hunder with rfl | hunder
      · exact absurd hle hrank
      · exact howns.2 under hunder hle

/-- A state that is left with a lower number reaches a state further back, hence one under way. -/
theorem Linked.pop (hlow : search.lowOf state < search.rank state) :
    ({ search with frames } : CycleSearch).Linked graph within where
  leads_back := by
    intro other hother
    obtain ⟨owner, howner, hrank, hpath⟩ := hsound.leads_back hother
    rcases (mem_underWay hframes).1 howner with rfl | hrest
    · obtain ⟨target, htarget, hreach, hlowest⟩ := hsound.low_reached howner
      obtain ⟨under, hunder, hback, hon⟩ := hsound.leads_back htarget
      rcases (mem_underWay hframes).1 hunder with rfl | hunder
      · omega
      · exact ⟨under, hunder, (by omega : search.rank under ≤ search.rank other),
          hpath.trans (hreach.trans hon)⟩
    · exact ⟨owner, hrest, hrank, hpath⟩
  leads_on := fun howner => hsound.leads_on (mem_underWay_of_pop hframes howner)

theorem Sound.leave_open (hlow : search.lowOf state < search.rank state)
    (hparent : ∀ parent ∈ frames.head?, search.lowOf parent.state ≤ search.lowOf state) :
    ({ search with frames } : CycleSearch).Sound graph within fun _ _ => False := {
  hsound.toOrdered.pop hframes, hsound.toExplored.pop hframes,
  Linked.pop hframes hsound hlow, Bounded.pop hframes hsound hparent with
  cyclic_iff := hsound.cyclic_iff }

section Component

variable (hlow : search.lowOf state = search.rank state)
include hlow

/-- An edge from above the state stays there or leads to a closed component. -/
theorem Sound.stays_above {source target : Nat} (hsource : source ∈ search.trail)
    (hrank : search.rank state ≤ search.rank source) (hedge : graph.Inside within source target) :
    search.Closed target ∨ target ∈ search.trail ∧ search.rank state ≤ search.rank target := by
  have hentered := (hsound.explored (hsound.trail_entered hsource) hedge).resolve_right
    (hsound.not_awaits hframes hrank)
  by_cases htarget : target ∈ search.trail
  · exact .inr ⟨htarget, hlow ▸ hsound.low_bound_top hframes hsource hrank hedge htarget⟩
  · exact .inl ⟨hentered, htarget⟩

theorem Sound.reaches_above {source target : Nat} (hsource : source ∈ search.trail)
    (hrank : search.rank state ≤ search.rank source)
    (hpath : ReflTransGen (graph.Inside within) source target) :
    search.Closed target ∨ target ∈ search.trail ∧ search.rank state ≤ search.rank target := by
  induction hpath with
  | refl => exact .inr ⟨hsource, hrank⟩
  | tail _ hedge ih =>
      rcases ih with hclosed | ⟨hmem, hle⟩
      · exact .inl (hsound.closed hclosed hedge)
      · exact hsound.stays_above hframes hlow hmem hle hedge

theorem Sound.connected (hother : other ∈ search.trail)
    (hrank : search.rank state ≤ search.rank other) :
    ReflTransGen (graph.Inside within) state other ∧
      ReflTransGen (graph.Inside within) other state := by
  refine ⟨hsound.leads_on ((mem_underWay hframes).2 (.inl rfl)) hother hrank, ?_⟩
  obtain ⟨owner, howner, -, hpath⟩ := hsound.leads_back hother
  rcases hsound.reaches_above hframes hlow hother hrank hpath with hclosed | ⟨hmem, hle⟩
  · exact absurd (hsound.underWay_trail howner) hclosed.2
  · obtain rfl : owner = state := hsound.eq_of_rank_eq hmem (hsound.top_trail hframes)
      (le_antisymm (hsound.rank_le_top hframes howner) hle)
    exact hpath

/-- A state of the component lies on a cycle iff the component has a second state, or its only one
has an edge to itself. -/
theorem Sound.on_cycle_iff (hother : other ∈ search.trail)
    (hrank : search.rank state ≤ search.rank other) :
    TransGen (graph.Inside within) other other ↔
      (∃ member ∈ search.trail, search.rank state < search.rank member) ∨
        state ∈ graph.successors state := by
  have hstate := hsound.top_trail hframes
  have hinside := hsound.within_of_entered (hsound.trail_entered hstate)
  constructor
  · intro hcycle
    obtain ⟨target, hedge, hback⟩ := TransGen.head'_iff.1 hcycle
    rcases hsound.stays_above hframes hlow hother hrank hedge with hclosed | ⟨hmem, hle⟩
    · exact absurd hother (hsound.closed_of_reaches hclosed hback).2
    · rcases hrank.lt_or_eq with habove | heq
      · exact .inl ⟨other, hother, habove⟩
      rcases hle.lt_or_eq with habove | heq'
      · exact .inl ⟨target, hmem, habove⟩
      obtain rfl : other = state := hsound.eq_of_rank_eq hother hstate heq.symm
      obtain rfl : target = other := hsound.eq_of_rank_eq hmem hstate heq'.symm
      exact .inr hedge.2.2
  · intro hcomponent
    have hself : TransGen (graph.Inside within) state state := by
      rcases hcomponent with ⟨member, hmember, habove⟩ | hloop
      · obtain ⟨hto, hfrom⟩ := hsound.connected hframes hlow hmember habove.le
        rcases reflTransGen_iff_eq_or_transGen.1 hto with rfl | hto
        · exact absurd habove (lt_irrefl _)
        · exact hto.trans_left hfrom
      · exact .single ⟨hinside, hinside, hloop⟩
    obtain ⟨hto, hfrom⟩ := hsound.connected hframes hlow hother hrank
    exact (TransGen.trans_right hfrom hself).trans_left hto

theorem Sound.leave_closed (hwithin : within.Fits graph.stateCount)
    (hparent : ∀ parent ∈ frames.head?, search.lowOf parent.state ≤ search.lowOf state) :
    (({ search with frames } : CycleSearch).close graph state).Sound graph within
      fun _ _ => False := by
  have hordered := hsound.toOrdered.pop hframes
  have hexplored := hsound.toExplored.pop hframes
  have hbounded := Bounded.pop hframes hsound hparent
  have hstate := hsound.top_trail hframes
  have hbelow := (hsound.underWay_rest_desc hframes).1
  have htrail (other : Nat) :
      other ∈ (({ search with frames } : CycleSearch).close graph state).trail ↔
        other ∈ search.trail ∧ search.rank other < search.rank state :=
    hordered.mem_close_trail hstate
  exact {
    hordered.close hstate hwithin hbelow, hexplored, hbounded with
    closed := by
      intro source target hsource hedge
      rw [hordered.closed_close hstate] at hsource ⊢
      rcases hsource with hsource | ⟨hmem, hrank⟩
      · exact .inl (hexplored.closed hsource hedge)
      · exact hsound.stays_above hframes hlow hmem hrank hedge
    leads_back := by
      intro other hother
      obtain ⟨hmem, hless⟩ := (htrail other).1 hother
      obtain ⟨owner, howner, hrank, hpath⟩ := hsound.leads_back hmem
      rcases (mem_underWay hframes).1 howner with rfl | howner
      · exact absurd hless hrank.not_gt
      · exact ⟨owner, howner, hrank, hpath⟩
    leads_on := fun howner hother =>
      hsound.leads_on (mem_underWay_of_pop hframes howner) ((htrail _).1 hother).1
    low_reached := by
      intro owner howner
      obtain ⟨target, htarget, hpath, hrank⟩ := hbounded.low_reached howner
      have hless := hrank.trans_lt ((hbounded.low_le howner).trans_lt (hbelow owner howner))
      exact ⟨target, (htrail target).2 ⟨htarget, hless⟩, hpath, hrank⟩
    low_bound := fun howner hsource howns hedge htarget =>
      hbounded.low_bound howner ((htrail _).1 hsource).1 howns hedge ((htrail _).1 htarget).1
    cyclic_iff := by
      intro other
      rw [(hordered.contains_close_cyclic hstate hwithin).2, hordered.closed_close hstate]
      have hcycle (h : other ∈ search.trail ∧ search.rank state ≤ search.rank other) :=
        hsound.on_cycle_iff hframes hlow h.1 h.2
      constructor
      · rintro (hold | ⟨hmember, hcyclic⟩)
        · exact ⟨.inl (hsound.cyclic_iff.1 hold).1, (hsound.cyclic_iff.1 hold).2⟩
        · exact ⟨.inr hmember, (hcycle hmember).2 hcyclic⟩
      · rintro ⟨hold | hmember, hpath⟩
        · exact .inl (hsound.cyclic_iff.2 ⟨hold, hpath⟩)
        · exact .inr ⟨hmember, (hcycle hmember).1 hpath⟩ }

end Component

/-- Before a state is left its parent learns how far back it reaches. -/
theorem Sound.tell (hwithin : within.Fits graph.stateCount) :
    ∃ told : CycleSearch, told.Sound graph within (fun _ _ => False) ∧
      told.frames = search.frames ∧
      (∀ parent ∈ frames.head?, told.lowOf parent.state ≤ told.lowOf state) ∧
      search.leave graph state frames =
        if some (told.lowOf state) = told.numberOf state then
          ({ told with frames } : CycleSearch).close graph state
        else { told with frames } := by
  cases frames with
  | nil => exact ⟨search, hsound, rfl, by simp, rfl⟩
  | cons parent rest =>
      have hstate : state ∈ search.underWay := (mem_underWay hframes).2 (.inl rfl)
      have hunder : parent.state ∈ search.underWay :=
        (mem_underWay hframes).2 (.inr List.mem_cons_self)
      have hbelow := (hsound.underWay_rest_desc hframes).1 parent.state List.mem_cons_self
      have hlt : parent.state < search.low.size :=
        hsound.low_size ▸ hsound.lt_of_mem_trail hwithin (hsound.underWay_trail hunder)
      have hne : state ≠ parent.state := fun h => absurd hbelow (h ▸ lt_irrefl _)
      obtain ⟨target, htarget, hpath, hrank⟩ := hsound.low_reached hstate
      have hparent := hsound.leads_on hunder (hsound.underWay_trail hstate) hbelow.le
      refine ⟨search.lower parent.state (search.lowOf state),
        hsound.lower hwithin hunder ⟨target, htarget, hparent.trans hpath, hrank⟩, rfl, ?_, rfl⟩
      intro other hother
      obtain rfl : parent = other := Option.some.inj hother
      rw [lowOf_lower hlt, lowOf_lower hlt, if_pos rfl, if_neg hne]
      exact min_le_right _ _

theorem Sound.leave (hwithin : within.Fits graph.stateCount) :
    (search.leave graph state frames).Sound graph within fun _ _ => False := by
  obtain ⟨told, htold, hsame, hparent, hleave⟩ := hsound.tell hframes hwithin
  have hframes' := hsame.trans hframes
  have hlow_le := htold.low_le ((mem_underWay hframes').2 (.inl rfl))
  have hnumber : told.numberOf state = some (told.rank state) := by
    obtain ⟨number, hnumber⟩ :=
      Option.ne_none_iff_exists'.1 (htold.trail_entered (htold.top_trail hframes'))
    rw [rank, hnumber, Option.getD_some]
  rw [hleave, hnumber]
  split
  · next hlow => exact htold.leave_closed hframes' (Option.some.inj hlow) hwithin hparent
  · next hlow =>
    have hne : told.lowOf state ≠ told.rank state := fun h => hlow (congrArg some h)
    exact htold.leave_open hframes' (lt_of_le_of_ne hlow_le hne) hparent

end Leave

theorem Sound.step (hwithin : within.Fits graph.stateCount)
    (hsound : search.Sound graph within fun _ _ => False) :
    (search.step graph within).Sound graph within fun _ _ => False := by
  rw [CycleSearch.step]
  split
  · exact hsound
  · next hframes => exact hsound.look hwithin hframes
  · next hframes => exact hsound.leave hframes hwithin

end CycleSearch

end Hazard
