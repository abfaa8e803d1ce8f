import Hazard.Markov.Distribution
import Mathlib.Data.List.Perm.Subperm
import Mathlib.Logic.Function.Basic
/-!
# Linked chains as lists

An arena holds one list of transitions for every source. The chains of different sources share no
element, so that adding a transition to one list changes no other, and a walk along a chain reads
its list from first to last.
-/

namespace Hazard

variable {α : Type}

def ChainElement.transition (element : ChainElement α) : Transition α :=
  ⟨element.target, element.probability, element.label, element.distribution⟩

/-! ## Lists that merge -/

namespace Merging

variable {merging : Merging} {transition : Transition α}

def joins (merging : Merging) (held added : Transition α) : Bool :=
  held.target == added.target && held.label == added.label
    && (merging == .acrossChoices || held.distribution == added.distribution)

theorem agrees_eq_joins (element : ChainElement α) :
    ChainArena.agrees merging element transition = merging.joins element.transition transition :=
  rfl

variable [Scalar α]

def join (merging : Merging) : List (Transition α) → Transition α → List (Transition α)
  | [], added => [added]
  | held :: rest, added =>
    if merging.joins held added then
      { held with probability := held.probability + added.probability } :: rest
    else held :: merging.join rest added

theorem join_eq_append {contents : List (Transition α)}
    (hnone : ∀ held ∈ contents, merging.joins held transition = false) :
    merging.join contents transition = contents ++ [transition] := by
  induction contents with
  | nil => rfl
  | cons held rest ih =>
      rw [join, if_neg (by simp [hnone held]),
        ih fun other hother => hnone other (by simp [hother])]
      rfl

theorem join_append {before after : List (Transition α)} {held : Transition α}
    (hnone : ∀ other ∈ before, merging.joins other transition = false)
    (hjoins : merging.joins held transition = true) :
    merging.join (before ++ held :: after) transition =
      before ++
        { held with probability := held.probability + transition.probability } :: after := by
  induction before with
  | nil => rw [List.nil_append, join, if_pos hjoins, List.nil_append]
  | cons first rest ih =>
      rw [List.cons_append, join, if_neg (by simp [hnone first]),
        ih fun other hother => hnone other (by simp [hother])]
      rfl

end Merging

/-! ## Walks along links -/

/-- Following links from one place, one comes past the given elements to another. -/
inductive Segment (elements : Array (ChainElement α)) : Option Nat → List Nat → Option Nat → Prop
  | nil (cursor : Option Nat) : Segment elements cursor [] cursor
  | cons {index : Nat} {element : ChainElement α} {visited : List Nat} {stop : Option Nat}
      (hget : elements[index]? = some element)
      (hrest : Segment elements element.next visited stop) :
      Segment elements (some index) (index :: visited) stop

def heldAt (elements : Array (ChainElement α)) (visited : List Nat) : List (Transition α) :=
  visited.filterMap fun index => elements[index]?.map ChainElement.transition

section

variable {elements changed : Array (ChainElement α)} {visited : List Nat} {index : Nat}

theorem heldAt_append (elements : Array (ChainElement α)) (before after : List Nat) :
    heldAt elements (before ++ after) = heldAt elements before ++ heldAt elements after :=
  List.filterMap_append

theorem heldAt_cons {element : ChainElement α} (hget : elements[index]? = some element)
    (visited : List Nat) :
    heldAt elements (index :: visited) = element.transition :: heldAt elements visited := by
  simp [heldAt, hget]

theorem heldAt_congr (hsame : ∀ index ∈ visited,
      changed[index]?.map ChainElement.transition = elements[index]?.map ChainElement.transition) :
    heldAt changed visited = heldAt elements visited :=
  List.filterMap_congr hsame

theorem exists_first {merging : Merging} {transition : Transition α}
    (hinside : ∀ index ∈ visited, index < elements.size)
    (hsome : ∃ held ∈ heldAt elements visited, merging.joins held transition = true) :
    ∃ before index after element, visited = before ++ index :: after ∧
      elements[index]? = some element ∧
      (∀ held ∈ heldAt elements before, merging.joins held transition = false) ∧
      merging.joins element.transition transition = true := by
  induction visited with
  | nil => simp [heldAt] at hsome
  | cons first rest ih =>
      obtain ⟨element, hget⟩ : ∃ element, elements[first]? = some element :=
        ⟨_, Array.getElem?_eq_getElem (hinside first (by simp))⟩
      rw [heldAt_cons hget] at hsome
      by_cases hfirst : merging.joins element.transition transition = true
      · exact ⟨[], first, rest, element, rfl, hget, by simp [heldAt], hfirst⟩
      · obtain ⟨held, hheld, hjoins⟩ := hsome
        rcases List.mem_cons.1 hheld with rfl | hheld
        · exact absurd hjoins hfirst
        · obtain ⟨before, index, after, found, rfl, hfound, hnone, htakes⟩ :=
            ih (fun index hindex => hinside index (by simp [hindex])) ⟨held, hheld, hjoins⟩
          refine ⟨first :: before, index, after, found, rfl, hfound, ?_, htakes⟩
          rw [heldAt_cons hget]
          simpa [hfirst] using hnone

end

namespace Segment

variable {elements changed : Array (ChainElement α)} {start middle stop : Option Nat}
  {visited before after : List Nat} {index : Nat}

theorem append (hfirst : Segment elements start before middle)
    (hsecond : Segment elements middle after stop) :
    Segment elements start (before ++ after) stop := by
  induction hfirst with
  | nil => exact hsecond
  | cons hget _ ih => exact .cons hget (ih hsecond)

theorem split (hall : Segment elements start (before ++ after) stop) :
    ∃ middle, Segment elements start before middle ∧ Segment elements middle after stop := by
  induction before generalizing start with
  | nil => exact ⟨start, .nil start, hall⟩
  | cons index before ih =>
      cases hall with
      | cons hget hrest =>
          obtain ⟨middle, hfirst, hsecond⟩ := ih hrest
          exact ⟨middle, .cons hget hfirst, hsecond⟩

/-- Only the links of the elements on the way matter. -/
theorem congr (hsame : ∀ index ∈ visited,
      changed[index]?.map ChainElement.next = elements[index]?.map ChainElement.next)
    (hsegment : Segment elements start visited stop) : Segment changed start visited stop := by
  induction hsegment with
  | nil cursor => exact .nil cursor
  | @cons index element visited stop hget _ ih =>
      have hnext := hsame index (by simp)
      rw [hget, Option.map_some, Option.map_eq_some_iff] at hnext
      obtain ⟨other, hother, heq⟩ := hnext
      refine .cons hother ?_
      rw [heq]
      exact ih fun later hlater => hsame later (by simp [hlater])

theorem lt_size (hsegment : Segment elements start visited stop) (hindex : index ∈ visited) :
    index < elements.size := by
  induction hsegment with
  | nil => simp at hindex
  | cons hget _ ih =>
      rcases List.mem_cons.1 hindex with rfl | hindex
      · exact (Array.getElem?_eq_some_iff.1 hget).1
      · exact ih hindex

theorem length_le (hsegment : Segment elements start visited stop) (hnodup : visited.Nodup) :
    visited.length ≤ elements.size := by
  have hsub : visited ⊆ List.range elements.size := fun index hindex =>
    List.mem_range.2 (hsegment.lt_size hindex)
  simpa using (List.subperm_of_subset hnodup hsub).length_le

/-- A link from the last element to a new one makes the chain longer by one. -/
theorem snoc {front : List Nat} {last new : Nat} {element : ChainElement α}
    (hfront : ∀ index ∈ front, changed[index]? = elements[index]?)
    (hlast : changed[last]?.map ChainElement.next = some (some new))
    (hnew : changed[new]? = some element) (hnone : element.next = none)
    (hsegment : Segment elements start (front ++ [last]) stop) :
    Segment changed start (front ++ [last] ++ [new]) none := by
  obtain ⟨middle, hfirst, hsecond⟩ := hsegment.split
  cases hsecond with
  | cons _ _ =>
      obtain ⟨linked, hlinked, hnext⟩ := Option.map_eq_some_iff.1 hlast
      have hkept := hfirst.congr fun index hindex => by rw [hfront index hindex]
      rw [List.append_assoc]
      refine hkept.append (.cons hlinked ?_)
      rw [hnext]
      refine .cons hnew ?_
      rw [hnone]
      exact .nil none

theorem chainFrom_eq {fuel : Nat} (hsegment : Segment elements start visited none)
    (hfuel : visited.length < fuel) :
    chainFrom elements fuel start = visited.filterMap (elements[·]?) := by
  induction fuel generalizing start visited with
  | zero => omega
  | succ fuel ih =>
      cases hsegment with
      | nil => rfl
      | cons hget hrest =>
          simp only [List.length_cons] at hfuel
          simp only [chainFrom, hget, List.filterMap_cons]
          rw [ih hrest (by omega)]

theorem map_transition_chainFrom {fuel : Nat} (hsegment : Segment elements start visited none)
    (hfuel : visited.length < fuel) :
    (chainFrom elements fuel start).map ChainElement.transition = heldAt elements visited := by
  rw [hsegment.chainFrom_eq hfuel, List.map_filterMap]
  rfl

section

variable {merging : Merging} {transition : Transition α} {fuel : Nat} {last : Option Nat}

/-- The walk that looks for the element of a transition ends at the first that takes it. -/
theorem locate_element {element : ChainElement α}
    (hsegment : Segment elements start (before ++ index :: after) none)
    (hfuel : before.length < fuel) (hget : elements[index]? = some element)
    (hnone : ∀ held ∈ heldAt elements before, merging.joins held transition = false)
    (hjoins : merging.joins element.transition transition = true) :
    ChainArena.locate merging transition elements fuel start last = .element index := by
  induction fuel generalizing start before last with
  | zero => omega
  | succ fuel ih =>
      cases before with
      | nil =>
          cases hsegment with
          | cons hhere _ =>
              cases hhere.symm.trans hget
              simp only [ChainArena.locate, hhere, Merging.agrees_eq_joins, hjoins, if_true]
      | cons first before =>
          cases hsegment with
          | @cons _ other _ _ hhere hrest =>
              simp only [heldAt, List.filterMap_cons, hhere, Option.map_some, List.mem_cons,
                forall_eq_or_imp] at hnone
              simp only [List.length_cons] at hfuel
              simp only [ChainArena.locate, hhere, Merging.agrees_eq_joins, hnone.1]
              exact ih hrest (by omega) hnone.2

theorem locate_behind (hsegment : Segment elements start visited none)
    (hfuel : visited.length < fuel)
    (hnone : ∀ held ∈ heldAt elements visited, merging.joins held transition = false) :
    ChainArena.locate merging transition elements fuel start last =
      .behind (visited.getLast?.or last) := by
  induction fuel generalizing start visited last with
  | zero => omega
  | succ fuel ih =>
      cases hsegment with
      | nil => rfl
      | @cons index element visited _ hget hrest =>
          simp only [heldAt, List.filterMap_cons, hget, Option.map_some, List.mem_cons,
            forall_eq_or_imp] at hnone
          simp only [List.length_cons] at hfuel
          simp only [ChainArena.locate, hget, Merging.agrees_eq_joins, hnone.1]
          rw [if_neg (by simp), ih hrest (by omega) hnone.2, List.getLast?_cons]
          cases visited.getLast? <;> rfl

end

end Segment

/-! ## The lists of an arena -/

namespace ChainArena

variable {arena larger : ChainArena α} {contents : Origin → List (Transition α)}
  {paths : Origin → List Nat} {origin : Origin} {merging : Merging} {transition : Transition α}

/-- The chain of a source passes the elements at the given places, each once, and they make up the
list. A source there is no room for has no elements. -/
structure Carries (arena : ChainArena α) (origin : Origin) (path : List Nat)
    (list : List (Transition α)) : Prop where
  segment : ∀ head, arena.head? origin = some head → Segment arena.elements head path none
  roomless : arena.head? origin = none → path = []
  held : heldAt arena.elements path = list
  nodup : path.Nodup

/-- The chains of the sources carry the lists, and no two of them share an element. -/
structure Represents (arena : ChainArena α) (contents : Origin → List (Transition α))
    (paths : Origin → List Nat) : Prop where
  carries : ∀ origin, arena.Carries origin (paths origin) (contents origin)
  disjoint : ∀ origin other index, index ∈ paths origin → index ∈ paths other → origin = other

def Holds (arena : ChainArena α) (contents : Origin → List (Transition α)) : Prop :=
  ∃ paths, arena.Represents contents paths

namespace Carries

variable {path : List Nat} {list : List (Transition α)}

theorem of_head {head : Option Nat} (hhead : arena.head? origin = some head)
    (hsegment : Segment arena.elements head path none)
    (hheld : heldAt arena.elements path = list) (hnodup : path.Nodup) :
    arena.Carries origin path list where
  segment := by
    intro first hfirst
    cases hhead.symm.trans hfirst
    exact hsegment
  roomless hnone := by cases hhead.symm.trans hnone
  held := hheld
  nodup := hnodup

theorem inside (hcarries : arena.Carries origin path list) {index : Nat} (hindex : index ∈ path) :
    index < arena.elements.size := by
  cases hhead : arena.head? origin with
  | none =>
      rw [hcarries.roomless hhead] at hindex
      simp at hindex
  | some head => exact (hcarries.segment head hhead).lt_size hindex

/-- A change elsewhere leaves the chain as it is. -/
theorem frame (hcarries : arena.Carries origin path list)
    (hsame : ∀ index ∈ path, larger.elements[index]? = arena.elements[index]?)
    (hhead : larger.head? origin = arena.head? origin) : larger.Carries origin path list where
  segment := by
    intro head hfirst
    rw [hhead] at hfirst
    exact (hcarries.segment head hfirst).congr fun index hindex => by rw [hsame index hindex]
  roomless hnone := hcarries.roomless (hhead ▸ hnone)
  held := (heldAt_congr fun index hindex => by rw [hsame index hindex]).trans hcarries.held
  nodup := hcarries.nodup

end Carries

theorem holds_create (stateCapacity transitionCapacity : Nat) :
    (create stateCapacity transitionCapacity : ChainArena α).Holds fun _ => [] := by
  refine ⟨fun _ => [], fun origin => ⟨?_, fun _ => rfl, rfl, List.nodup_nil⟩, by simp⟩
  intro head hhead
  have hnone : head = none := by
    cases origin with
    | none => exact (Option.some.inj hhead).symm
    | some source =>
        simp only [create, head?, Array.getElem?_replicate] at hhead
        split at hhead
        · exact (Option.some.inj hhead).symm
        · cases hhead
  rw [hnone]
  exact .nil none

/-- A change to the chain of one source, to which new elements may be added, leaves the chains of
the others as they are. -/
theorem Represents.change (hrep : arena.Represents contents paths) {path : List Nat}
    {list : List (Transition α)}
    (hsame : ∀ index < arena.elements.size, index ∉ paths origin →
      larger.elements[index]? = arena.elements[index]?)
    (hheads : ∀ other ≠ origin, larger.head? other = arena.head? other)
    (hcarries : larger.Carries origin path list)
    (hpath : ∀ index ∈ path, index ∈ paths origin ∨ arena.elements.size ≤ index) :
    larger.Represents (Function.update contents origin list)
      (Function.update paths origin path) := by
  have hfree (other : Origin) (hne : other ≠ origin) (index : Nat) (hindex : index ∈ paths other) :
      index ∉ paths origin ∧ index ∉ path := by
    have hown : index ∉ paths origin := fun hown =>
      hne (hrep.disjoint other origin index hindex hown)
    refine ⟨hown, fun hmem => ?_⟩
    have hinside := (hrep.carries other).inside hindex
    rcases hpath index hmem with hold | hlarge
    · exact hown hold
    · omega
  refine ⟨fun other => ?_, fun first second index hfirst hsecond => ?_⟩
  · by_cases hne : other = origin
    · subst hne
      simpa using hcarries
    · rw [Function.update_of_ne hne, Function.update_of_ne hne]
      refine (hrep.carries other).frame (fun index hindex => ?_) (hheads other hne)
      exact hsame index ((hrep.carries other).inside hindex) (hfree other hne index hindex).1
  · by_cases hone : first = origin <;> by_cases htwo : second = origin
    · rw [hone, htwo]
    · rw [hone, Function.update_self] at hfirst
      rw [Function.update_of_ne htwo] at hsecond
      exact absurd hfirst (hfree second htwo index hsecond).2
    · rw [htwo, Function.update_self] at hsecond
      rw [Function.update_of_ne hone] at hfirst
      exact absurd hsecond (hfree first hone index hfirst).2
    · rw [Function.update_of_ne hone] at hfirst
      rw [Function.update_of_ne htwo] at hsecond
      exact hrep.disjoint first second index hfirst hsecond

/-! ## One more transition -/

theorem head?_link_of_ne (arena : ChainArena α) (last : Option Nat) (index : Nat) {other : Origin}
    (hne : other ≠ origin) : (arena.link origin last index).head? other = arena.head? other := by
  cases last with
  | some last => cases other <;> rfl
  | none =>
      cases origin with
      | none =>
          cases other with
          | none => exact absurd rfl hne
          | some other => rfl
      | some source =>
          cases other with
          | none => rfl
          | some other =>
              have hsource : source ≠ other := fun heq => hne (by rw [heq])
              simp [link, head?, hsource]

theorem head?_link_none {head : Option Nat} (index : Nat) (hhead : arena.head? origin = some head) :
    (arena.link origin none index).head? origin = some (some index) := by
  cases origin with
  | none => rfl
  | some source =>
      have hlt := (Array.getElem?_eq_some_iff.1 hhead).1
      simp [link, head?, hlt]

theorem elements_link_none (index : Nat) :
    (arena.link origin none index).elements = arena.elements := by
  cases origin <;> rfl

theorem Represents.begin (hrep : arena.Represents contents paths) {head : Option Nat}
    (hhead : arena.head? origin = some head) (hpath : paths origin = []) (element : ChainElement α)
    (hnone : element.next = none) :
    ({ arena with elements := arena.elements.push element }.link origin none
        arena.elements.size).Represents
      (Function.update contents origin (contents origin ++ [element.transition]))
      (Function.update paths origin [arena.elements.size]) := by
  have hnew : (arena.elements.push element)[arena.elements.size]? = some element := by simp
  have hroom : ({ arena with elements := arena.elements.push element } :
      ChainArena α).head? origin = some head := by cases origin <;> exact hhead
  have hempty := (hrep.carries origin).held
  rw [hpath] at hempty
  apply hrep.change
  · intro index hindex _
    rw [elements_link_none, Array.getElem?_push_lt hindex, Array.getElem?_eq_getElem hindex]
  · intro other hne
    rw [head?_link_of_ne _ _ _ hne]
    cases other <;> rfl
  · refine .of_head (head?_link_none _ hroom) ?_ ?_ (by simp) <;>
      rw [elements_link_none]
    · refine .cons hnew ?_
      rw [hnone]
      exact .nil none
    · rw [heldAt_cons hnew, ← hempty]
      rfl
  · simp

theorem Represents.extend (hrep : arena.Represents contents paths) {head : Option Nat}
    (hhead : arena.head? origin = some head) {front : List Nat} {last : Nat}
    (hpath : paths origin = front ++ [last]) (element : ChainElement α)
    (hnone : element.next = none) :
    ({ arena with elements := arena.elements.push element }.link origin (some last)
        arena.elements.size).Represents
      (Function.update contents origin (contents origin ++ [element.transition]))
      (Function.update paths origin (paths origin ++ [arena.elements.size])) := by
  have hnodup := (hrep.carries origin).nodup
  have hinside (index : Nat) (hindex : index ∈ paths origin) : index < arena.elements.size :=
    (hrep.carries origin).inside hindex
  have hlast : last < arena.elements.size := hinside last (by simp [hpath])
  have hget (index : Nat) (hindex : index < arena.elements.size) :
      ((arena.elements.push element).modify last
        ({ · with next := some arena.elements.size }))[index]? =
      if last = index then arena.elements[index]?.map ({ · with next := some arena.elements.size })
      else arena.elements[index]? := by
    rw [Array.getElem?_modify, Array.getElem?_push_lt hindex, Array.getElem?_eq_getElem hindex]
  have hnew : ((arena.elements.push element).modify last
        ({ · with next := some arena.elements.size }))[arena.elements.size]? = some element := by
    rw [Array.getElem?_modify, if_neg (by omega)]
    simp
  have hroom : ({ arena with elements := arena.elements.push element }.link origin (some last)
      arena.elements.size).head? origin = some head := by cases origin <;> exact hhead
  apply hrep.change
  · intro index hindex hfree
    exact (hget index hindex).trans (if_neg (by rintro rfl; exact hfree (by simp [hpath])))
  · intro other hne
    rw [head?_link_of_ne _ _ _ hne]
    cases other <;> rfl
  · refine .of_head hroom ?_ ?_ ?_
    · have hsegment := (hrep.carries origin).segment head hhead
      rw [hpath] at hsegment hnodup ⊢
      refine hsegment.snoc ?_ ?_ hnew hnone
      · intro index hindex
        have hne : last ≠ index := by
          rintro rfl
          exact (List.nodup_append.1 hnodup).2.2 last hindex last (by simp) rfl
        exact (hget index (hinside index (by simp [hpath, hindex]))).trans (if_neg hne)
      · refine (congrArg _ ((hget last hlast).trans (if_pos rfl))).trans ?_
        rw [Array.getElem?_eq_getElem hlast]
        rfl
    · rw [heldAt_append, ← (hrep.carries origin).held]
      congr 1
      · apply heldAt_congr
        intro index hindex
        refine (congrArg _ (hget index (hinside index hindex))).trans ?_
        split
        · rw [Option.map_map]
          rfl
        · rfl
      · exact heldAt_cons hnew []
    · refine List.nodup_append.2 ⟨hnodup, by simp, ?_⟩
      intro index hindex other hother
      rw [List.mem_singleton.1 hother]
      exact Nat.ne_of_lt (hinside index hindex)
  · intro index hindex
    rcases List.mem_append.1 hindex with hold | hnewest
    · exact .inl hold
    · exact .inr (Nat.le_of_eq (List.mem_singleton.1 hnewest).symm)

variable [Scalar α]

/-- Three ways a transition may go: to the first element that takes it, into one more element, or,
if no element takes it and there is no room for one more, nowhere. -/
theorem Represents.append_outcome (hrep : arena.Represents contents paths) {head : Option Nat}
    (hhead : arena.head? origin = some head) (merging : Merging) (transition : Transition α) :
    (∃ before index after element, paths origin = before ++ index :: after ∧
        arena.elements[index]? = some element ∧
        (∀ held ∈ heldAt arena.elements before, merging.joins held transition = false) ∧
        merging.joins element.transition transition = true ∧
        arena.append merging origin transition =
          .ok { arena with elements := arena.elements.modify index fun element =>
            { element with probability := element.probability + transition.probability } }) ∨
      (∀ held ∈ contents origin, merging.joins held transition = false) ∧
        arena.append merging origin transition =
          if arena.capacity ≤ arena.elements.size then
            .error (.exhausted ⟨.transition, arena.capacity⟩)
          else
            .ok ({ arena with elements := arena.elements.push ⟨transition.target,
                transition.probability, transition.label, transition.distribution, none⟩ }.link
              origin (paths origin).getLast? arena.elements.size) := by
  have hsegment := (hrep.carries origin).segment head hhead
  have hlength := hsegment.length_le (hrep.carries origin).nodup
  rw [append, hhead]
  by_cases hsome : ∃ held ∈ heldAt arena.elements (paths origin),
      merging.joins held transition = true
  · obtain ⟨before, index, after, element, hpath, hget, hnone, hjoins⟩ :=
      exists_first (fun _ => (hrep.carries origin).inside) hsome
    refine .inl ⟨before, index, after, element, hpath, hget, hnone, hjoins, ?_⟩
    rw [hpath] at hsegment hlength
    dsimp only
    rw [hsegment.locate_element (by simp at hlength; omega) hget hnone hjoins]
  · have hnone : ∀ held ∈ heldAt arena.elements (paths origin),
        merging.joins held transition = false := by simpa using hsome
    refine .inr ⟨(hrep.carries origin).held ▸ hnone, ?_⟩
    dsimp only
    rw [hsegment.locate_behind (by omega) hnone, Option.or_none]

theorem Represents.append_cases (hrep : arena.Represents contents paths)
    (hok : arena.append merging origin transition = .ok larger) :
    ∃ head, arena.head? origin = some head ∧
      ((∃ before index after element, paths origin = before ++ index :: after ∧
          arena.elements[index]? = some element ∧
          (∀ held ∈ heldAt arena.elements before, merging.joins held transition = false) ∧
          merging.joins element.transition transition = true ∧
          larger = { arena with elements := arena.elements.modify index fun element =>
            { element with probability := element.probability + transition.probability } }) ∨
        (∀ held ∈ contents origin, merging.joins held transition = false) ∧
          arena.elements.size < arena.capacity ∧
          larger = { arena with elements := arena.elements.push ⟨transition.target,
              transition.probability, transition.label, transition.distribution, none⟩ }.link
            origin (paths origin).getLast? arena.elements.size) := by
  cases hhead : arena.head? origin with
  | none => simp [append, hhead] at hok
  | some head =>
      refine ⟨head, rfl, ?_⟩
      rcases hrep.append_outcome hhead merging transition with
        ⟨before, index, after, element, hpath, hget, hnone, hjoins, happend⟩ | ⟨hnone, happend⟩
      · refine .inl ⟨before, index, after, element, hpath, hget, hnone, hjoins, ?_⟩
        exact Except.ok.inj (hok.symm.trans happend)
      · rw [happend] at hok
        split at hok
        · cases hok
        · next hroom => exact .inr ⟨hnone, by omega, (Except.ok.inj hok).symm⟩

theorem Represents.increase (hrep : arena.Represents contents paths) {head : Option Nat}
    (hhead : arena.head? origin = some head) {before after : List Nat} {index : Nat}
    {element : ChainElement α} (hpath : paths origin = before ++ index :: after)
    (hget : arena.elements[index]? = some element)
    (hnone : ∀ held ∈ heldAt arena.elements before, merging.joins held transition = false)
    (hjoins : merging.joins element.transition transition = true)
    (hlarger : larger = { arena with elements := arena.elements.modify index fun element =>
      { element with probability := element.probability + transition.probability } }) :
    larger.Represents
      (Function.update contents origin (merging.join (contents origin) transition))
      (Function.update paths origin (paths origin)) := by
  subst hlarger
  have hother (other : Nat) (hne : other ≠ index) :
      (arena.elements.modify index fun element =>
        { element with probability := element.probability + transition.probability })[other]? =
      arena.elements[other]? := by
    rw [Array.getElem?_modify, if_neg hne.symm]
  have hnot (part : List Nat) (hpart : index ∉ part) :
      heldAt (arena.elements.modify index fun element =>
        { element with probability := element.probability + transition.probability }) part =
      heldAt arena.elements part :=
    heldAt_congr fun other hmem => by rw [hother other (by rintro rfl; exact hpart hmem)]
  apply hrep.change
  · intro other _ hfree
    exact hother other (by rintro rfl; exact hfree (by simp [hpath]))
  · exact fun _ _ => rfl
  · refine .of_head hhead ?_ ?_ (hrep.carries origin).nodup
    · apply ((hrep.carries origin).segment head hhead).congr
      intro other _
      rw [Array.getElem?_modify]
      split
      · rw [Option.map_map]
        rfl
      · rfl
    · have hnodup := (hrep.carries origin).nodup
      rw [hpath, List.nodup_append, List.nodup_cons] at hnodup
      have hbefore : index ∉ before := fun hmem => hnodup.2.2 index hmem index (by simp) rfl
      rw [← (hrep.carries origin).held, hpath, heldAt_append, heldAt_append, heldAt_cons hget,
        Merging.join_append hnone hjoins, hnot before hbefore]
      congr 1
      rw [heldAt_cons (by rw [Array.getElem?_modify, if_pos rfl, hget, Option.map_some]),
        hnot after hnodup.2.1.1]
      rfl
  · exact fun _ => .inl

theorem Holds.append (hholds : arena.Holds contents)
    (hok : arena.append merging origin transition = .ok larger) :
    larger.Holds (Function.update contents origin (merging.join (contents origin) transition)) := by
  obtain ⟨paths, hrep⟩ := hholds
  obtain ⟨head, hhead, hcases⟩ := hrep.append_cases hok
  rcases hcases with
    ⟨before, index, after, element, hpath, hget, hnone, hjoins, hlarger⟩ | ⟨hnone, -, rfl⟩
  · exact ⟨_, hrep.increase hhead hpath hget hnone hjoins hlarger⟩
  · rw [Merging.join_eq_append hnone]
    rcases List.eq_nil_or_concat (paths origin) with hpath | ⟨front, last, hpath⟩
    · rw [hpath]
      exact ⟨_, hrep.begin hhead hpath ⟨_, _, _, _, none⟩ rfl⟩
    · rw [List.concat_eq_append] at hpath
      rw [hpath, List.getLast?_concat]
      exact ⟨_, hrep.extend hhead hpath ⟨_, _, _, _, none⟩ rfl⟩

theorem Holds.appendAll {batch : List (Transition α)} {verdict : Verdict}
    (hholds : arena.Holds contents)
    (hok : arena.appendAll merging origin batch = (larger, .ok verdict)) :
    larger.Holds
      (Function.update contents origin (batch.foldl merging.join (contents origin))) := by
  induction batch generalizing arena contents with
  | nil =>
      cases hok
      simpa using hholds
  | cons transition rest ih =>
      rw [ChainArena.appendAll] at hok
      split at hok
      · rename_i next hnext
        simpa using ih (hholds.append hnext) hok
      · cases hok

section

omit [Scalar α]

variable {propositions : List String} {states : Nat}

theorem Represents.map_transition_chain (hrep : arena.Represents contents paths)
    {head : Option Nat} (hhead : arena.head? origin = some head) :
    ((arena.finish states propositions).chain head).map ChainElement.transition =
      contents origin := by
  have hsegment := (hrep.carries origin).segment head hhead
  have hlength := hsegment.length_le (hrep.carries origin).nodup
  exact (hsegment.map_transition_chainFrom (Nat.lt_succ_of_le hlength)).trans
    (hrep.carries origin).held

theorem Holds.map_transition_initial (hholds : arena.Holds contents) :
    (arena.finish states propositions).initial.map ChainElement.transition = contents none := by
  obtain ⟨paths, hrep⟩ := hholds
  exact hrep.map_transition_chain rfl

theorem Holds.exists_outgoing (hholds : arena.Holds contents) {state : Nat} (hlt : state < states)
    (hne : contents (some state) ≠ []) :
    ∃ elements, (arena.finish states propositions).outgoing state = .ok elements ∧
      elements.map ChainElement.transition = contents (some state) := by
  obtain ⟨paths, hrep⟩ := hholds
  cases hhead : arena.head? (some state) with
  | none =>
      have hpath := (hrep.carries (some state)).roomless hhead
      have hheld := (hrep.carries (some state)).held
      rw [hpath] at hheld
      exact absurd hheld.symm hne
  | some head =>
      have hget : (arena.finish states propositions).heads[state]? = some head := by
        have hsize := (Array.getElem?_eq_some_iff.1 hhead).1
        simp only [finish, Array.getElem?_extract, Nat.zero_add, Nat.sub_zero]
        rw [if_pos (by omega)]
        exact hhead
      refine ⟨(arena.finish states propositions).chain head, ?_, hrep.map_transition_chain hhead⟩
      rw [TransitionChains.outgoing, hget]

end

end ChainArena

theorem mem_of_mem_chainFrom {elements : Array (ChainElement α)} {fuel : Nat} {start : Option Nat}
    {element : ChainElement α} (hmem : element ∈ chainFrom elements fuel start) :
    element ∈ elements := by
  induction fuel generalizing start with
  | zero => simp [chainFrom] at hmem
  | succ fuel ih =>
      cases start with
      | none => simp [chainFrom] at hmem
      | some index =>
          cases hget : elements[index]? with
          | none => simp [chainFrom, hget] at hmem
          | some first =>
              simp only [chainFrom, hget, List.mem_cons] at hmem
              rcases hmem with rfl | hmem
              · exact Array.mem_of_getElem? hget
              · exact ih hmem

end Hazard
