import Hazard.Graph.Basic
import Hazard.State.Set
/-!
# States on cycles

A depth-first search for the strongly connected components of a part of a graph. States get numbers
as they are entered; a state's low number is the least number known to be reachable from it among
the states whose component is still open. A state that is left with its own number as low number
closes the component of all states entered since.
-/

namespace Hazard

namespace CycleSearch

/-- A state under way and the successors it has yet to look at. -/
structure Frame where
  state : Nat
  ahead : List Nat

end CycleSearch

structure CycleSearch where
  /-- The number of each state, once entered. -/
  number : Array (Option Nat)
  low : Array Nat
  /-- How many states have been entered. -/
  entered : Nat
  /-- States whose component is still open, the newest first. -/
  trail : List Nat
  onTrail : StateSet
  frames : List CycleSearch.Frame
  /-- States of closed components that contain a cycle. -/
  cyclic : StateSet

namespace CycleSearch

def start (states : Nat) : CycleSearch where
  number := Array.replicate states none
  low := Array.replicate states 0
  entered := 0
  trail := []
  onTrail := .empty states
  frames := []
  cyclic := .empty states

def numberOf (search : CycleSearch) (state : Nat) : Option Nat := (search.number[state]?).join

def lowOf (search : CycleSearch) (state : Nat) : Nat := search.low.getD state 0

def enter (graph : StateGraph) (search : CycleSearch) (state : Nat) : CycleSearch :=
  { search with
    number := search.number.setIfInBounds state (some search.entered)
    low := search.low.setIfInBounds state search.entered
    entered := search.entered + 1
    trail := state :: search.trail
    onTrail := search.onTrail.adjoin state
    frames := ⟨state, graph.successors state⟩ :: search.frames }

def lower (search : CycleSearch) (state bound : Nat) : CycleSearch :=
  { search with low := search.low.modify state (min · bound) }

def look (graph : StateGraph) (within : StateSet) (search : CycleSearch) (state successor : Nat) :
    CycleSearch :=
  if !within.contains successor then search
  else
    match search.numberOf successor with
    | none => search.enter graph successor
    | some number =>
      if search.onTrail.contains successor then search.lower state number else search

def close (graph : StateGraph) (search : CycleSearch) (state : Nat) : CycleSearch :=
  let newer := search.trail.takeWhile (· != state)
  let component := newer ++ [state]
  let cyclic := !newer.isEmpty || (graph.successors state).contains state
  { search with
    trail := search.trail.drop component.length
    onTrail := component.foldl (fun set member => (set.erase member).2) search.onTrail
    cyclic := if cyclic then component.foldl StateSet.adjoin search.cyclic else search.cyclic }

def leave (graph : StateGraph) (search : CycleSearch) (state : Nat) (frames : List Frame) :
    CycleSearch :=
  let low := search.lowOf state
  let back : CycleSearch :=
    match frames with
    | [] => { search with frames }
    | parent :: _ => { search with frames }.lower parent.state low
  if some (back.lowOf state) = back.numberOf state then back.close graph state else back

def step (graph : StateGraph) (within : StateSet) (search : CycleSearch) : CycleSearch :=
  match search.frames with
  | [] => search
  | ⟨state, successor :: ahead⟩ :: frames =>
    { search with frames := ⟨state, ahead⟩ :: frames }.look graph within state successor
  | ⟨state, []⟩ :: frames => search.leave graph state frames

def run (graph : StateGraph) (within : StateSet) : (fuel : Nat) → CycleSearch → CycleSearch
  | 0, search => search
  | fuel + 1, search =>
    match search.frames with
    | [] => search
    | _ :: _ => run graph within fuel (search.step graph within)

/-- Searches from a root, unless an earlier root led there. Every step looks at an edge or leaves a
state, so the states and the edges bound the number of steps. -/
def visit (graph : StateGraph) (within : StateSet) (search : CycleSearch) (root : Nat) :
    CycleSearch :=
  match search.numberOf root with
  | some _ => search
  | none => run graph within (graph.stateCount + graph.outgoingCount) (search.enter graph root)

end CycleSearch

def StateGraph.cyclicStates (graph : StateGraph) (within : StateSet) : StateSet :=
  (within.toList.foldl (CycleSearch.visit graph within)
    (CycleSearch.start graph.stateCount)).cyclic

end Hazard
