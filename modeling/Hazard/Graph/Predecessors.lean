import Hazard.State.Set
/-!
# Predecessors

The edges of a structure read backwards, and the states that lead to a given set. As in all
structures, states are meant to be fewer than 2^32, so that their indices are words of 32 bits.
-/

namespace Hazard

/-- The edges in compressed form: the sources of all of them, sorted by target. -/
structure Predecessors where
  /-- Where the sources of each state begin, and after them where the last ones end. -/
  offsets : Array Nat
  sources : Array Nat
  deriving DecidableEq, Repr

namespace Predecessors

def states (predecessors : Predecessors) : Nat := predecessors.offsets.size - 1

/-- Counts the edges into each state, one place further on. Edges to states out of range are not
counted. -/
def degrees (states : Nat) (edges : List (Nat × Nat)) : Array Nat :=
  edges.foldl (fun degrees edge => degrees.modify (edge.2 + 1) (· + 1))
    (Array.replicate (states + 1) 0)

/-- Adds the sum of the entries up to a state to the entry after it. -/
def carry (sums : Array Nat) (state : Nat) : Array Nat :=
  let sum := sums.getD state 0
  sums.modify (state + 1) (· + sum)

/-- The place of the first source of each state: there are as many before it as edges to the states
before. -/
def starts (states : Nat) (edges : List (Nat × Nat)) : Array Nat :=
  (List.range states).foldl carry (degrees states edges)

/-- Sources on their way to their places, and the next free place of every state. -/
structure Filling where
  cursors : Array Nat
  sources : Array Nat

def Filling.place : Filling → Nat × Nat → Filling
  | ⟨cursors, sources⟩, (source, target) =>
    match cursors[target]? with
    | none => ⟨cursors, sources⟩
    | some position =>
      ⟨cursors.setIfInBounds target (position + 1), sources.setIfInBounds position source⟩

/-- Reads edges, given as source and target, backwards. Edges to states out of range are dropped. -/
def ofEdges (states : Nat) (edges : List (Nat × Nat)) : Predecessors :=
  let offsets := starts states edges
  let vacant := Array.replicate (offsets.getD states 0) 0
  ⟨offsets, (edges.foldl Filling.place ⟨offsets, vacant⟩).sources⟩

def create (states : Nat) (edges : List (Nat × Nat)) : Except Misuse Predecessors :=
  if edges.all fun edge => edge.2 < states then .ok (ofEdges states edges)
  else .error .outOfBounds

/-- Sources of the edges into a state, in the order of the edges. -/
def of (predecessors : Predecessors) (state : Nat) : List Nat :=
  let start := predecessors.offsets.getD state 0
  let stop := predecessors.offsets.getD (state + 1) 0
  (predecessors.sources.extract start stop).toList

def get (predecessors : Predecessors) (state : Nat) : Except Misuse (List Nat) :=
  if state < predecessors.states then .ok (predecessors.of state) else .error .outOfBounds

/-- A backward search: what it found, what it has yet to look behind, and the first source it met
that is not a state. -/
structure Search where
  found : StateSet
  stack : List Nat
  stray : Option Nat := none

namespace Search

def meet (ignore : StateSet) (search : Search) (source : Nat) : Search :=
  if ignore.contains source || search.found.contains source then search
  else if search.found.states ≤ source then { search with stray := search.stray <|> some source }
  else { search with found := search.found.adjoin source, stack := source :: search.stack }

def run (predecessors : Predecessors) (ignore : StateSet) : (fuel : Nat) → Search → Search
  | 0, search => search
  | fuel + 1, search =>
    match search.stack with
    | [] => search
    | state :: rest =>
      run predecessors ignore fuel
        ((predecessors.of state).foldl (meet ignore) { search with stack := rest })

end Search

/-- The finished search for what leads to `targets`. A state enters the stack at most once, so the
targets and the states bound the number of rounds. -/
def search (predecessors : Predecessors) (targets ignore : StateSet) : Search :=
  Search.run predecessors ignore (targets.size + targets.states)
    ⟨targets, targets.toList.reverse, none⟩

/-- The states that lead to `targets` along states outside `ignore`, and the targets themselves. -/
def ancestors (predecessors : Predecessors) (targets ignore : StateSet) : StateSet :=
  (predecessors.search targets ignore).found

def ancestorsChecked (predecessors : Predecessors) (targets ignore : StateSet) :
    Except Misuse StateSet :=
  let search := predecessors.search targets ignore
  match search.stray with
  | some source => .error (.stateBeyond source targets.states)
  | none => .ok search.found

end Predecessors

end Hazard
