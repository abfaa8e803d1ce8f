import Hazard.Formula.Predicate
import Hazard.Markov.Distribution
import Hazard.Markov.Pairs
import Hazard.State.Set
/-!
# Markov chains

Discrete-time Markov chains with labels on states, built state by state or from the transitions of
an exploration.
-/

namespace Hazard

structure MarkovChain (α : Type) where
  matrix : SparseMatrix α
  labels : Array Label
  initial : Weighted α
  propositions : List String
  deriving DecidableEq, Repr

namespace MarkovChain

variable {α : Type}

def stateCount (chain : MarkovChain α) : Nat := chain.labels.size

def transitionCount (chain : MarkovChain α) : Nat := chain.matrix.entryCount

def label (chain : MarkovChain α) (state : Nat) : Label := chain.labels.getD state .empty

def satisfying (chain : MarkovChain α) (predicate : Predicate) : StateSet :=
  .ofTest chain.stateCount fun state => predicate.evaluate (chain.label state)

variable [Scalar α]

private def checkRow (origin : Origin) (entries : Weighted α) : Except (TraversalError α) Unit :=
  if entries.isEmpty then .error (.deadlock origin)
  else if Distribution.isOff entries.total then
    .error (.invalidDistribution origin entries.total)
  else .ok ()

def validate (chain : MarkovChain α) : Except (TraversalError α) Unit := do
  checkRow none chain.initial
  (List.range chain.stateCount).forM fun state => checkRow (some state) (chain.matrix.row state)

end MarkovChain

namespace TransitionChains

variable {α : Type}

def chainRows (chains : TransitionChains α) : (fuel next : Nat) → PairTable → SparseMatrix α →
    Except Misuse (PairTable × SparseMatrix α)
  | 0, _, table, matrix => .ok (table, matrix)
  | fuel + 1, next, table, matrix =>
    match table.pairs[next]? with
    | none => .ok (table, matrix)
    | some (state, _) => do
      let (entries, table) := table.internAll (← chains.outgoing state)
      chains.chainRows fuel (next + 1) table (matrix.pushRow entries)

/-- The Markov chain on the pairs of target and label that can be reached. Every pair belongs to an
element, so the elements bound their number. -/
def toMarkovChain (chains : TransitionChains α) : Except Misuse (MarkovChain α) := do
  let (initial, table) := PairTable.internAll {} chains.initial
  let (table, matrix) ← chains.chainRows chains.elements.size 0 table {}
  return ⟨matrix, table.labels, initial, chains.propositions⟩

end TransitionChains

structure MarkovChainDraft (α : Type) where
  propositions : List String
  initial : Weighted α := []
  labels : Array Label := #[]
  rows : Array (Weighted α) := #[]
  deriving DecidableEq, Repr

namespace MarkovChainDraft

variable {α : Type}

/-- Makes room for a state. New states have no label and no transitions. -/
def ensure (draft : MarkovChainDraft α) (state : Nat) : MarkovChainDraft α :=
  let missing := state + 1 - draft.rows.size
  { draft with
    rows := draft.rows ++ Array.replicate missing []
    labels := draft.labels ++ Array.replicate missing .empty }

def start (draft : MarkovChainDraft α) (state : Nat) (probability : α) : MarkovChainDraft α :=
  { draft.ensure state with initial := draft.initial ++ [(state, probability)] }

def mark (draft : MarkovChainDraft α) (state : Nat) (label : Label) : MarkovChainDraft α :=
  let roomy := draft.ensure state
  { roomy with labels := roomy.labels.setIfInBounds state label }

def connect (draft : MarkovChainDraft α) (source target : Nat) (probability : α) :
    MarkovChainDraft α :=
  let roomy := (draft.ensure source).ensure target
  { roomy with rows := roomy.rows.modify source (· ++ [(target, probability)]) }

def build [Scalar α] (draft : MarkovChainDraft α) :
    Except (TraversalError α) (MarkovChain α) := do
  let chain : MarkovChain α := ⟨⟨draft.rows⟩, draft.labels, draft.initial, draft.propositions⟩
  chain.validate
  return chain

end MarkovChainDraft

end Hazard
