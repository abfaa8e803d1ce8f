import Hazard.Formula.Predicate
import Hazard.Markov.Distribution
import Hazard.Markov.Pairs
import Hazard.State.Set
/-!
# Markov decision processes

A state offers choices, each a distribution over successor states.
-/

namespace Hazard

structure DecisionProcess (α : Type) where
  choices : Array (List (Weighted α))
  labels : Array Label
  initial : List (Weighted α)
  propositions : List String
  deriving DecidableEq, Repr

namespace DecisionProcess

variable {α : Type}

def stateCount (process : DecisionProcess α) : Nat := process.labels.size

def choicesOf (process : DecisionProcess α) (state : Nat) : List (Weighted α) :=
  process.choices.getD state []

def distributionCount (process : DecisionProcess α) : Nat :=
  process.choices.toList.flatten.length

def transitionCount (process : DecisionProcess α) : Nat :=
  process.choices.toList.flatten.flatten.length

def label (process : DecisionProcess α) (state : Nat) : Label :=
  process.labels.getD state .empty

def satisfying (process : DecisionProcess α) (predicate : Predicate) : StateSet :=
  .ofTest process.stateCount fun state => predicate.evaluate (process.label state)

variable [Scalar α]

private def checkChoiceList (origin : Origin) (choices : List (Weighted α)) :
    Except (TraversalError α) Unit :=
  if choices.isEmpty then .error (.deadlock origin)
  else
    choices.forM fun entries =>
      if Distribution.isOff entries.total then
        .error (.invalidDistribution origin entries.total)
      else .ok ()

def validate (process : DecisionProcess α) : Except (TraversalError α) Unit := do
  checkChoiceList none process.initial
  (List.range process.stateCount).forM fun state =>
    checkChoiceList (some state) (process.choicesOf state)

end DecisionProcess

namespace TransitionChains

variable {α : Type}

def internChoices (elements : List (ChainElement α)) :
    List Nat → PairTable → List (Weighted α) × PairTable
  | [], table => ([], table)
  | id :: rest, table =>
    let (entries, table) := table.internAll (elements.filter (·.distribution == id))
    let (others, table) := internChoices elements rest table
    (entries :: others, table)

def grouped (elements : List (ChainElement α)) (table : PairTable) :
    List (Weighted α) × PairTable :=
  internChoices elements (Distribution.choices (elements.map (·.distribution))) table

def processRows (chains : TransitionChains α) : (fuel next : Nat) → PairTable →
    Array (List (Weighted α)) → Except Misuse (PairTable × Array (List (Weighted α)))
  | 0, _, table, choices => .ok (table, choices)
  | fuel + 1, next, table, choices =>
    match table.pairs[next]? with
    | none => .ok (table, choices)
    | some (state, _) => do
      let (own, table) := grouped (← chains.outgoing state) table
      chains.processRows fuel (next + 1) table (choices.push own)

/-- The decision process on the pairs of target and label that can be reached. Every pair belongs
to an element, so the elements bound their number. -/
def toDecisionProcess (chains : TransitionChains α) : Except Misuse (DecisionProcess α) := do
  let (initial, table) := grouped chains.initial {}
  let (table, choices) ← chains.processRows chains.elements.size 0 table #[]
  return ⟨choices, table.labels, initial, chains.propositions⟩

end TransitionChains

structure DecisionProcessDraft (α : Type) where
  propositions : List String
  initial : List (Weighted α) := []
  labels : Array Label := #[]
  choices : Array (List (Weighted α)) := #[]
  deriving DecidableEq, Repr

namespace DecisionProcessDraft

variable {α : Type}

def ensure (draft : DecisionProcessDraft α) (state : Nat) : DecisionProcessDraft α :=
  let missing := state + 1 - draft.choices.size
  { draft with
    choices := draft.choices ++ Array.replicate missing []
    labels := draft.labels ++ Array.replicate missing .empty }

def ensureTargets (draft : DecisionProcessDraft α) (entries : Weighted α) :
    DecisionProcessDraft α :=
  entries.foldl (fun draft (target, _) => draft.ensure target) draft

def start (draft : DecisionProcessDraft α) (entries : Weighted α) : DecisionProcessDraft α :=
  { draft.ensureTargets entries with initial := draft.initial ++ [entries] }

def mark (draft : DecisionProcessDraft α) (state : Nat) (label : Label) :
    DecisionProcessDraft α :=
  let roomy := draft.ensure state
  { roomy with labels := roomy.labels.setIfInBounds state label }

def offer (draft : DecisionProcessDraft α) (source : Nat) (entries : Weighted α) :
    DecisionProcessDraft α :=
  let roomy := (draft.ensure source).ensureTargets entries
  { roomy with choices := roomy.choices.modify source (· ++ [entries]) }

def build [Scalar α] (draft : DecisionProcessDraft α) :
    Except (TraversalError α) (DecisionProcess α) := do
  let process : DecisionProcess α :=
    ⟨draft.choices, draft.labels, draft.initial, draft.propositions⟩
  process.validate
  return process

end DecisionProcessDraft

end Hazard
