import Hazard.Analysis.Level
import Hazard.Config
import Hazard.Fault.Collection
import Hazard.Invariant
/-!
# Checking fault sets

A fault set is critical if the hazard can occur while only its faults may strike, and safe
otherwise. Supersets of critical sets are critical and subsets of safe sets are safe, so a set is
checked by an exploration only if no finding decides it.
-/

namespace Hazard

inductive AnalysisError (α : Type) where
  | formula (error : FormulaError)
  | traversal (error : TraversalError α)
  | tooManyFaults (count : Nat)
  /-- The heuristics added more sets to the queue of a level than they were granted. -/
  | unfinished
  deriving DecidableEq, Repr

def AnalysisError.ofMisuse {α : Type} (misuse : Misuse) : AnalysisError α :=
  .traversal (.misuse misuse)

structure Inquiry (α : Type) where
  model : Model α
  traversal : TraversalConfig
  behaviour : ActivationBehaviour
  /-- The negated hazard. -/
  invariant : Formula
  all : FaultSet
  forced : FaultSet
  suppressed : FaultSet
  nondeterministic : FaultSet

structure CheckCounts where
  /-- Checks of sets that do not belong to the level. -/
  suggested : Nat := 0
  /-- Suggested sets that an exploration showed safe. -/
  suggestedSafe : Nat := 0
  /-- Suggested sets that earlier findings decided. -/
  suggestedTrivial : Nat := 0
  /-- Sets that earlier findings decided. -/
  trivial : Nat := 0
  deriving DecidableEq, Repr

structure Findings where
  safe : FaultSetCollection
  critical : FaultSetCollection
  /-- The sets that were explored, in ascending order. -/
  checked : List FaultSet := []
  counterexamples : List (FaultSet × Counterexample) := []
  /-- Failures of the model. -/
  exceptions : List (FaultSet × ModelError) := []
  counts : CheckCounts := {}
  deriving DecidableEq, Repr

namespace Findings

def start (faultCount : Nat) : Findings where
  safe := .empty faultCount
  critical := .empty faultCount

def keep {β : Type} (entries : List (FaultSet × β)) (set : FaultSet) (entry : β) :
    List (FaultSet × β) :=
  entries.filter (·.1 != set) ++ [(set, entry)]

def lasting {β : Type} (entries : List (FaultSet × β)) : List (FaultSet × β) :=
  entries.foldl (fun kept (set, entry) => keep kept set entry) []

def ascending {β : Type} (entries : List (FaultSet × β)) : List (FaultSet × β) :=
  entries.mergeSort fun left right => left.1.le right.1

def explored (findings : Findings) (set : FaultSet) : Findings :=
  { findings with checked := FaultSet.insertSorted set findings.checked }

def addSafe (findings : Findings) (set : FaultSet) : Except Misuse Findings :=
  (findings.safe.add set).map fun safe => { findings with safe }

def addCritical (findings : Findings) (set : FaultSet) : Except Misuse Findings :=
  (findings.critical.add set).map fun critical => { findings with critical }

def addCounterexample (findings : Findings) (set : FaultSet) (counterexample : Counterexample) :
    Findings :=
  { findings with counterexamples := keep findings.counterexamples set counterexample }

def addException (findings : Findings) (set : FaultSet) (error : ModelError) : Findings :=
  { findings with exceptions := keep findings.exceptions set error }

/-- The verdict that earlier findings give on a set: safe or not. -/
def verdict? (findings : Findings) (set : FaultSet) : Option Bool :=
  if findings.safe.hasSupersetOf set then some true
  else if findings.critical.hasSubsetOf set then some false
  else none

end Findings

namespace CheckCounts

def suggestion (counts : CheckCounts) (suggested : Bool) : CheckCounts :=
  if suggested then { counts with suggested := counts.suggested + 1 } else counts

def decided (counts : CheckCounts) (suggested : Bool) : CheckCounts :=
  { counts with
    trivial := counts.trivial + 1
    suggestedTrivial := counts.suggestedTrivial + suggested.toNat }

def shownSafe (counts : CheckCounts) (suggested : Bool) : CheckCounts :=
  { counts with suggestedSafe := counts.suggestedSafe + suggested.toNat }

end CheckCounts

/-- How the model is explored for a set in a mode, when some findings are known. -/
abbrev Explorer (m : Type → Type) (α : Type) :=
  Findings → FaultSet → Activation → m (Except (TraversalError α) InvariantResult)

namespace Inquiry

variable {α : Type} [Scalar α]

/-- Does a set lack a forced fault, hold a suppressed one, or hold one the model does not have? -/
def excludes (inquiry : Inquiry α) (set : FaultSet) : Bool :=
  !inquiry.forced.isSubset set || set.meets inquiry.suppressed || !set.isSubset inquiry.all

def orMisuse {β : Type} (result : Except Misuse β) : Except (AnalysisError α) β :=
  result.mapError .ofMisuse

/-- What an exploration with the faults of a set tells: whether the invariant holds. A model that
fails shows the set critical. -/
def conclude (inquiry : Inquiry α) (findings : Findings) (set : FaultSet) (mode : Activation) :
    Except (TraversalError α) InvariantResult → Except (AnalysisError α) (Bool × Findings)
  | .ok result =>
    match result.counterexample with
    | none => .ok (true, findings.explored set)
    | some counterexample => do
      let findings ← orMisuse (findings.addCritical set)
      let findings := findings.explored set
      return (false, findings.addCounterexample set
        { counterexample with faultSet := set.names inquiry.model.faults })
  | .error (.model _ trace error) => do
    let findings ← orMisuse ((findings.explored set).addCritical set)
    let findings :=
      if trace.isEmpty then findings
      else
        let faults := inquiry.model.faults
        findings.addCounterexample set
          (.create inquiry.invariant.render (set.names faults) faults
            (set.activations faults inquiry.nondeterministic mode) trace)
    return (false, findings.addException set error)
  | .error error => .error (.traversal error)

/-- Files a set that explorations have shown safe; a critical one has been filed already. -/
def settle (suggested : Bool) (set : FaultSet) (safe : Bool) (findings : Findings) :
    Except (AnalysisError α) (Bool × Findings) :=
  if safe then do
    let findings ← orMisuse (findings.addSafe set)
    return (true, { findings with counts := findings.counts.shownSafe suggested })
  else .ok (false, findings)

section

variable {m : Type → Type} [Monad m] (explorer : Explorer m α)

def exploreBy (inquiry : Inquiry α) (findings : Findings) (set : FaultSet) (mode : Activation) :
    ExceptT (AnalysisError α) m (Bool × Findings) :=
  ExceptT.mk (inquiry.conclude findings set mode <$> explorer findings set mode)

def exploreModesBy (inquiry : Inquiry α) (findings : Findings) (set : FaultSet) :
    ExceptT (AnalysisError α) m (Bool × Findings) :=
  match inquiry.behaviour with
  | .forceOnly => inquiry.exploreBy explorer findings set .forced
  | .nondeterministic => inquiry.exploreBy explorer findings set .nondeterministic
  | .forceThenFallback => do
    let (safe, findings) ← inquiry.exploreBy explorer findings set .forced
    if safe then inquiry.exploreBy explorer findings set .nondeterministic
    else return (false, findings)

/-- Is a set safe? Earlier findings are asked before the model. A set of another size than the
level's was suggested by a heuristic. -/
def checkBy (inquiry : Inquiry α) (cardinality : Nat) (findings : Findings) (set : FaultSet) :
    ExceptT (AnalysisError α) m (Bool × Findings) :=
  let suggested := set.card != cardinality
  let findings := { findings with counts := findings.counts.suggestion suggested }
  match findings.verdict? set with
  | some safe => return (safe, { findings with counts := findings.counts.decided suggested })
  | none => do
    let (safe, findings) ← inquiry.exploreModesBy explorer findings set
    settle (α := α) suggested set safe findings

end

def explorer (inquiry : Inquiry α) : Explorer Id α := fun _ set mode =>
  inquiry.model.checkInvariant inquiry.traversal inquiry.invariant
    (some (set.activations inquiry.model.faults inquiry.nondeterministic mode))

def explore (inquiry : Inquiry α) (findings : Findings) (set : FaultSet) (mode : Activation) :
    Except (AnalysisError α) (Bool × Findings) :=
  inquiry.exploreBy inquiry.explorer findings set mode

def exploreModes (inquiry : Inquiry α) (findings : Findings) (set : FaultSet) :
    Except (AnalysisError α) (Bool × Findings) :=
  inquiry.exploreModesBy inquiry.explorer findings set

def check (inquiry : Inquiry α) (cardinality : Nat) (findings : Findings) (set : FaultSet) :
    Except (AnalysisError α) (Bool × Findings) :=
  inquiry.checkBy inquiry.explorer cardinality findings set

theorem explore_eq (inquiry : Inquiry α) (findings : Findings) (set : FaultSet)
    (mode : Activation) :
    inquiry.explore findings set mode = inquiry.conclude findings set mode
      (inquiry.model.checkInvariant inquiry.traversal inquiry.invariant
        (some (set.activations inquiry.model.faults inquiry.nondeterministic mode))) := rfl

theorem exploreModes_eq (inquiry : Inquiry α) (findings : Findings) (set : FaultSet) :
    inquiry.exploreModes findings set =
      match inquiry.behaviour with
      | .forceOnly => inquiry.explore findings set .forced
      | .nondeterministic => inquiry.explore findings set .nondeterministic
      | .forceThenFallback => do
        let (safe, findings) ← inquiry.explore findings set .forced
        if safe then inquiry.explore findings set .nondeterministic
        else return (false, findings) := by
  rw [exploreModes, exploreModesBy]
  cases inquiry.behaviour with
  | forceOnly => rfl
  | nondeterministic => rfl
  | forceThenFallback =>
      rw [explore]
      cases inquiry.exploreBy inquiry.explorer findings set .forced with
      | error error => rfl
      | ok answer => rfl

theorem check_eq (inquiry : Inquiry α) (cardinality : Nat) (findings : Findings) (set : FaultSet) :
    inquiry.check cardinality findings set =
      let suggested := set.card != cardinality
      let findings := { findings with counts := findings.counts.suggestion suggested }
      match findings.verdict? set with
      | some safe => .ok (safe, { findings with counts := findings.counts.decided suggested })
      | none => do
        let (safe, findings) ← inquiry.exploreModes findings set
        if safe then
          let findings ← orMisuse (findings.addSafe set)
          return (true, { findings with counts := findings.counts.shownSafe suggested })
        else return (false, findings) := by
  rw [check, checkBy]
  dsimp only
  cases Findings.verdict? _ set with
  | some safe => rfl
  | none =>
      rw [exploreModes]
      cases inquiry.exploreModesBy inquiry.explorer _ set with
      | error error => rfl
      | ok answer => rfl

end Inquiry

end Hazard
