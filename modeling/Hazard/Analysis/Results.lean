import Hazard.Analysis.Findings
/-!
# Results of a safety analysis

The minimal critical sets decide every other set: a set is critical if it contains one of them.
-/

namespace Hazard

structure AnalysisResults (α : Type) where
  faults : List (Fault α)
  forced : FaultSet
  suppressed : FaultSet
  /-- The critical sets without a critical proper subset, in ascending order. -/
  minimal : List FaultSet
  /-- The sets that were explored, in ascending order. -/
  checked : List FaultSet
  /-- The counterexamples of minimal critical sets. -/
  counterexamples : List (FaultSet × Counterexample)
  /-- The failures of the model that showed minimal critical sets critical. -/
  exceptions : List (FaultSet × ModelError)
  /-- Whether sets of all sizes were looked at. -/
  complete : Bool
  heuristicCount : Nat
  counts : CheckCounts
  deriving DecidableEq, Repr

inductive SetOutcome where
  | safe
  | critical
  /-- All minimal critical subsets are critical because the model failed. -/
  | criticalByException
  deriving DecidableEq, Repr

def SetOutcome.name : SetOutcome → String
  | .safe => "Safe"
  | .critical => "Critical"
  | .criticalByException => "CriticalByException"

namespace AnalysisResults

variable {α : Type}

def names (results : AnalysisResults α) (set : FaultSet) : List String := set.names results.faults

def lookup (results : AnalysisResults α) (names : List String) :
    Except Misuse (Option FaultSet) :=
  match names.mapM fun name => results.faults.findIdx? (·.name == name) with
  | none => .ok none
  | some positions => (FaultSet.ofList positions).map some

def exception? (results : AnalysisResults α) (set : FaultSet) : Option ModelError :=
  results.exceptions.lookup set

def outcome (results : AnalysisResults α) (set : FaultSet) : SetOutcome :=
  let reasons := results.minimal.filter (·.isSubset set)
  if reasons.isEmpty then .safe
  else if reasons.all fun reason => (results.exception? reason).isSome then .criticalByException
  else .critical

end AnalysisResults

/-- Keeps what belongs to minimal critical sets. -/
def Findings.results {α : Type} (findings : Findings) (inquiry : Inquiry α) (complete : Bool)
    (heuristicCount : Nat) : AnalysisResults α :=
  let minimal := findings.critical.minimal
  { faults := inquiry.model.faults
    forced := inquiry.forced
    suppressed := inquiry.suppressed
    minimal := minimal.mergeSort IndexSet.le
    checked := findings.checked
    counterexamples := findings.counterexamples.filter fun (set, _) => minimal.contains set
    exceptions := findings.exceptions.filter fun (set, _) => minimal.contains set
    complete
    heuristicCount
    counts := findings.counts }

end Hazard
