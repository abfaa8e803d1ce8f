import Hazard.Analysis.Heuristic
import Hazard.Analysis.Results
/-!
# Safety analysis

Walks the power set of a model's faults by size, from the empty set up. Only sets all of whose
direct subsets are safe are looked at, so every critical set met this way is minimal. Heuristics
may bring in sets out of turn.
-/

namespace Hazard

structure LevelWork (η : Type) where
  /-- The sets of the level that have not been checked, in ascending order. -/
  unchecked : List FaultSet
  queue : Queue
  /-- The sets of the level found safe, in ascending order. -/
  safe : List FaultSet
  findings : Findings
  heuristics : List η

structure Progress (η : Type) where
  safe : List FaultSet
  findings : Findings
  heuristics : List η
  complete : Bool := true

namespace Inquiry

variable {α η : Type} [Scalar α]

/-- Checks the first set of the queue, unless it is a suggestion that can never be activated. After
an error the heuristics stay as they were when it arose. -/
def takeFirst (inquiry : Inquiry α) (heuristic : Heuristic η) (cardinality : Nat)
    (work : LevelWork η) (set : FaultSet) (queue : Queue) :
    LevelWork η × Except (AnalysisError α) Unit :=
  let current := work.unchecked.contains set
  let work := { work with unchecked := work.unchecked.erase set, queue }
  if !current && inquiry.excludes set then (work, .ok ())
  else
    match inquiry.check cardinality work.findings set with
    | .error error => (work, .error error)
    | .ok (safe, findings) =>
      match heuristic.updateAll work.heuristics queue set safe with
      | (heuristics, .error misuse) => ({ work with heuristics }, .error (.ofMisuse misuse))
      | (heuristics, .ok queue) =>
        ({ work with
            queue, findings, heuristics
            safe := if safe && current then FaultSet.insertSorted set work.safe else work.safe },
          .ok ())

def drain (inquiry : Inquiry α) (heuristic : Heuristic η) (cardinality : Nat) :
    Nat → LevelWork η → LevelWork η × Except (AnalysisError α) Unit
  | fuel, work =>
    match work.queue, fuel with
    | [], _ => (work, .ok ())
    | _ :: _, 0 => (work, .error .unfinished)
    | set :: queue, fuel + 1 =>
      match inquiry.takeFirst heuristic cardinality work set queue with
      | (next, .error error) => (next, .error error)
      | (next, .ok ()) => inquiry.drain heuristic cardinality fuel next

def checkOpen (inquiry : Inquiry α) (cardinality : Nat) (work : LevelWork η) :
    Except (AnalysisError α) (LevelWork η) :=
  work.unchecked.foldlM
    (fun work set => do
      let (safe, findings) ← inquiry.check cardinality work.findings set
      return { work with
        findings, safe := if safe then FaultSet.insertSorted set work.safe else work.safe })
    work

/-- Checks the sets of one level. Those that can never be activated count as safe. The fuel is for
sets that heuristics add while the queue is worked through. -/
def checkLevel (inquiry : Inquiry α) (heuristic : Heuristic η) (fuel cardinality : Nat)
    (sets excluded : List FaultSet) (progress : Progress η) :
    Progress η × Except (AnalysisError α) Unit :=
  match heuristic.augmentAll progress.heuristics cardinality sets with
  | (heuristics, .error misuse) => ({ progress with heuristics }, .error (.ofMisuse misuse))
  | (heuristics, .ok queue) =>
    let work : LevelWork η := ⟨sets, queue, excluded, progress.findings, heuristics⟩
    match inquiry.drain heuristic cardinality (fuel + queue.length) work with
    | (work, .error error) => ({ progress with heuristics := work.heuristics }, .error error)
    | (work, .ok ()) =>
      match inquiry.checkOpen cardinality work with
      | .error error => ({ progress with heuristics := work.heuristics }, .error error)
      | .ok work =>
        ({ progress with
            safe := work.safe, findings := work.findings, heuristics := work.heuristics },
          .ok ())

/-- Goes through the sizes in order. Sizes above the greatest wanted one are left out. -/
def climb (inquiry : Inquiry α) (heuristic : Heuristic η) (fuel : Nat)
    (maxCardinality : Option Nat) :
    List Nat → Progress η → Progress η × Except (AnalysisError α) Unit
  | [], progress => (progress, .ok ())
  | cardinality :: rest, progress =>
    let level := FaultSet.level cardinality inquiry.model.faults.length progress.safe
    let excluded := level.filter inquiry.excludes
    let sets := level.filter fun set => !inquiry.excludes set
    if sets.isEmpty then
      inquiry.climb heuristic fuel maxCardinality rest { progress with safe := excluded }
    else if maxCardinality.any (· < cardinality) then ({ progress with complete := false }, .ok ())
    else
      match inquiry.checkLevel heuristic fuel cardinality sets excluded progress with
      | (progress, .error error) => (progress, .error error)
      | (progress, .ok ()) => inquiry.climb heuristic fuel maxCardinality rest progress

end Inquiry

namespace Model

variable {α η : Type} [Scalar α]

def inquire (model : Model α) (config : AnalysisConfig) (hazard : Formula) :
    Except (AnalysisError α) (Inquiry α) :=
  if IndexSet.limit < model.faults.length then .error (.tooManyFaults model.faults.length)
  else
    match Predicate.compile hazard.not model.propositions with
    | .error error => .error (.formula error)
    | .ok _ =>
      let declared := fun activation =>
        (FaultSet.declared model.faults activation).mapError AnalysisError.ofMisuse
      do
        return {
          model
          traversal := config.traversal
          behaviour := config.behaviour
          invariant := hazard.not
          all := .below model.faults.length
          forced := ← declared .forced
          suppressed := ← declared .suppressed
          nondeterministic := ← declared .nondeterministic }

/-- Computes the minimal critical sets of a model for a hazard. The heuristics come back as the
analysis left them. Without heuristics no fuel is needed; with them it bounds the number of sets
they may add to the queue of a level while it is worked through. -/
def analyze (model : Model α) (config : AnalysisConfig) (hazard : Formula)
    (heuristic : Heuristic η) (heuristics : List η) (fuel : Nat) :
    List η × Except (AnalysisError α) (AnalysisResults α) :=
  match model.inquire config hazard with
  | .error error => (heuristics, .error error)
  | .ok inquiry =>
    let count := model.faults.length
    match inquiry.climb heuristic fuel config.maxCardinality (List.range (count + 1))
        { safe := [], findings := .start count, heuristics } with
    | (progress, .error error) => (progress.heuristics, .error error)
    | (progress, .ok ()) =>
      (progress.heuristics,
        .ok (progress.findings.results inquiry progress.complete heuristics.length))

end Model

end Hazard
