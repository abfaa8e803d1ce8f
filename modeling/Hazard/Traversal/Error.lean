import Hazard.Formula.Basic
import Hazard.State.Storage
import Hazard.Transition
/-!
# What ends an exploration early

The causes for which an exploration, or the structure built from it, gives up.
-/

namespace Hazard

inductive TraversalError (α : Type) where
  | exhausted (error : Exhausted)
  | deadlock (origin : Origin)
  | invalidDistribution (origin : Origin) (sum : α)
  /-- The model failed; the trace leads from an initial state to where it did. -/
  | model (origin : Origin) (trace : List Bytes) (error : ModelError)
  | propositionLimit (count : Nat)
  | formula (error : FormulaError)
  | misuse (misuse : Misuse)
  deriving DecidableEq, Repr

inductive Verdict where
  | proceed
  | stop
  deriving DecidableEq, Repr

/-- Watches the batches of transitions that an exploration finds. What it did before it refused a
batch stays done. -/
structure Observer (α σ : Type) where
  observe : σ → Origin → List (Transition α) → σ × Except (TraversalError α) Verdict

/-- Shows a batch to several watchers in turn, each with its own observer. One that refuses the
batch keeps it from those after it; one that wants to stop does not. -/
def Observer.observeAll {α σ : Type} (origin : Origin) (batch : List (Transition α)) :
    List (Observer α σ) → List σ → List σ × Except (TraversalError α) Verdict
  | observer :: others, watcher :: rest =>
    match observer.observe watcher origin batch with
    | (watcher, .error error) => (watcher :: rest, .error error)
    | (watcher, .ok verdict) =>
      let (rest, outcome) := observeAll origin batch others rest
      (watcher :: rest, outcome.map fun other => if verdict = .stop then .stop else other)
  | _, watchers => (watchers, .ok .proceed)

def Observer.inTurn {α σ : Type} (observers : List (Observer α σ)) : Observer α (List σ) :=
  ⟨fun watchers origin batch => observeAll origin batch observers watchers⟩

def Observer.idle {α σ : Type} : Observer α σ := ⟨fun watcher _ _ => (watcher, .ok .proceed)⟩

end Hazard
