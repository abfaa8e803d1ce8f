import Hazard.Markov.Arena
/-!
# Distributions

The probabilities that leave a source add up to one, up to a small tolerance; where a source offers
choices, those of every choice do.
-/

namespace Hazard

namespace Distribution

variable {α : Type} [Scalar α]

def tolerance : α := 1e-9

def isOff (sum : α) : Bool := decide (tolerance < Scalar.magnitude (sum - 1))

def check (origin : Origin) (probabilities : List α) : Except (TraversalError α) Unit :=
  if probabilities.isEmpty then .error (.deadlock origin)
  else
    let sum := probabilities.foldl (· + ·) 0
    if isOff sum then .error (.invalidDistribution origin sum) else .ok ()

/-- The choices that occur, each once, by first occurrence. -/
def choices (ids : List Nat) : List Nat :=
  ids.foldl (fun seen id => if seen.contains id then seen else seen ++ [id]) []

def checkChoices (origin : Origin) (transitions : List (Transition α)) :
    Except (TraversalError α) Unit :=
  if transitions.isEmpty then .error (.deadlock origin)
  else
    (choices (transitions.map (·.distribution))).forM fun id =>
      check origin ((transitions.filter (·.distribution == id)).map (·.probability))

end Distribution

namespace ChainArena

variable {α : Type} [Scalar α]

def accept (merging : Merging) (arena : ChainArena α) (origin : Origin)
    (batch : List (Transition α)) (checked : Except (TraversalError α) Unit) :
    ChainArena α × Except (TraversalError α) Verdict :=
  match checked with
  | .error error => (arena, .error error)
  | .ok () => arena.appendAll merging origin batch

def observeChain (arena : ChainArena α) (origin : Origin) (batch : List (Transition α)) :
    ChainArena α × Except (TraversalError α) Verdict :=
  arena.accept .acrossChoices origin batch
    (Distribution.check origin (batch.map (·.probability)))

def observeProcess (arena : ChainArena α) (origin : Origin) (batch : List (Transition α)) :
    ChainArena α × Except (TraversalError α) Verdict :=
  arena.accept .withinChoice origin batch (Distribution.checkChoices origin batch)

def chainObserver : Observer α (ChainArena α) := ⟨observeChain⟩

def processObserver : Observer α (ChainArena α) := ⟨observeProcess⟩

end ChainArena

end Hazard
