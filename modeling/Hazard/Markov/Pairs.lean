import Hazard.Markov.Arena
import Hazard.Markov.Matrix
/-!
# States from transitions

Labels move from transitions to states: every pair of a target and a label becomes a state of its
own, numbered by discovery. Pairs are meant to be fewer than 2^32.
-/

namespace Hazard

structure PairTable where
  pairs : Array (Nat × Label) := #[]
  deriving DecidableEq, Repr

namespace PairTable

def intern (table : PairTable) (pair : Nat × Label) : Nat × PairTable :=
  match table.pairs.idxOf? pair with
  | some number => (number, table)
  | none => (table.pairs.size, ⟨table.pairs.push pair⟩)

variable {α : Type}

def internAll (table : PairTable) : List (ChainElement α) → Weighted α × PairTable
  | [] => ([], table)
  | element :: rest =>
    let (number, table) := table.intern (element.target, element.label)
    let (entries, table) := table.internAll rest
    ((number, element.probability) :: entries, table)

def labels (table : PairTable) : Array Label := table.pairs.map (·.2)

end PairTable

end Hazard
