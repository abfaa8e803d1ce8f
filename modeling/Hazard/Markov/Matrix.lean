import Hazard.Misuse
import Hazard.Scalar
/-!
# Sparse matrices

Rows of probabilities. Rows are appended and never changed.
-/

namespace Hazard

abbrev Weighted (α : Type) := List (Nat × α)

structure SparseMatrix (α : Type) where
  rows : Array (Weighted α) := #[]
  deriving DecidableEq, Repr

namespace Weighted

variable {α : Type} [Scalar α]

def total (entries : Weighted α) : α := Scalar.sum (entries.map (·.2))

def expectation (entries : Weighted α) (values : Array α) : α :=
  Scalar.sum (entries.map fun (state, weight) => weight * values.getD state 0)

def support (entries : Weighted α) : List Nat :=
  (entries.filter fun (_, weight) => decide (0 < weight)).map (·.1)

end Weighted

namespace SparseMatrix

variable {α : Type}

def rowCount (matrix : SparseMatrix α) : Nat := matrix.rows.size

def entryCount (matrix : SparseMatrix α) : Nat := matrix.rows.toList.flatten.length

def pushRow (matrix : SparseMatrix α) (entries : Weighted α) : SparseMatrix α :=
  ⟨matrix.rows.push entries⟩

def row (matrix : SparseMatrix α) (index : Nat) : Weighted α := matrix.rows.getD index []

def get (matrix : SparseMatrix α) (index : Nat) : Except Misuse (Weighted α) :=
  match matrix.rows[index]? with
  | some entries => .ok entries
  | none => .error .outOfBounds

def entries (matrix : SparseMatrix α) : List (Nat × Nat × α) :=
  matrix.rows.toList.zipIdx.flatMap fun (entries, row) =>
    entries.map fun (column, value) => (row, column, value)

end SparseMatrix

end Hazard
