import Hazard.Analysis.Results
import Hazard.Counterexample.File
/-!
# Saved counterexamples

The counterexamples of an analysis are saved to one folder, each in a file named for its faults.
-/

namespace Hazard

structure Folder where
  files : List (String × String) := []
  folders : List String := []
  deriving DecidableEq, Repr

inductive Destination where
  | absent
  | folder (content : Folder)
  | file
  deriving DecidableEq, Repr

namespace Folder

/-- The names that file systems usually accept: no NUL, and at most 255 bytes. -/
def usual (name : String) : Bool := !name.toList.contains '\x00' && name.utf8ByteSize ≤ 255

/-- Can the folder have a file of this name? A slash would lead out of it. -/
def admits (accepts : String → Bool) (folder : Folder) (name : String) : Bool :=
  !name.toList.contains '/' && accepts name && !folder.folders.contains name

def write (accepts : String → Bool) (folder : Folder) (name content : String) : Option Folder :=
  if folder.admits accepts name then
    some { folder with files := folder.files.filter (·.1 != name) ++ [(name, content)] }
  else none

def listing (folder : Folder) : List (String × Option String) :=
  let entries := folder.files.map (fun (name, content) => (name, some content))
    ++ folder.folders.map fun name => (name, none)
  entries.mergeSort fun left right => decide (left.1 ≤ right.1)

end Folder

namespace AnalysisResults

variable {α : Type}

def fileName (results : AnalysisResults α) (set : FaultSet) : String :=
  let name := "_".intercalate (results.names set)
  (if name.isEmpty then "emptyset" else name) ++ ".json"

/-- Saves all counterexamples, on a file system that accepts some names. Files that were in the
folder before are removed. -/
def save (accepts : String → Bool) (results : AnalysisResults α) (destination : Destination) :
    Option Folder :=
  let write := fun folder =>
    results.counterexamples.foldlM
      (fun (folder : Folder) (set, counterexample) =>
        folder.write accepts (results.fileName set) counterexample.fileText)
      folder
  match destination with
  | .absent => write {}
  | .folder content => write { content with files := [] }
  | .file => none

end AnalysisResults

end Hazard
