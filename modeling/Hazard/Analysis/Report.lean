import Hazard.Analysis.Results
import Hazard.Traversal.Message
/-!
# Reports

The text in which a safety analysis presents its results.
-/

namespace Hazard

def AnalysisError.message : AnalysisError Float → String
  | .formula error => error.message
  | .traversal error => error.message
  | .tooManyFaults count => s!"fault sets support at most 64 faults, the model has {count}"
  | .unfinished => "the heuristics made more suggestions than can be checked"

namespace Report

/-- Rounds a quotient to the nearest integer, a half to the even neighbour. -/
def roundHalfEven (numerator denominator : Nat) : Nat :=
  let quotient := numerator / denominator
  let twice := 2 * (numerator % denominator)
  if twice < denominator then quotient
  else if denominator < twice then quotient + 1
  else quotient + quotient % 2

/-- A time in nanoseconds, in the largest unit that fits at least once, with two decimals. -/
def elapsed (nanoseconds : Nat) : String :=
  let (unit, name) :=
    if 1000000000 ≤ nanoseconds then (1000000000, "s")
    else if 1000000 ≤ nanoseconds then (1000000, "ms")
    else if 1000 ≤ nanoseconds then (1000, "µs")
    else (1, "ns")
  let hundredths := roundHalfEven (nanoseconds * 100) unit
  let tens := hundredths / 10 % 10
  let ones := hundredths % 10
  s!"{hundredths / 100}.{tens}{ones}{name}"

def percentage (part whole : Nat) : Nat := (part * 200 + whole) / (whole * 2)

def bar : String := String.ofList (List.replicate 71 '=')

def heading : List String :=
  ["", bar, "=======      Deductive Cause Consequence Analysis: Results      =======", bar, ""]

end Report

namespace AnalysisResults

variable {α : Type}

def joined (results : AnalysisResults α) (set : FaultSet) : String := set.joinedNames results.faults

private def warnings (results : AnalysisResults α) : List String :=
  (if results.exceptions.isEmpty then []
    else ["*** Warning: Unhandled exceptions have been thrown during the analysis. ***", ""])
  ++ (if results.complete then []
    else
      ["*** Warning: Analysis might be incomplete; not all fault sets have been checked. ***", ""])

private def faultLines (results : AnalysisResults α) (all : FaultSet) : List String :=
  let optional := fun title (set : FaultSet) =>
    if set.isEmpty then [] else [title ++ ": " ++ results.joined set]
  [s!"Fault Count: {results.faults.length}", "Faults: " ++ results.joined all]
    ++ optional "Forced Faults" results.forced
    ++ optional "Suppressed Faults" results.suppressed
    ++ [""]

private def criticalLines (results : AnalysisResults α) : List String :=
  results.minimal.zipIdx.flatMap fun (set, position) =>
    (s!"   ({position + 1}) " ++ "\x7b " ++ results.joined set ++ " \x7d")
      :: match results.exception? set with
        | none => []
        | some error =>
          ["    An unhandled exception was thrown while checking the fault set: "
            ++ error.message]

private def checkLines (results : AnalysisResults α) : List String :=
  let checked := results.checked.length
  let share := Report.percentage checked (1 <<< results.faults.length)
  [s!"Checked Fault Sets: {checked} ({share}% of all fault sets)",
    s!"Minimal Critical Sets: {results.minimal.length}", ""]

private def heuristicLines (results : AnalysisResults α) : List String :=
  let counts := results.counts
  let suggested := counts.suggested
  let line := fun (count : Nat) text =>
    s!"    {count} ({Report.percentage count suggested}%) " ++ text
  if results.heuristicCount = 0 then []
  else if suggested = 0 then ["", "No suggestions were made by the heuristics."]
  else
    ["", s!"Of {suggested} fault sets suggested by {results.heuristicCount} heuristics",
      line counts.suggestedTrivial "were trivially safe or trivially critical,",
      line counts.suggestedSafe "were non-trivially safe, and",
      line (suggested - counts.suggestedSafe - counts.suggestedTrivial)
        "were non-trivially critical.",
      s!"In total, {counts.trivial} trivial checks were performed."]

def report (results : AnalysisResults α) (nanoseconds : Nat) : Except Misuse String := do
  let all ← FaultSet.full results.faults.length
  let lines := Report.heading ++ results.warnings
    ++ ["Elapsed Time: " ++ Report.elapsed nanoseconds] ++ results.faultLines all
    ++ results.checkLines ++ results.criticalLines ++ results.heuristicLines
  return String.join (lines.map (· ++ "\n"))

end AnalysisResults

end Hazard
