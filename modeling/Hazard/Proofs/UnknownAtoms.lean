import Hazard.Proofs.CtlEvaluation
/-!
# Unknown atoms

An evaluation has no answer iff its formula has an atom that is not known, and it fails with the
first one. As memory never holds such a formula, what was asked before makes no difference: the
answer of a checker is a function of the graph and the formula.
-/

namespace Hazard

namespace CtlChecker

def requireKnown (propositions names : List String) : Except FormulaError Unit :=
  names.forM fun name =>
    if name ∈ propositions then .ok () else .error (.unknownProposition name)

variable {propositions : List String}

theorem requireKnown_append (first second : List String) :
    requireKnown propositions (first ++ second) =
      (do requireKnown propositions first; requireKnown propositions second) :=
  List.forM_append

theorem requireKnown_cons (name : String) (names : List String) :
    requireKnown propositions (name :: names) =
      if name ∈ propositions then requireKnown propositions names
      else .error (.unknownProposition name) := by
  change ((if name ∈ propositions then Except.ok () else .error (.unknownProposition name)) >>=
    fun _ => requireKnown propositions names) = _
  split <;> rfl

theorem requireKnown_eq_ok {names : List String} :
    requireKnown propositions names = .ok () ↔ ∀ name ∈ names, name ∈ propositions := by
  induction names with
  | nil => exact ⟨fun _ => List.forall_mem_nil _, fun _ => rfl⟩
  | cons name names ih =>
      rw [requireKnown_cons, List.forall_mem_cons, ← ih]
      by_cases hname : name ∈ propositions <;> simp [hname]

def KnownOnly (propositions : List String) (memory : Memory) : Prop :=
  ∀ formula set, (formula, set) ∈ memory → ∀ name ∈ formula.names, name ∈ propositions

/-- The names of its atoms decide whether the evaluation of a formula has an answer. -/
def Settles (propositions : List String) (formula : Ctl) (evaluation : Evaluation StateSet) :
    Prop :=
  ∀ memory, KnownOnly propositions memory →
    KnownOnly propositions (evaluation.run memory).2 ∧
      (evaluation.run memory).1.map (fun _ => ()) = requireKnown propositions formula.names

variable {formula a b : Ctl} {evaluation left right : Evaluation StateSet}

theorem Settles.remembered (hsettles : Settles propositions formula evaluation) :
    Settles propositions formula (remembered formula evaluation) := by
  intro memory hmemory
  rw [run_remembered]
  cases hlookup : memory.lookup formula with
  | some set =>
      exact ⟨hmemory, (requireKnown_eq_ok.2 (hmemory formula set (mem_of_lookup hlookup))).symm⟩
  | none =>
      obtain ⟨hkept, houtcome⟩ := hsettles memory hmemory
      generalize evaluation.run memory = outcome at hkept houtcome ⊢
      rcases outcome with ⟨error | set, after⟩
      · exact ⟨hkept, houtcome⟩
      · refine ⟨fun other found hfound => ?_, houtcome⟩
        rcases List.mem_cons.1 hfound with heq | hfound
        · obtain ⟨rfl, rfl⟩ := Prod.mk.inj heq
          exact requireKnown_eq_ok.1 houtcome.symm
        · exact hkept other found hfound

theorem settles_pure {set : StateSet} (hnames : formula.names = []) :
    Settles propositions formula (pure set) := by
  refine fun memory hmemory => ⟨hmemory, ?_⟩
  rw [hnames]
  rfl

theorem Settles.map {change : StateSet → StateSet} (hleft : Settles propositions a left)
    (hnames : formula.names = a.names) :
    Settles propositions formula (do return change (← left)) := by
  intro memory hmemory
  rw [run_bind, hnames]
  obtain ⟨hkept, houtcome⟩ := hleft memory hmemory
  generalize left.run memory = outcome at hkept houtcome ⊢
  rcases outcome with ⟨error | set, after⟩
  · exact ⟨hkept, houtcome⟩
  · exact ⟨hkept, houtcome⟩

theorem Settles.map₂ {combine : StateSet → StateSet → StateSet}
    (hleft : Settles propositions a left) (hright : Settles propositions b right)
    (hnames : formula.names = a.names ++ b.names) :
    Settles propositions formula (do
      let first ← left
      let second ← right
      return combine first second) := by
  intro memory hmemory
  rw [run_bind, hnames, requireKnown_append]
  obtain ⟨hkept, hfirst⟩ := hleft memory hmemory
  rw [← hfirst]
  generalize left.run memory = outcome at hkept ⊢
  rcases outcome with ⟨error | first, between⟩
  · exact ⟨hkept, rfl⟩
  · dsimp only
    rw [run_bind]
    obtain ⟨hkept, hsecond⟩ := hright between hkept
    rw [← hsecond]
    generalize right.run between = outcome at hkept ⊢
    rcases outcome with ⟨error | second, after⟩
    · exact ⟨hkept, rfl⟩
    · exact ⟨hkept, rfl⟩

theorem settles_atom (checker : CtlChecker) (name : String) :
    Settles checker.graph.propositions (.atom name)
      (evaluate.liftExcept (checker.atomStates name)) := by
  intro memory hmemory
  rw [atomStates, Ctl.names, requireKnown_cons]
  cases hposition : checker.graph.propositions.idxOf? name with
  | none =>
      rw [if_neg (List.idxOf?_eq_none_iff.1 hposition)]
      exact ⟨hmemory, rfl⟩
  | some position =>
      have hknown : name ∈ checker.graph.propositions := by
        by_contra hunknown
        rw [List.idxOf?_eq_none_iff.2 hunknown] at hposition
        cases hposition
      rw [if_pos hknown]
      exact ⟨hmemory, rfl⟩

theorem settles (checker : CtlChecker) (formula : Ctl) :
    Settles checker.graph.propositions formula (checker.evaluate formula) := by
  induction formula with
  | atom name => exact (checker.settles_atom name).remembered
  | const value => cases value <;> exact (settles_pure rfl).remembered
  | not a ih | someNext a ih | someAlways a ih => exact Settles.remembered (ih.map rfl)
  | and a b iha ihb | or a b iha ihb | someUntil a b iha ihb =>
      exact Settles.remembered (iha.map₂ ihb rfl)

theorem knownOnly_satisfying (checker : CtlChecker) (formula : Formula) {memory : Memory}
    (hmemory : KnownOnly checker.graph.propositions memory) :
    KnownOnly checker.graph.propositions ((checker.satisfying formula).run memory).2 := by
  rw [satisfying]
  cases formula.normalize with
  | error error => exact hmemory
  | ok normal => exact (checker.settles normal memory hmemory).1

theorem knownOnly_memoryAfter (checker : CtlChecker) (calls : List Call) :
    KnownOnly checker.graph.propositions (checker.memoryAfter calls) := by
  rw [memoryAfter]
  have hempty : KnownOnly checker.graph.propositions [] := fun _ _ h => by cases h
  generalize ([] : Memory) = memory at hempty
  induction calls generalizing memory with
  | nil => exact hempty
  | cons call calls ih =>
      refine ih _ ?_
      cases call with
      | satisfying formula => exact checker.knownOnly_satisfying formula hempty
      | check formula =>
          rw [Call.memory, run_check]
          exact checker.knownOnly_satisfying formula hempty

open Classical in
/-- After any calls, the answer is whether all initial edges lead to states that satisfy the normal
form, unless an atom is not known. -/
theorem Reads.check_eq {checker : CtlChecker} {graph : StateGraph} (hreads : checker.Reads graph)
    (calls : List Call) {formula : Formula} {normal : Ctl}
    (hnormal : formula.normalize = .ok normal) :
    ((checker.check formula).run (checker.memoryAfter calls)).1 =
      (requireKnown graph.propositions normal.names).map fun _ =>
        decide (∀ edge ∈ graph.initial,
          normal.Holds (graph.system checker.labelOf) edge.target) := by
  have hsettles := (checker.settles normal _ (checker.knownOnly_memoryAfter calls)).2
  obtain ⟨-, hright⟩ := hreads.answers normal _ (hreads.remembers_memoryAfter calls)
  rw [hreads.graph_eq] at hsettles
  rw [run_check, satisfying, hnormal, hreads.graph_eq, ← hsettles]
  dsimp only
  cases hresult : ((checker.evaluate normal).run (checker.memoryAfter calls)).1 with
  | error error => rfl
  | ok set =>
      rw [hresult] at hright
      refine congrArg Except.ok (Bool.eq_iff_iff.2 ?_)
      rw [decide_eq_true_iff, List.all_eq_true]
      refine forall₂_congr fun edge hedge => ?_
      rw [hright.contains_iff, and_iff_right (hreads.inRange.initial_lt edge hedge)]

end CtlChecker

end Hazard
