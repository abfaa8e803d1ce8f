import Hazard.Proofs.CtlOperators
import Hazard.Proofs.NormalForm
/-!
# Evaluating CTL formulas

Whatever was asked before, and whether or not it had an answer, all sets in memory are right, so
the next answer is right too.
-/

namespace Hazard

/-! ## Atoms -/

namespace Ctl

def names : Ctl → List String
  | .atom name => [name]
  | .const _ => []
  | .not a | .someNext a | .someAlways a => a.names
  | .and a b | .or a b | .someUntil a b => a.names ++ b.names

@[simp]
theorem names_negate (a : Ctl) : a.negate.names = a.names := by
  cases a <;> rfl

end Ctl

theorem Formula.names_of_toCtl? {formula : Formula} {normal : Ctl}
    (hnormal : formula.toCtl? = some normal) : normal.names ⊆ formula.names := by
  fun_induction toCtl? formula generalizing normal with
  | case1 name | case2 value =>
      obtain rfl := Option.some.inj hnormal
      simp [Ctl.names, names]
  | case3 a ih | case8 a ih | case9 a _ ih | case10 a ih | case12 a ih | case13 a _ ih
  | case14 a ih =>
      obtain ⟨left, hleft, hrest⟩ := Option.bind_eq_some_iff.1 hnormal
      obtain rfl := Option.some.inj hrest
      simpa [Ctl.names, names] using ih hleft
  | case4 a b iha ihb | case5 a b iha ihb | case6 a b iha ihb | case7 a b iha ihb
  | case11 a b _ iha ihb | case15 a b _ iha ihb =>
      obtain ⟨left, hleft, hrest⟩ := Option.bind_eq_some_iff.1 hnormal
      obtain ⟨right, hright, hrest⟩ := Option.bind_eq_some_iff.1 hrest
      obtain rfl := Option.some.inj hrest
      have ha := iha hleft
      have hb := ihb hright
      simp only [Ctl.names, Ctl.neverUntil, Ctl.names_negate, names, List.append_subset]
      simp [ha, hb]
  | case16 => cases hnormal

namespace CtlChecker

variable {graph : StateGraph} {checker : CtlChecker}

theorem run_bind {α β : Type} (first : Evaluation α) (next : α → Evaluation β) (memory : Memory) :
    (first >>= next).run memory =
      match first.run memory with
      | (.ok value, after) => (next value).run after
      | (.error error, after) => (.error error, after) := by
  simp only [ExceptT.run, bind, ExceptT.bind, ExceptT.mk, StateT.bind, ExceptT.bindCont]
  rcases first memory with ⟨_ | _, after⟩ <;> rfl

theorem run_remembered (formula : Ctl) (compute : Evaluation StateSet) (memory : Memory) :
    (remembered formula compute).run memory =
      match memory.lookup formula with
      | some set => (.ok set, memory)
      | none =>
        match compute.run memory with
        | (.ok set, after) => (.ok set, (formula, set) :: after)
        | (.error error, after) => (.error error, after) := by
  have hget : (get : Evaluation Memory).run memory = (.ok memory, memory) := rfl
  rw [remembered, run_bind, hget]
  dsimp only
  cases memory.lookup formula with
  | some set => rfl
  | none =>
      dsimp only
      rw [run_bind]
      rcases compute.run memory with ⟨_ | _, after⟩ <;> rfl

/-! ## Right answers -/

def Right (checker : CtlChecker) (graph : StateGraph) (formula : Ctl) (set : StateSet) : Prop :=
  set.Comprises graph.stateCount (formula.Holds (graph.system checker.labelOf))

def Remembers (checker : CtlChecker) (graph : StateGraph) (memory : Memory) : Prop :=
  ∀ formula set, (formula, set) ∈ memory → checker.Right graph formula set

/-- From right answers in memory comes a right one, and memory stays right in any case. Only an
unknown atom keeps an answer from coming. -/
def Answers (checker : CtlChecker) (graph : StateGraph) (formula : Ctl)
    (evaluation : Evaluation StateSet) : Prop :=
  ∀ memory, checker.Remembers graph memory →
    checker.Remembers graph (evaluation.run memory).2 ∧
      match (evaluation.run memory).1 with
      | .ok set => checker.Right graph formula set
      | .error _ => ∃ name ∈ formula.names, name ∉ graph.propositions

variable {formula a b : Ctl} {evaluation left right : Evaluation StateSet}

theorem mem_of_lookup {memory : Memory} {set : StateSet} (h : memory.lookup formula = some set) :
    (formula, set) ∈ memory := by
  obtain ⟨before, after, rfl, -⟩ := List.lookup_eq_some_iff.1 h
  simp

theorem Answers.remembered (hanswers : checker.Answers graph formula evaluation) :
    checker.Answers graph formula (remembered formula evaluation) := by
  intro memory hmemory
  rw [run_remembered]
  cases hlookup : memory.lookup formula with
  | some set => exact ⟨hmemory, hmemory formula set (mem_of_lookup hlookup)⟩
  | none =>
      obtain ⟨hkept, hanswer⟩ := hanswers memory hmemory
      generalize evaluation.run memory = outcome at hkept hanswer ⊢
      rcases outcome with ⟨error | set, after⟩
      · exact ⟨hkept, hanswer⟩
      · refine ⟨fun other found hfound => ?_, hanswer⟩
        rcases List.mem_cons.1 hfound with heq | hfound
        · obtain ⟨rfl, rfl⟩ := Prod.mk.inj heq
          exact hanswer
        · exact hkept other found hfound

theorem answers_pure {set : StateSet} (hright : checker.Right graph formula set) :
    checker.Answers graph formula (pure set) :=
  fun _ hmemory => ⟨hmemory, hright⟩

theorem Answers.map {change : StateSet → StateSet} (hleft : checker.Answers graph a left)
    (hnames : a.names = formula.names)
    (hchange : ∀ set, checker.Right graph a set → checker.Right graph formula (change set)) :
    checker.Answers graph formula (do return change (← left)) := by
  intro memory hmemory
  rw [run_bind]
  obtain ⟨hkept, hanswer⟩ := hleft memory hmemory
  generalize left.run memory = outcome at hkept hanswer ⊢
  rcases outcome with ⟨error | set, after⟩
  · exact ⟨hkept, hnames ▸ hanswer⟩
  · exact ⟨hkept, hchange set hanswer⟩

theorem Answers.map₂ {combine : StateSet → StateSet → StateSet}
    (hleft : checker.Answers graph a left) (hright : checker.Answers graph b right)
    (hnames : a.names ++ b.names = formula.names)
    (hcombine : ∀ first second, checker.Right graph a first → checker.Right graph b second →
      checker.Right graph formula (combine first second)) :
    checker.Answers graph formula (do
      let first ← left
      let second ← right
      return combine first second) := by
  intro memory hmemory
  rw [run_bind]
  obtain ⟨hkept, hfirst⟩ := hleft memory hmemory
  generalize left.run memory = outcome at hkept hfirst ⊢
  rcases outcome with ⟨error | first, between⟩
  · obtain ⟨name, hname, hunknown⟩ := hfirst
    exact ⟨hkept, name, hnames ▸ List.mem_append_left _ hname, hunknown⟩
  · dsimp only
    rw [run_bind]
    obtain ⟨hkept, hsecond⟩ := hright between hkept
    generalize right.run between = outcome at hkept hsecond ⊢
    rcases outcome with ⟨error | second, after⟩
    · obtain ⟨name, hname, hunknown⟩ := hsecond
      exact ⟨hkept, name, hnames ▸ List.mem_append_right _ hname, hunknown⟩
    · exact ⟨hkept, hcombine first second hfirst hsecond⟩

theorem Reads.answers_atom (hreads : checker.Reads graph) (name : String) :
    checker.Answers graph (.atom name) (evaluate.liftExcept (checker.atomStates name)) := by
  rw [atomStates, hreads.graph_eq]
  cases hposition : graph.propositions.idxOf? name with
  | none =>
      refine fun memory hmemory => ⟨hmemory, name, by simp [Ctl.names], ?_⟩
      exact List.idxOf?_eq_none_iff.1 hposition
  | some position =>
      refine answers_pure ((StateSet.comprises_ofTest _ _).congr fun state _ => ?_)
      simp [Ctl.Holds, StateGraph.system, hposition]

theorem Reads.answers (hreads : checker.Reads graph) (formula : Ctl) :
    checker.Answers graph formula (checker.evaluate formula) := by
  induction formula with
  | atom name => exact (hreads.answers_atom name).remembered
  | const value =>
      cases value with
      | false =>
          refine Answers.remembered (answers_pure ?_)
          rw [hreads.graph_eq]
          exact (StateSet.comprises_empty _).congr fun state _ => by simp [Ctl.Holds]
      | true =>
          refine Answers.remembered (answers_pure ?_)
          rw [hreads.graph_eq]
          exact (StateSet.comprises_full _).congr fun state _ => by simp [Ctl.Holds]
  | not a ih =>
      refine Answers.remembered (ih.map rfl fun set hset => ?_)
      exact hset.complement
  | and a b iha ihb =>
      refine Answers.remembered (iha.map₂ ihb rfl fun first second hfirst hsecond => ?_)
      exact hfirst.inter hsecond
  | or a b iha ihb =>
      refine Answers.remembered (iha.map₂ ihb rfl fun first second hfirst hsecond => ?_)
      exact hfirst.union hsecond
  | someNext a ih =>
      refine Answers.remembered (ih.map rfl fun set hset => ?_)
      exact hreads.comprises_before _ hset
  | someUntil a b iha ihb =>
      refine Answers.remembered (iha.map₂ ihb rfl fun hold goal hhold hgoal => ?_)
      exact hreads.comprises_untilStates _ hhold hgoal
  | someAlways a ih =>
      refine Answers.remembered (ih.map rfl fun hold hhold => ?_)
      exact hreads.comprises_alwaysStates _ hhold

/-! ## Any sequence of calls -/

inductive Call where
  | satisfying (formula : Formula)
  | check (formula : Formula)

/-- What a call leaves in memory, whether or not it has an answer. -/
def Call.memory (checker : CtlChecker) (memory : Memory) : Call → Memory
  | .satisfying formula => ((checker.satisfying formula).run memory).2
  | .check formula => ((checker.check formula).run memory).2

def memoryAfter (checker : CtlChecker) (calls : List Call) : Memory :=
  calls.foldl (Call.memory checker) []

theorem run_check (formula : Formula) (memory : Memory) :
    (checker.check formula).run memory =
      (((checker.satisfying formula).run memory).1.map fun set =>
        checker.graph.initial.all fun edge => set.contains edge.target,
        ((checker.satisfying formula).run memory).2) := by
  rw [check, run_bind]
  rcases (checker.satisfying formula).run memory with ⟨error | set, after⟩ <;> rfl

theorem Reads.remembers_satisfying (hreads : checker.Reads graph) (formula : Formula)
    {memory : Memory} (hmemory : checker.Remembers graph memory) :
    checker.Remembers graph ((checker.satisfying formula).run memory).2 := by
  rw [satisfying]
  cases formula.normalize with
  | error error => exact hmemory
  | ok normal => exact (hreads.answers normal memory hmemory).1

theorem Reads.remembers_memoryAfter (hreads : checker.Reads graph) (calls : List Call) :
    checker.Remembers graph (checker.memoryAfter calls) := by
  rw [memoryAfter]
  have hempty : checker.Remembers graph [] := fun _ _ h => by cases h
  generalize ([] : Memory) = memory at hempty
  induction calls generalizing memory with
  | nil => exact hempty
  | cons call calls ih =>
      refine ih _ ?_
      cases call with
      | satisfying formula => exact hreads.remembers_satisfying formula hempty
      | check formula =>
          rw [Call.memory, run_check]
          exact hreads.remembers_satisfying formula hempty

/-- Every graph whose edges lead to its states has a checker. After any calls, a CTL formula over
known atoms is answered by the set of the states that satisfy its normal form, and it is said to
hold iff every initial edge leads into that set. -/
theorem satisfying_exact (graph : StateGraph) (hrange : graph.InRange) :
    ∃ checker, create graph = .ok checker ∧
      ∀ (calls : List Call) (formula : Formula), formula.isCtl = true →
        (∀ name ∈ formula.names, name ∈ graph.propositions) →
          ∃ normal set, formula.normalize = .ok normal ∧
            ((checker.satisfying formula).run (checker.memoryAfter calls)).1 = .ok set ∧
            (∀ state, set.contains state = true ↔
              state < graph.stateCount ∧
                normal.Holds (graph.system checker.labelOf) state) ∧
            ∃ answer, ((checker.check formula).run (checker.memoryAfter calls)).1 = .ok answer ∧
              (answer = true ↔ ∀ edge ∈ graph.initial, set.contains edge.target = true) := by
  obtain ⟨checker, hcreate, hreads⟩ := create_succeeds hrange
  refine ⟨checker, hcreate, fun calls formula hctl hnames => ?_⟩
  obtain ⟨normal, hnormalizes⟩ := Formula.exists_normalizesTo.{0} hctl
  have hnormal := Formula.normalize_eq_ok.2 ⟨hctl, hnormalizes.rewrites⟩
  have hknown : ¬ ∃ name ∈ normal.names, name ∉ graph.propositions := by
    rintro ⟨name, hname, hunknown⟩
    exact hunknown (hnames name (Formula.names_of_toCtl? hnormalizes.rewrites hname))
  obtain ⟨-, hanswer⟩ := hreads.answers normal _ (hreads.remembers_memoryAfter calls)
  have hrun : checker.satisfying formula = checker.evaluate normal := by rw [satisfying, hnormal]
  rw [← hrun] at hanswer
  cases hresult : ((checker.satisfying formula).run (checker.memoryAfter calls)).1 with
  | error error =>
      rw [hresult] at hanswer
      exact absurd hanswer hknown
  | ok set =>
      rw [hresult] at hanswer
      refine ⟨normal, set, hnormal, rfl, hanswer.contains_iff,
        graph.initial.all fun edge => set.contains edge.target, ?_, List.all_eq_true⟩
      rw [run_check, hresult, hreads.graph_eq]
      rfl

/-- Two states that lead to each other, and a dead end, all of them lit. -/
def lamp : StateGraph :=
  .ofEdges ["on"] [[⟨1, .singleton 0⟩], [⟨0, .singleton 0⟩, ⟨2, .singleton 0⟩], []]
    [⟨0, .singleton 0⟩]

def staysOn : Formula := .somePath (.always (.atom "on"))

theorem satisfying_exact_lamp :
    lamp.InRange ∧ ∃ checker, create lamp = .ok checker ∧
      ∃ set, ((checker.satisfying staysOn).run (checker.memoryAfter
          [.satisfying (.and (.atom "on") (.atom "off")), .check staysOn])).1 = .ok set ∧
        ∀ state, set.contains state = true ↔ state < 3 ∧
          Ctl.Holds (lamp.system checker.labelOf) (.someAlways (.atom "on")) state := by
  have hrange : lamp.InRange := by
    refine ⟨by decide, fun state target htarget => ?_⟩
    have hlt : state < 3 := StateGraph.lt_of_successor htarget
    have hall : ∀ state < 3, ∀ target ∈ lamp.successors state, target < lamp.stateCount := by decide
    exact hall state hlt target htarget
  obtain ⟨checker, hcreate, hexact⟩ := satisfying_exact lamp hrange
  obtain ⟨normal, set, hnormal, hanswer, hset, -⟩ := hexact
    [.satisfying (.and (.atom "on") (.atom "off")), .check staysOn] staysOn (by decide) (by decide)
  obtain rfl : .someAlways (.atom "on") = normal := Except.ok.inj hnormal
  exact ⟨hrange, checker, hcreate, set, hanswer, hset⟩

end CtlChecker

end Hazard
