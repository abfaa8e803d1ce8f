import Hazard.Proofs.CtlEvaluation
import Hazard.Proofs.Predicate
/-!
# State formulas, compiled and normalized

A state formula over known propositions can be compiled. It can also be brought into normal form,
and as it speaks of a single state, the form means the same in every system, be it total or not.
What a checker says about the formula "always, on every path" is therefore whether all states that
can be reached satisfy it.
-/

namespace Hazard

structure Formula.StateOver (formula : Formula) (propositions : List String) : Prop where
  isState : formula.isStateFormula = true
  known : ∀ name ∈ formula.names, name ∈ propositions

theorem Formula.stateOver_operands {a b : Formula} {propositions : List String}
    (hstate : (a.isStateFormula && b.isStateFormula) = true)
    (hknown : ∀ name ∈ a.names ++ b.names, name ∈ propositions) :
    ∀ operand ∈ [a, b], operand.StateOver propositions := by
  obtain ⟨ha, hb⟩ := Bool.and_eq_true_iff.1 hstate
  obtain ⟨hleft, hright⟩ := List.forall_mem_append.1 hknown
  intro operand hoperand
  rcases List.mem_pair.1 hoperand with rfl | rfl
  · exact ⟨ha, hleft⟩
  · exact ⟨hb, hright⟩

/-! ## Compilation -/

namespace Predicate

variable {propositions : List String} {formula : Formula} {waiting operands : List Formula}
  {nodes : Array PredicateNode} {node : PredicateNode} {first : Nat}

theorem Renders.flatten_eq {rest : List Formula}
    (h : Renders propositions (nodes.size + rest.length + 1) formula node operands) :
    flatten propositions (formula :: rest) nodes =
      flatten propositions (rest ++ operands) (nodes.push node) := by
  cases h with
  | atom hname => simp only [flatten, hname, List.append_nil]
  | const value => rw [flatten, List.append_nil]
  | not | and | or | implies | iff => rw [flatten]

theorem exists_renders (h : formula.StateOver propositions) (first : Nat) :
    ∃ node operands, Renders propositions first formula node operands ∧
      ∀ operand ∈ operands, operand.StateOver propositions := by
  obtain ⟨hstate, hknown⟩ := h
  cases formula with
  | atom name =>
      have hname : name ∈ propositions := hknown name (by simp [Formula.names])
      cases hposition : propositions.idxOf? name with
      | none => exact absurd hname (List.idxOf?_eq_none_iff.1 hposition)
      | some position => exact ⟨_, [], .atom hposition, by simp⟩
  | const value => exact ⟨_, [], .const value, by simp⟩
  | not a => exact ⟨_, [a], .not a, by simpa using ⟨hstate, hknown⟩⟩
  | and a b => exact ⟨_, _, .and a b, Formula.stateOver_operands hstate hknown⟩
  | or a b => exact ⟨_, _, .or a b, Formula.stateOver_operands hstate hknown⟩
  | implies a b => exact ⟨_, _, .implies a b, Formula.stateOver_operands hstate hknown⟩
  | iff a b => exact ⟨_, _, .iff a b, Formula.stateOver_operands hstate hknown⟩
  | _ => cases hstate

theorem flatten_succeeds (hwaiting : ∀ formula ∈ waiting, formula.StateOver propositions) :
    ∃ result, flatten propositions waiting nodes = .ok result := by
  induction hweight : Formula.totalWeight waiting using Nat.strongRecOn
    generalizing waiting nodes with
  | ind weight ih =>
      cases waiting with
      | nil => exact ⟨nodes, by rw [flatten]⟩
      | cons formula rest =>
          obtain ⟨hformula, hrest⟩ := List.forall_mem_cons.1 hwaiting
          obtain ⟨node, operands, hrenders, hoperands⟩ :=
            exists_renders hformula (nodes.size + rest.length + 1)
          have hlt : Formula.totalWeight (rest ++ operands) < weight := by
            have := hrenders.weight_lt
            rw [← hweight, Formula.totalWeight_append, Formula.totalWeight]
            omega
          rw [hrenders.flatten_eq]
          exact ih _ hlt (List.forall_mem_append.2 ⟨hrest, hoperands⟩) rfl

theorem compile_succeeds (h : formula.StateOver propositions) :
    ∃ predicate, compile formula propositions = .ok predicate := by
  have hflatten : ∃ nodes, flatten propositions [formula] #[] = .ok nodes :=
    flatten_succeeds (by simpa using h)
  obtain ⟨nodes, hnodes⟩ := hflatten
  refine ⟨⟨nodes, formula⟩, ?_⟩
  rw [compile, if_pos h.isState, hnodes]
  rfl

theorem Renders.stateOver (h : Renders propositions first formula node operands)
    (hoperands : ∀ operand ∈ operands, operand.StateOver propositions) :
    formula.StateOver propositions := by
  cases h with
  | @atom name position hname =>
      refine ⟨rfl, fun other hother => ?_⟩
      obtain rfl := List.mem_singleton.1 hother
      by_contra hunknown
      rw [List.idxOf?_eq_none_iff.2 hunknown] at hname
      cases hname
  | const value => exact ⟨rfl, fun other hother => by cases hother⟩
  | not a =>
      obtain ⟨hstate, hknown⟩ := hoperands a (by simp)
      exact ⟨hstate, hknown⟩
  | and a b | or a b | implies a b | iff a b =>
      obtain ⟨ha, hknown⟩ := hoperands a (by simp)
      obtain ⟨hb, hknown'⟩ := hoperands b (by simp)
      exact ⟨Bool.and_eq_true_iff.2 ⟨ha, hb⟩, List.forall_mem_append.2 ⟨hknown, hknown'⟩⟩

theorem stateOver_of_compile {predicate : Predicate}
    (h : compile formula propositions = .ok predicate) : formula.StateOver propositions := by
  have hall : ∀ operand ∈ [formula], operand.StateOver propositions := by
    apply flatten_induction (motive := fun waiting _ =>
      ∀ operand ∈ waiting, operand.StateOver propositions) _ _ (compile_eq_ok h)
    · exact List.forall_mem_nil _
    · intro formula rest nodes node operands hrenders _ ih
      obtain ⟨hrest, hoperands⟩ := List.forall_mem_append.1 ih
      exact List.forall_mem_cons.2 ⟨hrenders.stateOver hoperands, hrest⟩
  exact hall formula (by simp)

end Predicate

/-! ## Normal form -/

namespace Formula

universe u

variable {formula a b : Formula}

structure StateNormal (formula : Formula) (normal : Ctl) : Prop where
  isCtl : formula.isCtl = true
  rewrites : formula.toCtl? = some normal
  means : ∀ {σ : Type u} (system : TransitionSystem σ) (state : σ),
    normal.Holds system state ↔ formula.HoldsAt system state

theorem exists_stateNormal (hstate : formula.isStateFormula = true) :
    ∃ normal, StateNormal.{u} formula normal := by
  induction formula with
  | atom name => exact ⟨.atom name, rfl, rfl, fun _ _ => by simp⟩
  | const value => exact ⟨.const value, rfl, rfl, fun _ _ => by simp⟩
  | not a ih =>
      obtain ⟨left, ha⟩ := ih hstate
      refine ⟨left.negate, ha.isCtl, by simp [ha.rewrites], fun system state => ?_⟩
      simp only [Ctl.holds_negate, HoldsAt, ha.means]
  | and a b iha ihb =>
      obtain ⟨⟨left, ha⟩, right, hb⟩ := (Bool.and_eq_true_iff.1 hstate).imp iha ihb
      refine ⟨.and left right, by simp [isCtl, ha.isCtl, hb.isCtl],
        by simp [ha.rewrites, hb.rewrites], fun system state => ?_⟩
      rw [Ctl.Holds, HoldsAt, ha.means, hb.means]
  | or a b iha ihb =>
      obtain ⟨⟨left, ha⟩, right, hb⟩ := (Bool.and_eq_true_iff.1 hstate).imp iha ihb
      refine ⟨.or left right, by simp [isCtl, ha.isCtl, hb.isCtl],
        by simp [ha.rewrites, hb.rewrites], fun system state => ?_⟩
      rw [Ctl.Holds, HoldsAt, ha.means, hb.means]
  | implies a b iha ihb =>
      obtain ⟨⟨left, ha⟩, right, hb⟩ := (Bool.and_eq_true_iff.1 hstate).imp iha ihb
      refine ⟨.or left.negate right, by simp [isCtl, ha.isCtl, hb.isCtl],
        by simp [ha.rewrites, hb.rewrites], fun system state => ?_⟩
      simp only [Ctl.Holds, HoldsAt, Ctl.holds_negate, ha.means, hb.means]
      exact imp_iff_not_or.symm
  | iff a b iha ihb =>
      obtain ⟨⟨left, ha⟩, right, hb⟩ := (Bool.and_eq_true_iff.1 hstate).imp iha ihb
      refine ⟨.or (.and left right) (.and left.negate right.negate),
        by simp [isCtl, ha.isCtl, hb.isCtl], by simp [ha.rewrites, hb.rewrites],
        fun system state => ?_⟩
      simp only [Ctl.Holds, HoldsAt, Ctl.holds_negate, ha.means, hb.means]
      exact iff_iff_and_or_not_and_not.symm
  | _ => cases hstate

end Formula

/-! ## Always, on every path -/

theorem StateGraph.describes_system (graph : StateGraph) (labelOf : Nat → Label) (state : Nat) :
    Predicate.Describes graph.propositions (labelOf state) (graph.system labelOf) state := by
  intro name position hname
  constructor
  · exact fun hcontains => ⟨position, hname, hcontains⟩
  · rintro ⟨other, hother, hcontains⟩
    cases hname.symm.trans hother
    exact hcontains

namespace CtlChecker

open Relation

variable {graph : StateGraph} {checker : CtlChecker} {invariant : Formula}

/-- With right answers in memory, a formula over known atoms is answered by the states that satisfy
its normal form. -/
theorem Reads.exists_answer (hreads : checker.Reads graph) {formula : Formula} {normal : Ctl}
    {memory : Memory} (hmemory : checker.Remembers graph memory)
    (hnormal : formula.normalize = .ok normal)
    (hknown : ∀ name ∈ normal.names, name ∈ graph.propositions) :
    ∃ set, checker.Right graph normal set ∧
      ((checker.check formula).run memory).1 =
        .ok (graph.initial.all fun edge => set.contains edge.target) := by
  obtain ⟨-, hanswer⟩ := hreads.answers normal memory hmemory
  rw [run_check, satisfying, hnormal, hreads.graph_eq]
  dsimp only
  cases hresult : ((checker.evaluate normal).run memory).1 with
  | error error =>
      rw [hresult] at hanswer
      obtain ⟨name, hname, hunknown⟩ := hanswer
      exact absurd (hknown name hname) hunknown
  | ok set =>
      rw [hresult] at hanswer
      exact ⟨set, hanswer, rfl⟩

/-- A checker says that a state formula always holds iff no path from an initial edge leads to a
state without it. -/
theorem Reads.check_always (hreads : checker.Reads graph)
    (hinvariant : invariant.StateOver graph.propositions) :
    ∃ answer, ((checker.check (.everyPath (.always invariant))).run []).1 = .ok answer ∧
      (answer = true ↔ ∀ edge ∈ graph.initial, ∀ last,
        ReflTransGen (graph.system checker.labelOf).next edge.target last →
          invariant.HoldsAt (graph.system checker.labelOf) last) := by
  obtain ⟨normal, hnormal⟩ := Formula.exists_stateNormal.{0} hinvariant.isState
  have hform : (Formula.everyPath (.always invariant)).normalize =
      .ok (Ctl.someUntil (.const true) normal.negate).negate := by
    rw [Formula.normalize_eq_ok]
    exact ⟨hnormal.isCtl, by simp [hnormal.rewrites]⟩
  have hknown : ∀ name ∈ (Ctl.someUntil (.const true) normal.negate).negate.names,
      name ∈ graph.propositions := by
    intro name hname
    simp only [Ctl.names_negate, Ctl.names, List.nil_append] at hname
    exact hinvariant.known name (Formula.names_of_toCtl? hnormal.rewrites hname)
  have hempty : checker.Remembers graph [] := fun _ _ h => by cases h
  obtain ⟨set, hset, hanswer⟩ := hreads.exists_answer hempty hform hknown
  refine ⟨_, hanswer, ?_⟩
  rw [List.all_eq_true]
  refine forall₂_congr fun edge hedge => ?_
  have hlt := hreads.inRange.initial_lt edge hedge
  rw [hset.contains_iff, and_iff_right hlt]
  simp only [Ctl.holds_negate, Ctl.Holds, TransitionSystem.someUntil_iff, hnormal.means,
    true_and, not_exists, not_and, not_not]

end CtlChecker

end Hazard
