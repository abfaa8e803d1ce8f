import Hazard.Proofs.EdgeLabels
import Hazard.Proofs.StateFormulas
import Hazard.Proofs.UnknownAtoms
/-!
# Graphs that end early

A graph that ends early at a goal agrees with the graph of the whole model up to the first state
with the goal. Formulas that ask whether the goal is reached do not look further, so a checker gives
the same answers on both.
-/

namespace Hazard

open Relation Traversal

/-! ## Systems that agree up to a goal -/

namespace TransitionSystem

variable {σ τ : Type} {system : TransitionSystem σ} {other : TransitionSystem τ}
  {related : σ → τ → Prop} {hold goal : σ → Prop} {hold' goal' : τ → Prop} {state : σ} {state' : τ}

/-- Related states agree on the goal and, where it fails, on what they hold and where they lead. -/
structure AgreeUpTo (system : TransitionSystem σ) (other : TransitionSystem τ)
    (related : σ → τ → Prop) (hold goal : σ → Prop) (hold' goal' : τ → Prop) : Prop where
  goal_iff : ∀ {state state'}, related state state' → (goal state ↔ goal' state')
  hold_iff : ∀ {state state'}, related state state' → ¬goal state → (hold state ↔ hold' state')
  forth : ∀ {state state' after}, related state state' → ¬goal state → system.next state after →
    ∃ after', other.next state' after' ∧ related after after'
  back : ∀ {state state' after'}, related state state' → ¬goal state →
    other.next state' after' → ∃ after, system.next state after ∧ related after after'

theorem SomeUntil.transfer
    (hend : ∀ {state state'}, related state state' → goal state → goal' state')
    (hstep : ∀ {state state' after}, related state state' → ¬goal state → hold state →
      system.next state after →
        hold' state' ∧ ∃ after', other.next state' after' ∧ related after after')
    (hrelated : related state state') (huntil : system.SomeUntil hold goal state) :
    other.SomeUntil hold' goal' state' := by
  rw [someUntil_iff] at huntil ⊢
  obtain ⟨last, hpath, hgoal⟩ := huntil
  induction hpath using ReflTransGen.head_induction_on generalizing state' with
  | refl => exact ⟨state', .refl, hend hrelated hgoal⟩
  | @head before after hfirst _ ih =>
      by_cases hbefore : goal before
      · exact ⟨state', .refl, hend hrelated hbefore⟩
      · obtain ⟨hhold, after', hnext, hafter⟩ := hstep hrelated hbefore hfirst.1 hfirst.2
        obtain ⟨last', hpath', hgoal'⟩ := ih hafter
        exact ⟨last', .head ⟨hhold, hnext⟩ hpath', hgoal'⟩

namespace AgreeUpTo

theorem symm (h : AgreeUpTo system other related hold goal hold' goal') :
    AgreeUpTo other system (fun state' state => related state state') hold' goal' hold goal where
  goal_iff hrelated := (h.goal_iff hrelated).symm
  hold_iff hrelated hgoal := (h.hold_iff hrelated (mt (h.goal_iff hrelated).1 hgoal)).symm
  forth hrelated hgoal := h.back hrelated (mt (h.goal_iff hrelated).1 hgoal)
  back hrelated hgoal := h.forth hrelated (mt (h.goal_iff hrelated).1 hgoal)

theorem until_of_until (h : AgreeUpTo system other related hold goal hold' goal')
    (hrelated : related state state') (huntil : system.SomeUntil hold goal state) :
    other.SomeUntil hold' goal' state' := by
  refine huntil.transfer ?_ ?_ hrelated
  · intro last last' hboth hgoal
    exact (h.goal_iff hboth).1 hgoal
  · intro before before' after hboth hgoal hhold hnext
    exact ⟨(h.hold_iff hboth hgoal).1 hhold, h.forth hboth hgoal hnext⟩

/-- A way to a state that lacks both, through states without the goal, is one in both systems. -/
theorem blocked_of_blocked (h : AgreeUpTo system other related hold goal hold' goal')
    (hrelated : related state state')
    (huntil : system.SomeUntil (fun state => ¬goal state)
      (fun state => ¬hold state ∧ ¬goal state) state) :
    other.SomeUntil (fun state => ¬goal' state)
      (fun state => ¬hold' state ∧ ¬goal' state) state' := by
  refine huntil.transfer ?_ ?_ hrelated
  · rintro last last' hboth ⟨hhold, hgoal⟩
    exact ⟨mt (h.hold_iff hboth hgoal).2 hhold, mt (h.goal_iff hboth).2 hgoal⟩
  · intro before before' after hboth _ hgoal hnext
    exact ⟨mt (h.goal_iff hboth).2 hgoal, h.forth hboth hgoal hnext⟩

theorem always_of_always (h : AgreeUpTo system other related hold goal hold' goal')
    (hrelated : related state state')
    (halways : system.SomeAlways (fun state => ¬goal state) state) :
    other.SomeAlways (fun state => ¬goal' state) state' := by
  obtain ⟨path, rfl, hpath, havoids⟩ := halways
  refine someAlways_of_invariant (fun state' => ∃ i, related (path i) state') ⟨0, hrelated⟩ ?_ ?_
  · rintro before' ⟨i, hboth⟩
    exact mt (h.goal_iff hboth).2 (havoids i)
  · rintro before' ⟨i, hboth⟩
    obtain ⟨after', hnext, hafter⟩ := h.forth hboth (havoids i) (hpath i)
    exact ⟨after', hnext, i + 1, hafter⟩

variable (h : AgreeUpTo system other related hold goal hold' goal')
  (hrelated : related state state')

include h hrelated

theorem someUntil_iff :
    system.SomeUntil hold goal state ↔ other.SomeUntil hold' goal' state' :=
  ⟨h.until_of_until hrelated, h.symm.until_of_until hrelated⟩

theorem someEventually_iff :
    system.SomeUntil (fun _ => True) goal state ↔ other.SomeUntil (fun _ => True) goal' state' :=
  someUntil_iff { h with hold_iff := fun _ _ => Iff.rfl } hrelated

theorem blocked_iff :
    system.SomeUntil (fun state => ¬goal state) (fun state => ¬hold state ∧ ¬goal state) state ↔
      other.SomeUntil (fun state => ¬goal' state) (fun state => ¬hold' state ∧ ¬goal' state)
        state' :=
  ⟨h.blocked_of_blocked hrelated, h.symm.blocked_of_blocked hrelated⟩

theorem someAlways_iff :
    system.SomeAlways (fun state => ¬goal state) state ↔
      other.SomeAlways (fun state => ¬goal' state) state' :=
  ⟨h.always_of_always hrelated, h.symm.always_of_always hrelated⟩

end AgreeUpTo

end TransitionSystem

/-! ## Questions about a goal -/

namespace Formula

/-- Whether the goal is reached, on some path or on every path, be it through states that hold
something or through any states. -/
def reachQueries (hold goal : Formula) : List Formula :=
  [.somePath (.eventually goal none), .everyPath (.eventually goal none),
    .somePath (.until hold goal none), .everyPath (.until hold goal none)]

variable {hold goal : Formula}

theorem holdsAt_congr {σ τ : Type} {system : TransitionSystem σ} {other : TransitionSystem τ}
    {state : σ} {state' : τ} {formula : Formula} (hstate : formula.isStateFormula = true)
    (hatoms : ∀ name, system.holds state name ↔ other.holds state' name) :
    formula.HoldsAt system state ↔ formula.HoldsAt other state' := by
  induction formula with
  | atom name => simpa using hatoms name
  | const value => simp
  | not a ih => rw [HoldsAt, HoldsAt, ih hstate]
  | and a b iha ihb | or a b iha ihb | implies a b iha ihb | iff a b iha ihb =>
      obtain ⟨ha, hb⟩ := (Bool.and_eq_true_iff.1 hstate).imp iha ihb
      rw [HoldsAt, HoldsAt, ha, hb]
  | _ => cases hstate

theorem names_reachQueries {query : Formula} (hquery : query ∈ reachQueries hold goal) :
    query.names ⊆ hold.names ++ goal.names := by
  simp only [reachQueries, List.mem_cons, List.not_mem_nil, or_false] at hquery
  rcases hquery with rfl | rfl | rfl | rfl <;> simp [names]

theorem exists_normal_agree (hhold : hold.isStateFormula = true)
    (hgoal : goal.isStateFormula = true) {query : Formula}
    (hquery : query ∈ reachQueries hold goal) :
    ∃ normal, query.normalize = .ok normal ∧
      ∀ {σ τ : Type} {system : TransitionSystem σ} {other : TransitionSystem τ}
        {related : σ → τ → Prop},
        TransitionSystem.AgreeUpTo system other related (hold.HoldsAt system) (goal.HoldsAt system)
          (hold.HoldsAt other) (goal.HoldsAt other) →
        ∀ {state state'}, related state state' →
          (normal.Holds system state ↔ normal.Holds other state') := by
  obtain ⟨left, hleft⟩ := exists_stateNormal.{0} hhold
  obtain ⟨right, hright⟩ := exists_stateNormal.{0} hgoal
  simp only [reachQueries, List.mem_cons, List.not_mem_nil, or_false] at hquery
  have hmeans {σ : Type} (system : TransitionSystem σ) :
      left.Holds system = hold.HoldsAt system ∧ right.Holds system = goal.HoldsAt system :=
    ⟨funext fun state => propext (hleft.means system state),
      funext fun state => propext (hright.means system state)⟩
  rcases hquery with rfl | rfl | rfl | rfl
  · refine ⟨.someUntil (.const true) right,
      normalize_eq_ok.2 ⟨hright.isCtl, by simp [hright.rewrites]⟩, ?_⟩
    intro σ τ system other related h state state' hrelated
    simpa only [Ctl.Holds, hmeans] using h.someEventually_iff hrelated
  · refine ⟨(Ctl.someAlways right.negate).negate,
      normalize_eq_ok.2 ⟨hright.isCtl, by simp [hright.rewrites]⟩, ?_⟩
    intro σ τ system other related h state state' hrelated
    simpa only [Ctl.Holds, Ctl.holds_negate, hmeans] using not_congr (h.someAlways_iff hrelated)
  · refine ⟨.someUntil left right, normalize_eq_ok.2
      ⟨by simp [isCtl, hleft.isCtl, hright.isCtl], by simp [hleft.rewrites, hright.rewrites]⟩, ?_⟩
    intro σ τ system other related h state state' hrelated
    simpa only [Ctl.Holds, hmeans] using h.someUntil_iff hrelated
  · refine ⟨(Ctl.neverUntil left right).negate, normalize_eq_ok.2
      ⟨by simp [isCtl, hleft.isCtl, hright.isCtl], by simp [hleft.rewrites, hright.rewrites]⟩, ?_⟩
    intro σ τ system other related h state state' hrelated
    simp only [Ctl.holds_negate, Ctl.holds_neverUntil, hmeans]
    exact not_congr (or_congr (h.blocked_iff hrelated) (h.someAlways_iff hrelated))

end Formula

/-! ## Matching edges -/

theorem Scenario.Source.index_lt {vectors : Array Bytes} {origin : Origin} {source : Option Bytes}
    (h : Scenario.Source vectors origin source) : ∀ index ∈ origin, index < vectors.size := by
  rintro index ⟨⟩
  cases h with
  | state hindex => exact (Array.getElem?_eq_some_iff.1 hindex).1

variable {α : Type} [Scalar α]

/-- A state of the whole graph, what stands for it in the one that ends early, and their labels. -/
structure Paired (model : Model α) (condition : Predicate) (whole early : Array Bytes)
    (labelOf labelOf' : Nat → Label) (index other : Nat) (state : Bytes) : Prop where
  target : whole[index]? = some (regular :: state)
  other_target : early[other]? = some (standIn model condition state)
  label : labelOf index = model.label state
  test : condition.evaluate (labelOf' other) = condition.evaluate (model.label state)
  other_label : condition.evaluate (model.label state) = false → labelOf' other = model.label state

section Terminated

variable {model : Model α} {given : Option (List Activation)} {activations : List Activation}
  {hold goal : Formula} {condition : Predicate} {whole early : Array Bytes}
  {graph graph' : StateGraph} {checker checker' : CtlChecker}

omit [Scalar α] in
theorem traversalOptions_terminate
    (hcompile : Predicate.compile goal model.propositions = .ok condition) :
    model.traversalOptions ⟨given, some goal⟩ = .ok ⟨given, [terminateEarly condition]⟩ := by
  rw [Model.traversalOptions]
  dsimp only
  rw [hcompile]

/-- The stuttering state satisfies the condition: only edges to states that satisfy it enter it. -/
theorem Displays.evaluate_stutter (hnever : model.NeverStutters)
    (h : Displays ⟨model, activations, [terminateEarly condition]⟩ early graph' checker')
    {index : Nat} (hindex : early[index]? = some (⟨model, [], []⟩ : Scenario α).stutter) :
    condition.evaluate (checker'.labelOf index) = true := by
  obtain ⟨origin, edge, hfirst, hrank, hlabel⟩ := h.exists_first_redirected hindex
  obtain ⟨hedge, htarget⟩ := hfirst.mem
  obtain ⟨batch, hbatch, transition, htransition, rfl⟩ := h.depicts.exists_batch hedge
  rw [hlabel]
  cases hbatch with
  | stuttering hsame =>
      cases eq_of_getElem? h.nodup hsame hindex
      exact absurd hrank (lt_irrefl _)
  | offered _ hoffers hreports =>
      obtain ⟨proposed, hproposed, rfl⟩ := hoffers
      obtain ⟨candidate, hcandidate, hreport⟩ := Scenario.exists_related hreports.flip htransition
      have himage : image model candidate = (⟨model, [], []⟩ : Scenario α).stutter := by
        have hsame : transition.target = index := htarget
        rw [← hsame] at hindex
        exact Option.some.inj (hreport.target.symm.trans hindex)
      have hlabel : transition.edge.label = candidate.label := hreport.label
      rw [hlabel]
      exact evaluate_of_redirected hnever hproposed hcandidate himage

variable (hnever : model.NeverStutters)
  (hcompile : Predicate.compile goal model.propositions = .ok condition)
  (hwhole : Displays ⟨model, activations, []⟩ whole graph checker)
  (hearly : Displays ⟨model, activations, [terminateEarly condition]⟩ early graph' checker')

include hnever hcompile hwhole hearly

theorem paired_of_counterpart {origin other : Origin} {transition transition' : Transition α}
    {state : Bytes} (hedge : transition.edge ∈ graph.edgesFrom origin)
    (hedge' : transition'.edge ∈ graph'.edgesFrom other)
    (h : Counterpart model condition whole early transition transition' state) :
    Paired model condition whole early checker.labelOf checker'.labelOf transition.target
      transition'.target state := by
  have hother : condition.evaluate (model.label state) = false →
      checker'.labelOf transition'.target = model.label state := by
    intro hfails
    have htarget := h.other_target
    rw [standIn, hfails] at htarget
    have hparts : model.traversalOptions ⟨none, some goal⟩ =
        .ok ⟨none, [terminateEarly condition]⟩ := traversalOptions_terminate hcompile
    exact hearly.depicts.labelOf_regular hparts hearly.created hedge' htarget
  refine ⟨h.target, h.other_target, ?_, ?_, hother⟩
  · have hparts : model.traversalOptions {} = .ok {} := rfl
    exact hwhole.depicts.labelOf_regular hparts hwhole.created hedge h.target
  · cases hholds : condition.evaluate (model.label state) with
    | true =>
        have htarget := h.other_target
        rw [standIn, if_pos hholds] at htarget
        exact hearly.evaluate_stutter hnever htarget
    | false => rw [hother hholds, hholds]

theorem paired_edges {origin other : Origin} {source : Option Bytes}
    (hsource : Scenario.Source whole origin source) (hother : Scenario.Source early other source) :
    List.Forall₂ (fun edge edge' => ∃ state, Paired model condition whole early checker.labelOf
      checker'.labelOf edge.target edge'.target state)
      (graph.edgesFrom origin) (graph'.edgesFrom other) := by
  obtain ⟨batch, hbatch, hedges⟩ := hwhole.depicts.edges origin hsource.index_lt
  obtain ⟨batch', hbatch', hedges'⟩ := hearly.depicts.edges other hother.index_lt
  have hmatch := forall₂_with_mem (counterparts hnever hsource hother hbatch hbatch')
  rw [hedges, hedges', List.forall₂_map_left_iff, List.forall₂_map_right_iff]
  refine hmatch.imp ?_
  rintro transition transition' ⟨hmem, hmem', state, hcounterpart⟩
  have hedge : transition.edge ∈ graph.edgesFrom origin := hedges ▸ List.mem_map_of_mem hmem
  have hedge' : transition'.edge ∈ graph'.edgesFrom other := hedges' ▸ List.mem_map_of_mem hmem'
  exact ⟨state, paired_of_counterpart hnever hcompile hwhole hearly hedge hedge' hcounterpart⟩

theorem agreeUpTo_goal (hhold : hold.isStateFormula = true) :
    TransitionSystem.AgreeUpTo (graph.system checker.labelOf) (graph'.system checker'.labelOf)
      (fun index other => ∃ state, Paired model condition whole early checker.labelOf
        checker'.labelOf index other state)
      (hold.HoldsAt (graph.system checker.labelOf)) (goal.HoldsAt (graph.system checker.labelOf))
      (hold.HoldsAt (graph'.system checker'.labelOf))
      (goal.HoldsAt (graph'.system checker'.labelOf)) := by
  have hgoal := hwhole.depicts.holdsAt_iff_evaluate hcompile checker.labelOf
  have hgoal' := hearly.depicts.holdsAt_iff_evaluate hcompile checker'.labelOf
  have hedges {index other : Nat} {state : Bytes}
      (hpaired : Paired model condition whole early checker.labelOf checker'.labelOf index other
        state) (hfails : ¬goal.HoldsAt (graph.system checker.labelOf) index) :
      List.Forall₂ (fun edge edge' => ∃ state, Paired model condition whole early checker.labelOf
        checker'.labelOf edge.target edge'.target state)
        (graph.edgesFrom (some index)) (graph'.edgesFrom (some other)) := by
    rw [hgoal, hpaired.label] at hfails
    have htarget := hpaired.other_target
    rw [standIn, if_neg hfails] at htarget
    exact paired_edges hnever hcompile hwhole hearly (.state hpaired.target) (.state htarget)
  constructor
  · rintro index other ⟨state, hpaired⟩
    rw [hgoal, hgoal', hpaired.test, hpaired.label]
  · rintro index other ⟨state, hpaired⟩ hfails
    rw [hgoal, hpaired.label, Bool.not_eq_true] at hfails
    refine Formula.holdsAt_congr hhold fun name => ?_
    simp only [StateGraph.system, hwhole.depicts.propositions_eq, hearly.depicts.propositions_eq,
      hpaired.label, hpaired.other_label hfails]
  · rintro index other after ⟨state, hpaired⟩ hfails hnext
    obtain ⟨edge, hedge, rfl⟩ := List.mem_map.1 hnext
    obtain ⟨edge', hedge', hafter⟩ := Scenario.exists_related (hedges hpaired hfails) hedge
    exact ⟨edge'.target, List.mem_map_of_mem hedge', hafter⟩
  · rintro index other after ⟨state, hpaired⟩ hfails hnext
    obtain ⟨edge', hedge', rfl⟩ := List.mem_map.1 hnext
    obtain ⟨edge, hedge, hafter⟩ := Scenario.exists_related (hedges hpaired hfails).flip hedge'
    exact ⟨edge.target, List.mem_map_of_mem hedge, hafter⟩

theorem check_terminated (hhold : hold.isStateFormula = true) {query : Formula}
    (hquery : query ∈ Formula.reachQueries hold goal) (calls calls' : List CtlChecker.Call) :
    ((checker.check query).run (checker.memoryAfter calls)).1 =
      ((checker'.check query).run (checker'.memoryAfter calls')).1 := by
  have hgoal := (Predicate.stateOver_of_compile hcompile).isState
  obtain ⟨normal, hnormal, hagree⟩ := Formula.exists_normal_agree hhold hgoal hquery
  have hsame := agreeUpTo_goal hnever hcompile hwhole hearly hhold
  rw [hwhole.reads.check_eq calls hnormal, hearly.reads.check_eq calls' hnormal,
    hwhole.depicts.propositions_eq, hearly.depicts.propositions_eq]
  have hinitial := paired_edges hnever hcompile hwhole hearly .initial .initial
  have hiff : (∀ edge ∈ graph.initial, normal.Holds (graph.system checker.labelOf) edge.target) ↔
      ∀ edge ∈ graph'.initial, normal.Holds (graph'.system checker'.labelOf) edge.target :=
    forall_mem_congr (hinitial.imp fun _ _ hpaired => hagree hsame hpaired)
  exact congrArg (fun answer => Except.map (fun _ => answer) _) (decide_eq_decide.2 hiff)

omit hnever hearly in
theorem exists_answer_whole (hhold : hold.StateOver model.propositions) {query : Formula}
    (hquery : query ∈ Formula.reachQueries hold goal) (calls : List CtlChecker.Call) :
    ∃ answer, ((checker.check query).run (checker.memoryAfter calls)).1 = .ok answer := by
  have hgoal := Predicate.stateOver_of_compile hcompile
  obtain ⟨normal, hnormal, -⟩ :=
    Formula.exists_normal_agree hhold.isState hgoal.isState hquery
  have hknown : ∀ name ∈ normal.names, name ∈ graph.propositions := by
    intro name hname
    rw [hwhole.depicts.propositions_eq]
    have hquery := Formula.names_reachQueries hquery
      (Formula.names_of_toCtl? (Formula.normalize_eq_ok.1 hnormal).2 hname)
    rcases List.mem_append.1 hquery with hname | hname
    · exact hhold.known name hname
    · exact hgoal.known name hname
  rw [hwhole.reads.check_eq calls hnormal, CtlChecker.requireKnown_eq_ok.2 hknown]
  exact ⟨_, rfl⟩

end Terminated

end Hazard
