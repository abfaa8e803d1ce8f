import Hazard.Proofs.CtlSemantics
import Mathlib.Data.Nat.Find
import Mathlib.Logic.Function.Iterate
import Mathlib.Tactic.Choose
import Mathlib.Tactic.Push
/-!
# The existential normal form keeps the meaning

Each rewriting step is a fact about the paths of a system in which every state has a successor.
The step for a universal until is the one with an argument: a path that fails it either avoids the
goal forever, or meets a state without both sides before the goal.
-/

namespace Hazard

universe u

namespace TransitionSystem

variable {σ : Type u} {system : TransitionSystem σ} {hold goal : σ → Prop} {state : σ}

/-! ## Infinite paths from finite ones -/

theorem Total.exists_path (htotal : system.Total) (state : σ) :
    ∃ path, path 0 = state ∧ system.IsPath path := by
  choose follow hfollow using htotal
  refine ⟨fun i => follow^[i] state, rfl, fun i => ?_⟩
  dsimp only
  rw [Function.iterate_succ_apply']
  exact hfollow _

theorem Total.exists_extension (htotal : system.Total) (start : Nat → σ) (length : Nat)
    (hstart : ∀ i < length, system.next (start i) (start (i + 1))) :
    ∃ path, system.IsPath path ∧ ∀ i ≤ length, path i = start i := by
  obtain ⟨rest, hrest, hpath⟩ := htotal.exists_path (start length)
  refine ⟨fun i => if i ≤ length then start i else rest (i - length), fun i => ?_, fun i hi => ?_⟩
  · rcases Nat.lt_trichotomy i length with hlt | rfl | hgt
    · simpa [Nat.le_of_lt hlt, Nat.succ_le_of_lt hlt] using hstart i hlt
    · simpa [hrest, Nat.not_succ_le_self] using hpath 0
    · have hsub : i + 1 - length = (i - length) + 1 := by omega
      simpa [Nat.not_le.2 hgt, Nat.not_le.2 (Nat.lt_succ_of_lt hgt), hsub] using hpath (i - length)
  · simp [hi]

/-! ## One law for each quantified operator -/

theorem exists_next_iff (htotal : system.Total) :
    (∃ path, path 0 = state ∧ system.IsPath path ∧ goal (path 1)) ↔
      system.SomeNext goal state := by
  constructor
  · rintro ⟨path, rfl, hpath, hgoal⟩
    exact ⟨path 1, hpath 0, hgoal⟩
  · rintro ⟨after, hnext, hgoal⟩
    obtain ⟨path, hpath, hagree⟩ := htotal.exists_extension
      (fun i => if i = 0 then state else after) 1
      (fun i hi => by simpa [Nat.lt_one_iff.1 hi] using hnext)
    refine ⟨path, hagree 0 (by omega), hpath, ?_⟩
    rw [hagree 1 (by omega)]
    exact hgoal

theorem exists_until_iff (htotal : system.Total) :
    (∃ path, path 0 = state ∧ system.IsPath path ∧
        ∃ i, goal (path i) ∧ ∀ j < i, hold (path j)) ↔ system.SomeUntil hold goal state := by
  constructor
  · rintro ⟨path, hstart, hpath, i, hgoal, hhold⟩
    exact ⟨path, i, hstart, fun j hj => ⟨hhold j hj, hpath j⟩, hgoal⟩
  · rintro ⟨start, length, rfl, hsteps, hgoal⟩
    obtain ⟨path, hpath, hagree⟩ := htotal.exists_extension start length fun i hi => (hsteps i hi).2
    refine ⟨path, hagree 0 (Nat.zero_le _), hpath, length, ?_, fun j hj => ?_⟩
    · rw [hagree length le_rfl]
      exact hgoal
    · rw [hagree j (Nat.le_of_lt hj)]
      exact (hsteps j hj).1

theorem exists_eventually_iff (htotal : system.Total) :
    (∃ path, path 0 = state ∧ system.IsPath path ∧ ∃ i, goal (path i)) ↔
      system.SomeUntil (fun _ => True) goal state := by
  rw [← exists_until_iff htotal]
  simp

theorem forall_next_iff (htotal : system.Total) :
    (∀ path, path 0 = state → system.IsPath path → goal (path 1)) ↔
      ¬ system.SomeNext (fun after => ¬ goal after) state := by
  rw [← exists_next_iff htotal]
  push Not
  rfl

theorem forall_eventually_iff :
    (∀ path, path 0 = state → system.IsPath path → ∃ i, goal (path i)) ↔
      ¬ system.SomeAlways (fun after => ¬ goal after) state := by
  rw [SomeAlways]
  push Not
  rfl

theorem forall_always_iff (htotal : system.Total) :
    (∀ path, path 0 = state → system.IsPath path → ∀ i, hold (path i)) ↔
      ¬ system.SomeUntil (fun _ => True) (fun after => ¬ hold after) state := by
  rw [← exists_eventually_iff htotal]
  push Not
  rfl

/-- The least position with the goal decides where a path that fails the until was blocked. -/
theorem blocked_or_avoids {path : Nat → σ}
    (hfails : ¬ ∃ i, goal (path i) ∧ ∀ j < i, hold (path j)) :
    (∃ i, (¬ hold (path i) ∧ ¬ goal (path i)) ∧ ∀ j < i, ¬ goal (path j)) ∨
      ∀ i, ¬ goal (path i) := by
  classical
  by_cases hgoal : ∃ i, goal (path i)
  · have hbefore : ∀ j < Nat.find hgoal, ¬ goal (path j) := fun j hj => Nat.find_min hgoal hj
    push Not at hfails
    obtain ⟨i, hi, hhold⟩ := hfails _ (Nat.find_spec hgoal)
    exact .inl ⟨i, ⟨hhold, hbefore i hi⟩, fun j hj => hbefore j (Nat.lt_trans hj hi)⟩
  · exact .inr fun i hi => hgoal ⟨i, hi⟩

theorem forall_until_iff (htotal : system.Total) :
    (∀ path, path 0 = state → system.IsPath path →
        ∃ i, goal (path i) ∧ ∀ j < i, hold (path j)) ↔
      ¬ (system.SomeUntil (fun after => ¬ goal after) (fun after => ¬ hold after ∧ ¬ goal after)
          state ∨ system.SomeAlways (fun after => ¬ goal after) state) := by
  rw [← exists_until_iff htotal]
  constructor
  · rintro hevery (⟨path, hstart, hpath, n, ⟨hhold, hgoal⟩, hbefore⟩ |
      ⟨path, hstart, hpath, havoids⟩)
    · obtain ⟨i, hi, hholds⟩ := hevery path hstart hpath
      rcases Nat.lt_trichotomy i n with hlt | rfl | hgt
      · exact hbefore i hlt hi
      · exact hgoal hi
      · exact hhold (hholds n hgt)
    · obtain ⟨i, hi, -⟩ := hevery path hstart hpath
      exact havoids i hi
  · intro hnever path hstart hpath
    by_contra hfails
    rcases blocked_or_avoids hfails with hblocked | havoids
    · exact hnever (.inl ⟨path, hstart, hpath, hblocked⟩)
    · exact hnever (.inr ⟨path, hstart, hpath, havoids⟩)

end TransitionSystem

/-! ## Negation -/

namespace Ctl

variable {σ : Type u} {system : TransitionSystem σ} {a b : Ctl} {state : σ}

@[simp]
def reduced : Ctl → Bool
  | .atom _ | .const _ => true
  | .not (.not _) | .not (.const _) => false
  | .not a | .someNext a | .someAlways a => a.reduced
  | .and a b | .or a b | .someUntil a b => a.reduced && b.reduced

@[simp]
theorem holds_negate : a.negate.Holds system = fun state => ¬ a.Holds system state := by
  funext state
  cases a <;> simp [negate]

theorem reduced_negate (hreduced : a.reduced = true) : a.negate.reduced = true := by
  cases a with
  | not body =>
      cases body with
      | not | const => cases hreduced
      | _ => exact hreduced
  | _ => exact hreduced

@[simp]
theorem holds_neverUntil :
    (neverUntil a b).Holds system state ↔
      system.SomeUntil (fun after => ¬ b.Holds system after)
          (fun after => ¬ a.Holds system after ∧ ¬ b.Holds system after) state ∨
        system.SomeAlways (fun after => ¬ b.Holds system after) state := by
  simp only [neverUntil, Holds, holds_negate]

theorem reduced_neverUntil (ha : a.reduced = true) (hb : b.reduced = true) :
    (neverUntil a b).reduced = true := by
  simp [neverUntil, reduced_negate ha, reduced_negate hb]

end Ctl

/-! ## Normalization -/

namespace Formula

variable {σ : Type u} {system : TransitionSystem σ} {a b formula : Formula} {path : Nat → σ}

theorem holdsAlong_eventually_none :
    (Formula.eventually a none).HoldsAlong system path ↔ ∃ i, a.HoldsAt system (path i) := by
  simp

theorem holdsAlong_until_none :
    (Formula.until a b none).HoldsAlong system path ↔
      ∃ i, b.HoldsAt system (path i) ∧ ∀ j < i, a.HoldsAt system (path j) := by
  simp

structure NormalizesTo (formula : Formula) (normal : Ctl) : Prop where
  rewrites : formula.toCtl? = some normal
  reduced : normal.reduced = true
  means : ∀ {σ : Type u} (system : TransitionSystem σ), system.Total →
    ∀ state, formula.HoldsAt system state ↔ normal.Holds system state

namespace NormalizesTo

variable {left right : Ctl}

theorem atom (name : String) : NormalizesTo.{u} (.atom name) (.atom name) :=
  ⟨rfl, rfl, fun _ _ _ => by rw [HoldsAt, Ctl.Holds]⟩

theorem const (value : Bool) : NormalizesTo.{u} (.const value) (.const value) :=
  ⟨rfl, rfl, fun _ _ _ => by rw [HoldsAt, Ctl.Holds]⟩

theorem not (ha : NormalizesTo.{u} a left) : NormalizesTo.{u} (.not a) left.negate := by
  refine ⟨by simp [ha.rewrites], Ctl.reduced_negate ha.reduced, ?_⟩
  intro σ system htotal state
  simp only [HoldsAt, Ctl.holds_negate, ha.means system htotal]

section

variable (ha : NormalizesTo.{u} a left) (hb : NormalizesTo.{u} b right)
include ha hb

theorem and : NormalizesTo.{u} (.and a b) (.and left right) := by
  refine ⟨by simp [ha.rewrites, hb.rewrites],
    by simp [ha.reduced, hb.reduced], fun system htotal state => ?_⟩
  simp only [HoldsAt, Ctl.Holds, ha.means system htotal, hb.means system htotal]

theorem or : NormalizesTo.{u} (.or a b) (.or left right) := by
  refine ⟨by simp [ha.rewrites, hb.rewrites],
    by simp [ha.reduced, hb.reduced], fun system htotal state => ?_⟩
  simp only [HoldsAt, Ctl.Holds, ha.means system htotal, hb.means system htotal]

theorem implies : NormalizesTo.{u} (.implies a b) (.or left.negate right) := by
  refine ⟨by simp [ha.rewrites, hb.rewrites],
    by simp [Ctl.reduced_negate ha.reduced, hb.reduced], fun system htotal state => ?_⟩
  simp only [HoldsAt, Ctl.Holds, Ctl.holds_negate, ha.means system htotal, hb.means system htotal]
  exact imp_iff_not_or

theorem iff : NormalizesTo.{u} (.iff a b)
    (.or (.and left right) (.and left.negate right.negate)) := by
  refine ⟨by simp [ha.rewrites, hb.rewrites],
    by simp [Ctl.reduced_negate, ha.reduced, hb.reduced],
    fun system htotal state => ?_⟩
  simp only [HoldsAt, Ctl.Holds, Ctl.holds_negate, ha.means system htotal, hb.means system htotal]
  exact iff_iff_and_or_not_and_not

theorem someUntil :
    NormalizesTo.{u} (.somePath (.until a b none)) (.someUntil left right) := by
  refine ⟨by simp [ha.rewrites, hb.rewrites],
    by simp [ha.reduced, hb.reduced], fun system htotal state => ?_⟩
  simp only [HoldsAt, holdsAlong_until_none, Ctl.Holds, ha.means system htotal,
    hb.means system htotal]
  exact TransitionSystem.exists_until_iff htotal

theorem everyUntil :
    NormalizesTo.{u} (.everyPath (.until a b none)) (Ctl.neverUntil left right).negate := by
  refine ⟨by simp [ha.rewrites, hb.rewrites],
    Ctl.reduced_negate (Ctl.reduced_neverUntil ha.reduced hb.reduced),
    fun system htotal state => ?_⟩
  simp only [HoldsAt, holdsAlong_until_none, Ctl.holds_negate, Ctl.holds_neverUntil,
    ha.means system htotal, hb.means system htotal]
  exact TransitionSystem.forall_until_iff htotal

end

section

variable (ha : NormalizesTo.{u} a left)
include ha

theorem someNext : NormalizesTo.{u} (.somePath (.next a)) (.someNext left) := by
  refine ⟨by simp [ha.rewrites], ha.reduced, fun system htotal state => ?_⟩
  simp only [HoldsAt, HoldsAlong, Ctl.Holds, ha.means system htotal]
  exact TransitionSystem.exists_next_iff htotal

theorem everyNext :
    NormalizesTo.{u} (.everyPath (.next a)) (Ctl.someNext left.negate).negate := by
  refine ⟨by simp [ha.rewrites],
    Ctl.reduced_negate (Ctl.reduced_negate ha.reduced :), fun system htotal state => ?_⟩
  simp only [HoldsAt, HoldsAlong, Ctl.Holds, Ctl.holds_negate, ha.means system htotal]
  exact TransitionSystem.forall_next_iff htotal

theorem someEventually :
    NormalizesTo.{u} (.somePath (.eventually a none)) (.someUntil (.const true) left) := by
  refine ⟨by simp [ha.rewrites], by simp [ha.reduced],
    fun system htotal state => ?_⟩
  simp only [HoldsAt, holdsAlong_eventually_none, Ctl.Holds, ha.means system htotal]
  exact TransitionSystem.exists_eventually_iff htotal

theorem everyEventually :
    NormalizesTo.{u} (.everyPath (.eventually a none)) (Ctl.someAlways left.negate).negate := by
  refine ⟨by simp [ha.rewrites],
    Ctl.reduced_negate (Ctl.reduced_negate ha.reduced :), fun system htotal state => ?_⟩
  simp only [HoldsAt, holdsAlong_eventually_none, Ctl.Holds, Ctl.holds_negate,
    ha.means system htotal]
  exact TransitionSystem.forall_eventually_iff

theorem someAlways : NormalizesTo.{u} (.somePath (.always a)) (.someAlways left) := by
  refine ⟨by simp [ha.rewrites], ha.reduced, fun system htotal state => ?_⟩
  simp only [HoldsAt, HoldsAlong, Ctl.Holds, ha.means system htotal]
  rfl

theorem everyAlways :
    NormalizesTo.{u} (.everyPath (.always a))
      (Ctl.someUntil (.const true) left.negate).negate := by
  refine ⟨by simp [ha.rewrites], Ctl.reduced_negate (Ctl.reduced_negate ha.reduced :),
    fun system htotal state => ?_⟩
  simp only [HoldsAt, HoldsAlong, Ctl.Holds, Ctl.holds_negate, ha.means system htotal]
  exact TransitionSystem.forall_always_iff htotal

end

end NormalizesTo

theorem exists_normalizesTo (hctl : formula.isCtl = true) :
    ∃ normal, NormalizesTo.{u} formula normal := by
  fun_induction isCtl formula with
  | case1 name => exact ⟨_, .atom name⟩
  | case2 value => exact ⟨_, .const value⟩
  | case3 a ih =>
      obtain ⟨left, ha⟩ := ih hctl
      exact ⟨_, ha.not⟩
  | case4 a b iha ihb =>
      obtain ⟨⟨left, ha⟩, right, hb⟩ := (Bool.and_eq_true_iff.1 hctl).imp iha ihb
      exact ⟨_, ha.and hb⟩
  | case5 a b iha ihb =>
      obtain ⟨⟨left, ha⟩, right, hb⟩ := (Bool.and_eq_true_iff.1 hctl).imp iha ihb
      exact ⟨_, ha.or hb⟩
  | case6 a b iha ihb =>
      obtain ⟨⟨left, ha⟩, right, hb⟩ := (Bool.and_eq_true_iff.1 hctl).imp iha ihb
      exact ⟨_, ha.implies hb⟩
  | case7 a b iha ihb =>
      obtain ⟨⟨left, ha⟩, right, hb⟩ := (Bool.and_eq_true_iff.1 hctl).imp iha ihb
      exact ⟨_, ha.iff hb⟩
  | case8 a ih =>
      obtain ⟨left, ha⟩ := ih hctl
      exact ⟨_, ha.someNext⟩
  | case9 a ih =>
      obtain ⟨left, ha⟩ := ih hctl
      exact ⟨_, ha.everyNext⟩
  | case10 a ih =>
      obtain ⟨left, ha⟩ := ih hctl
      exact ⟨_, ha.someEventually⟩
  | case11 a ih =>
      obtain ⟨left, ha⟩ := ih hctl
      exact ⟨_, ha.everyEventually⟩
  | case12 a ih =>
      obtain ⟨left, ha⟩ := ih hctl
      exact ⟨_, ha.someAlways⟩
  | case13 a ih =>
      obtain ⟨left, ha⟩ := ih hctl
      exact ⟨_, ha.everyAlways⟩
  | case14 a b iha ihb =>
      obtain ⟨⟨left, ha⟩, right, hb⟩ := (Bool.and_eq_true_iff.1 hctl).imp iha ihb
      exact ⟨_, ha.someUntil hb⟩
  | case15 a b iha ihb =>
      obtain ⟨⟨left, ha⟩, right, hb⟩ := (Bool.and_eq_true_iff.1 hctl).imp iha ihb
      exact ⟨_, ha.everyUntil hb⟩
  | case16 => cases hctl

theorem normalize_eq_ok {normal : Ctl} :
    formula.normalize = .ok normal ↔ formula.isCtl = true ∧ formula.toCtl? = some normal := by
  rw [normalize]
  split
  · next hctl hrewrites => simp [hctl, hrewrites]
  · next hother =>
      simp only [reduceCtorEq, false_iff]
      rintro ⟨hctl, hrewrites⟩
      exact hother normal hctl hrewrites

/-- Exactly the CTL formulas have a normal form. It is reduced and means the same wherever every
state has a successor. -/
theorem normalize_exact (formula : Formula) :
    ((∃ normal, formula.normalize = .ok normal) ↔ formula.isCtl = true) ∧
      ∀ normal, formula.normalize = .ok normal →
        normal.reduced = true ∧
          ∀ {σ : Type u} (system : TransitionSystem σ), system.Total →
            ∀ state, formula.HoldsAt system state ↔ normal.Holds system state := by
  refine ⟨⟨?_, fun hctl => ?_⟩, fun normal hok => ?_⟩
  · rintro ⟨normal, hok⟩
    exact (normalize_eq_ok.1 hok).1
  · obtain ⟨normal, hnormal⟩ := exists_normalizesTo.{u} hctl
    exact ⟨normal, normalize_eq_ok.2 ⟨hctl, hnormal.rewrites⟩⟩
  · obtain ⟨hctl, hrewrites⟩ := normalize_eq_ok.1 hok
    obtain ⟨other, hother⟩ := exists_normalizesTo hctl
    obtain rfl : normal = other := Option.some.inj (hrewrites.symm.trans hother.rewrites)
    exact ⟨hother.reduced, fun system htotal => hother.means system htotal⟩

def toggling : TransitionSystem Bool where
  next _ _ := True
  holds state name := name = "on" ∧ state = true

def offUntilReady : Formula :=
  .everyPath (.until (.not (.atom "on")) (.somePath (.next (.atom "on"))) none)

theorem normalize_exact_offUntilReady :
    ∃ normal, offUntilReady.normalize = .ok normal ∧ normal.reduced = true ∧ toggling.Total ∧
      (offUntilReady.HoldsAt toggling false ↔ normal.Holds toggling false) := by
  obtain ⟨normal, hok⟩ := (normalize_exact.{0} offUntilReady).1.2 (by decide)
  obtain ⟨hreduced, hmeans⟩ := (normalize_exact.{0} offUntilReady).2 normal hok
  have htotal : toggling.Total := fun state => ⟨state, trivial⟩
  exact ⟨normal, hok, hreduced, htotal, hmeans toggling htotal false⟩

end Formula

end Hazard
