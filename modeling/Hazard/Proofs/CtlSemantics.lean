import Hazard.Formula.Ctl
/-!
# What CTL formulas mean

Formulas are read over a transition system with labelled states. Quantified formulas speak of
infinite paths; the existential normal form has its own reading, with finite witnesses where a
finite path is enough, so that it makes sense at states without a successor as well.
-/

namespace Hazard

universe u

structure TransitionSystem (σ : Type u) where
  next : σ → σ → Prop
  holds : σ → String → Prop

namespace TransitionSystem

variable {σ : Type u} (system : TransitionSystem σ)

def Total : Prop :=
  ∀ state, ∃ after, system.next state after

def IsPath (path : Nat → σ) : Prop :=
  ∀ i, system.next (path i) (path (i + 1))

def SomeNext (goal : σ → Prop) (state : σ) : Prop :=
  ∃ after, system.next state after ∧ goal after

/-- A finite path through states with `hold` ends in a state with `goal`. -/
def SomeUntil (hold goal : σ → Prop) (state : σ) : Prop :=
  ∃ (path : Nat → σ) (length : Nat), path 0 = state ∧
    (∀ i < length, hold (path i) ∧ system.next (path i) (path (i + 1))) ∧ goal (path length)

def SomeAlways (hold : σ → Prop) (state : σ) : Prop :=
  ∃ path, path 0 = state ∧ system.IsPath path ∧ ∀ i, hold (path i)

end TransitionSystem

variable {σ : Type u}

@[simp]
def Ctl.Holds (system : TransitionSystem σ) : Ctl → σ → Prop
  | .atom name, state => system.holds state name
  | .const value, _ => value = true
  | .not a, state => ¬ a.Holds system state
  | .and a b, state => a.Holds system state ∧ b.Holds system state
  | .or a b, state => a.Holds system state ∨ b.Holds system state
  | .someNext a, state => system.SomeNext (a.Holds system) state
  | .someUntil a b, state => system.SomeUntil (a.Holds system) (b.Holds system) state
  | .someAlways a, state => system.SomeAlways (a.Holds system) state

namespace Formula

mutual

/-- A temporal operator that no path quantifier binds holds nowhere, and so does a probability. -/
@[simp]
def HoldsAt (system : TransitionSystem σ) : Formula → σ → Prop
  | .atom name, state => system.holds state name
  | .const value, _ => value = true
  | .not a, state => ¬ a.HoldsAt system state
  | .and a b, state => a.HoldsAt system state ∧ b.HoldsAt system state
  | .or a b, state => a.HoldsAt system state ∨ b.HoldsAt system state
  | .implies a b, state => a.HoldsAt system state → b.HoldsAt system state
  | .iff a b, state => (a.HoldsAt system state ↔ b.HoldsAt system state)
  | .somePath a, state => ∃ path, path 0 = state ∧ system.IsPath path ∧ a.HoldsAlong system path
  | .everyPath a, state => ∀ path, path 0 = state → system.IsPath path → a.HoldsAlong system path
  | _, _ => False

/-- A formula that is not headed by a temporal operator holds along no path. -/
@[simp]
def HoldsAlong (system : TransitionSystem σ) : Formula → (Nat → σ) → Prop
  | .next a, path => a.HoldsAt system (path 1)
  | .eventually a bound, path => ∃ i, (∀ limit ∈ bound, i ≤ limit) ∧ a.HoldsAt system (path i)
  | .always a, path => ∀ i, a.HoldsAt system (path i)
  | .until a b bound, path =>
    ∃ i, (∀ limit ∈ bound, i ≤ limit) ∧ b.HoldsAt system (path i) ∧
      ∀ j < i, a.HoldsAt system (path j)
  | _, _ => False

end

end Formula

end Hazard
