import Mathlib

/-!
# Transition systems

Reachability and the invariant rule, over any state type. A safety result about
every run is two obligations: the invariant holds initially, and one step keeps
it. A refinement carries what holds of every run of one system to another.
-/

namespace OpenstackBlueprint.Kit

/-- A transition system: where runs start, and what one step can do. -/
structure TSys (σ : Type*) where
  init : σ → Prop
  step : σ → σ → Prop

namespace TSys

variable {σ : Type*} {S : TSys σ}

/-- The states some run reaches. -/
inductive Reachable (S : TSys σ) : σ → Prop
  | init {s : σ} : S.init s → Reachable S s
  | step {s s' : σ} : Reachable S s → S.step s s' → Reachable S s'

/-- `P` holds in every state of every run. -/
def Invariant (S : TSys σ) (P : σ → Prop) : Prop :=
  ∀ s, S.Reachable s → P s

/-- `P` holds initially and one step keeps it. -/
structure Inductive (S : TSys σ) (P : σ → Prop) : Prop where
  init : ∀ s, S.init s → P s
  step : ∀ s s', P s → S.step s s' → P s'

theorem Inductive.invariant {P : σ → Prop} (h : S.Inductive P) : S.Invariant P := by
  intro s hs
  induction hs with
  | init hinit => exact h.init _ hinit
  | step _ hstep ih => exact h.step _ _ ih hstep

/-- Every run of `S`, seen through `abs`, is a run of `A` that may stand still. -/
structure Refines {τ : Type*} (S : TSys σ) (A : TSys τ) (abs : σ → τ) : Prop where
  init : ∀ s, S.init s → A.init (abs s)
  step : ∀ s s', S.Reachable s → S.step s s' → abs s' = abs s ∨ A.step (abs s) (abs s')

theorem Refines.reachable {τ : Type*} {A : TSys τ} {abs : σ → τ} (h : S.Refines A abs) {s : σ}
    (hs : S.Reachable s) : A.Reachable (abs s) := by
  induction hs with
  | init hinit => exact .init (h.init _ hinit)
  | step hreach hstep ih =>
    rcases h.step _ _ hreach hstep with hsame | hmove
    · rw [hsame]
      exact ih
    · exact .step ih hmove

end TSys

end OpenstackBlueprint.Kit
