/-
  Monosecret.Lib.Descent — recursion that descends.

  A recursive computation is a functional, run with fuel. If what it calls is smaller than
  the state it was called on, the fuel does not matter once it exceeds the size of the state
  (`run_enough`): the computation never gets to the end of its fuel.
-/

import Mathlib.Tactic.Common

namespace Lib.Descent

universe u v

variable {σ : Type u} {ρ : Type v}

/-- `overflow` is what running out of fuel would give. -/
def run (step : (σ → ρ) → σ → ρ) (overflow : ρ) : Nat → σ → ρ
  | 0, _ => overflow
  | fuel + 1, s => step (run step overflow fuel) s

/-- A step depends on its calls at smaller states only. -/
def Descends (step : (σ → ρ) → σ → ρ) (size : σ → Nat) : Prop :=
  ∀ f g s, (∀ t, size t < size s → f t = g t) → step f s = step g s

variable {step : (σ → ρ) → σ → ρ} {size : σ → Nat}

theorem run_enough (h : Descends step size) (o overflow' : ρ) {f fuel' : Nat} {s : σ} (hf : size s < f)
    (hf' : size s < fuel') : run step o f s = run step overflow' fuel' s := by
  induction f generalizing fuel' s with
  | zero => omega
  | succ f ih =>
    cases fuel' with
    | zero => omega
    | succ fuel' => exact h _ _ s fun t ht => ih (by omega) (by omega)

/-- With enough fuel the run is a fixed point of its step. -/
theorem run_fixed (h : Descends step size) (o : ρ) {f : Nat} (hf : ∀ s, size s < f) (s : σ) :
    run step o f s = step (run step o f) s := by
  rw [run_enough h o o (hf s) (Nat.lt_succ_of_lt (hf s))]
  rfl

end Lib.Descent
