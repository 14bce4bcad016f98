import Mathlib.Data.Nat.Init

/-!
Runs of a synchronous machine. The state number `k` is the one just before clock
edge `k`; edge `k` consumes input number `k`.
-/

set_option autoImplicit false

namespace Clocked

variable {σ τ ι κ : Type}

def run (step : σ → ι → σ) (s : σ) (ins : Nat → ι) : Nat → σ
  | 0 => s
  | k+1 => step (run step s ins k) (ins k)

@[simp] theorem run_zero (step : σ → ι → σ) (s : σ) (ins : Nat → ι) :
    run step s ins 0 = s := rfl

theorem run_succ (step : σ → ι → σ) (s : σ) (ins : Nat → ι) (k : Nat) :
    run step s ins (k+1) = step (run step s ins k) (ins k) := rfl

theorem run_related (step : σ → ι → σ) (step' : τ → κ → τ) (s : σ) (t : τ)
    (ins : Nat → ι) (ins' : Nat → κ) (R : σ → τ → Prop) (m : Nat)
    (h0 : R (run step s ins m) (run step' t ins' m))
    (hs : ∀ k a b, m ≤ k → R a b → R (step a (ins k)) (step' b (ins' k)))
    (k : Nat) (hk : m ≤ k) : R (run step s ins k) (run step' t ins' k) := by
  induction k, hk using Nat.le_induction with
  | base => exact h0
  | succ k hk ih => exact hs k _ _ hk ih

/-- A projection that commutes with one step commutes with every run. -/
theorem run_project (step : σ → ι → σ) (step' : τ → κ → τ) (f : σ → τ) (g : ι → κ)
    (h : ∀ s i, f (step s i) = step' (f s) (g i)) (s : σ) (ins : Nat → ι) (k : Nat) :
    f (run step s ins k) = run step' (f s) (fun j => g (ins j)) k := by
  induction k with
  | zero => rfl
  | succ k ih => rw [run_succ,run_succ,h,ih]

end Clocked
