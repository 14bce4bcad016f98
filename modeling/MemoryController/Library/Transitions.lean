import Mathlib.Data.List.Basic

/-!
Runs of a machine whose step may be disabled: `none` says that the action cannot be taken.
A run is a list of actions in the order in which they happen.
-/

set_option autoImplicit false

namespace Transitions

variable {σ α : Type} (step : σ → α → Option σ)

def exec (x : σ) : List α → Option σ
  | [] => some x
  | a :: as => (step x a).bind (fun y => exec y as)

theorem exec_cons_iff {x z : σ} {a : α} {as : List α} :
    exec step x (a :: as) = some z ↔ ∃ y, step x a = some y ∧ exec step y as = some z := by
  rw [exec,Option.bind_eq_some_iff]

/-- What every allowed action keeps, every run of allowed actions keeps. -/
theorem exec_invariant {P : σ → Prop} {A : α → Prop}
    (h : ∀ x a y, A a → step x a = some y → P x → P y) {x y : σ} {as : List α}
    (ha : ∀ a ∈ as, A a) (he : exec step x as = some y) (hx : P x) : P y := by
  induction as generalizing x with
  | nil =>
    cases he
    exact hx
  | cons a as ih =>
    obtain ⟨z,hz,he⟩ := (exec_cons_iff step).mp he
    exact ih (fun b hb => ha b (List.mem_cons_of_mem a hb)) he
      (h x a z (ha a List.mem_cons_self) hz hx)

/-- A reflexive and transitive relation between two states follows from its single steps. -/
theorem exec_relation {P : σ → Prop} {A : α → Prop} {R : σ → σ → Prop} (hr : ∀ x, R x x)
    (ht : ∀ x y z, R x y → R y z → R x z)
    (h : ∀ x a y, A a → step x a = some y → P x → P y ∧ R x y) {x y : σ} {as : List α}
    (ha : ∀ a ∈ as, A a) (he : exec step x as = some y) (hx : P x) : R x y := by
  induction as generalizing x with
  | nil =>
    obtain rfl : x = y := Option.some.inj he
    exact hr x
  | cons a as ih =>
    obtain ⟨z,hz,he⟩ := (exec_cons_iff step).mp he
    obtain ⟨hp,hxz⟩ := h x a z (ha a List.mem_cons_self) hz hx
    exact ht x z y hxz (ih (fun b hb => ha b (List.mem_cons_of_mem a hb)) he hp)

/-- A run in which every action meets a condition on the state that it is taken in. -/
def guarded (ok : σ → α → Prop) : σ → List α → σ → Prop
  | x, [], y => x = y
  | x, a :: as, y => ok x a ∧ ∃ z, step x a = some z ∧ guarded ok z as y

theorem guarded_mono {ok ok' : σ → α → Prop} (h : ∀ x a, ok x a → ok' x a) {x y : σ}
    {as : List α} (he : guarded step ok x as y) : guarded step ok' x as y := by
  induction as generalizing x with
  | nil => exact he
  | cons a as ih =>
    obtain ⟨ha,z,hz,hr⟩ := he
    exact ⟨h x a ha,z,hz,ih hr⟩

theorem guarded_and {ok : σ → α → Prop} {A : α → Prop} {x y : σ} {as : List α}
    (ha : ∀ a ∈ as, A a) (he : guarded step ok x as y) :
    guarded step (fun x a => ok x a ∧ A a) x as y := by
  induction as generalizing x with
  | nil => exact he
  | cons a as ih =>
    obtain ⟨hok,z,hz,hr⟩ := he
    exact ⟨⟨hok,ha a List.mem_cons_self⟩,z,hz,
      ih (fun b hb => ha b (List.mem_cons_of_mem a hb)) hr⟩

theorem guarded_append {ok : σ → α → Prop} {x y z : σ} {as bs : List α}
    (hx : guarded step ok x as y) (hy : guarded step ok y bs z) :
    guarded step ok x (as ++ bs) z := by
  induction as generalizing x with
  | nil =>
    cases hx
    exact hy
  | cons a as ih =>
    obtain ⟨ha,w,hw,hr⟩ := hx
    exact ⟨ha,w,hw,ih hr⟩

theorem guarded_invariant {P : σ → Prop} {ok : σ → α → Prop}
    (h : ∀ x a y, ok x a → step x a = some y → P x → P y) {x y : σ} {as : List α}
    (he : guarded step ok x as y) (hx : P x) : P y := by
  induction as generalizing x with
  | nil =>
    cases he
    exact hx
  | cons a as ih =>
    obtain ⟨ha,z,hz,hr⟩ := he
    exact ih hr (h x a z ha hz hx)

theorem guarded_relation {P : σ → Prop} {ok : σ → α → Prop} {R : σ → σ → Prop}
    (hr : ∀ x, R x x) (ht : ∀ x y z, R x y → R y z → R x z)
    (h : ∀ x a y, ok x a → step x a = some y → P x → P y ∧ R x y) {x y : σ} {as : List α}
    (he : guarded step ok x as y) (hx : P x) : R x y := by
  induction as generalizing x with
  | nil =>
    obtain rfl : x = y := he
    exact hr x
  | cons a as ih =>
    obtain ⟨ha,z,hz,hs⟩ := he
    obtain ⟨hp,hxz⟩ := h x a z ha hz hx
    exact ht x z y hxz (ih hs hp)

end Transitions
