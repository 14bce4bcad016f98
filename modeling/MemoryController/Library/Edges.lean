import Mathlib.Data.List.Basic
import Mathlib.Data.List.Infix

/-!
Histories over numbered clock edges: the edges before edge `n` at which a signal was
high, and the latest of them.
-/

set_option autoImplicit false

namespace Edges

/-- The edges below `n` at which `p` is high, in order. -/
def edges (p : Nat → Bool) (n : Nat) : List Nat := (List.range n).filter p

def latest (p : Nat → Bool) (n : Nat) : Option Nat := (edges p n).getLast?

/-- `p` seen `d` edges later; low on the first `d` edges. -/
def delay (d : Nat) (p : Nat → Bool) (k : Nat) : Bool := decide (d ≤ k) && p (k-d)

def history {α : Type} (f : Nat → Option α) (n : Nat) : List α := (List.range n).filterMap f

@[simp] theorem edges_zero (p : Nat → Bool) : edges p 0 = [] := rfl

theorem edges_succ (p : Nat → Bool) (n : Nat) :
    edges p (n+1) = edges p n ++ if p n then [n] else [] := by
  simp [edges,List.range_succ,List.filter_cons]

theorem edges_succ_of_high {p : Nat → Bool} {n : Nat} (h : p n = true) :
    edges p (n+1) = edges p n ++ [n] := by simp [edges_succ,h]

theorem edges_succ_of_low {p : Nat → Bool} {n : Nat} (h : p n = false) :
    edges p (n+1) = edges p n := by simp [edges_succ,h]

@[simp] theorem mem_edges {p : Nat → Bool} {n j : Nat} :
    j ∈ edges p n ↔ j < n ∧ p j = true := by simp [edges]

theorem edges_nodup (p : Nat → Bool) (n : Nat) : (edges p n).Nodup := List.nodup_range.filter _

theorem edges_eq_nil {p : Nat → Bool} {n : Nat} :
    edges p n = [] ↔ ∀ j, j < n → p j = false := by simp [edges]

theorem edges_congr {p q : Nat → Bool} {n : Nat} (h : ∀ j, j < n → p j = q j) :
    edges p n = edges q n := by
  apply List.filter_congr
  intro j hj
  exact h j (List.mem_range.mp hj)

theorem edges_initial (p : Nat → Bool) {m n : Nat} (h : m ≤ n) : edges p m <+: edges p n := by
  induction n, h using Nat.le_induction with
  | base => exact List.prefix_rfl
  | succ n _ ih =>
    rw [edges_succ]
    exact ih.trans (List.prefix_append _ _)

theorem edges_eq_of_low {p : Nat → Bool} {m n : Nat} (h : m ≤ n)
    (hl : ∀ j, m ≤ j → j < n → p j = false) : edges p n = edges p m := by
  induction n, h using Nat.le_induction with
  | base => rfl
  | succ n hmn ih =>
    rw [edges_succ_of_low (hl n hmn (Nat.lt_succ_self n))]
    exact ih (fun j hj hn => hl j hj (Nat.lt_succ_of_lt hn))

theorem edges_length_mono (p : Nat → Bool) {m n : Nat} (h : m ≤ n) :
    (edges p m).length ≤ (edges p n).length := (edges_initial p h).length_le

theorem edges_length_le_of_imp {p q : Nat → Bool} {n : Nat}
    (h : ∀ j, j < n → p j = true → q j = true) :
    (edges p n).length ≤ (edges q n).length := by
  induction n with
  | zero => simp
  | succ n ih =>
    have hn := ih (fun j hj => h j (Nat.lt_succ_of_lt hj))
    have hq := h n (Nat.lt_succ_self n)
    cases hp : p n with
    | false =>
      rw [edges_succ_of_low hp]
      exact Nat.le_trans hn (edges_length_mono q (Nat.le_succ n))
    | true =>
      rw [edges_succ_of_high hp,edges_succ_of_high (hq hp)]
      simpa using hn

theorem edges_getElem? {p : Nat → Bool} {j n : Nat} (hp : p j = true) (hj : j < n) :
    (edges p n)[(edges p j).length]? = some j := by
  obtain ⟨t,ht⟩ := edges_initial p (Nat.succ_le_of_lt hj)
  rw [← ht,Nat.succ_eq_add_one,edges_succ_of_high hp]
  simp

/-- If nothing of `q` is missing from `p` before the last edge of `p`, the history of `p`
is an initial part of that of `q`. -/
theorem edges_prefix_of_closed {p q : Nat → Bool} {n : Nat}
    (hpq : ∀ j, j < n → p j = true → q j = true)
    (hc : ∀ i j, i < j → j < n → q i = true → p j = true → p i = true) :
    edges p n <+: edges q n := by
  induction n with
  | zero => simp
  | succ n ih =>
    cases hp : p n with
    | false =>
      rw [edges_succ_of_low hp]
      have h := ih (fun j hj => hpq j (Nat.lt_succ_of_lt hj))
        (fun i j hij hj => hc i j hij (Nat.lt_succ_of_lt hj))
      exact h.trans (edges_initial q (Nat.le_succ n))
    | true =>
      have h : edges p n = edges q n := by
        apply edges_congr
        intro j hj
        cases hq : q j with
        | true => exact hc j n hj (Nat.lt_succ_self n) hq hp
        | false =>
          cases hpj : p j with
          | false => rfl
          | true => rw [hpq j (Nat.lt_succ_of_lt hj) hpj] at hq; cases hq
      rw [edges_succ_of_high hp,edges_succ_of_high (hpq n (Nat.lt_succ_self n) hp),h]

theorem delay_of_lt {d k : Nat} (p : Nat → Bool) (h : k < d) : delay d p k = false := by
  simp [delay,Nat.not_le.mpr h]

@[simp] theorem delay_add (d : Nat) (p : Nat → Bool) (k : Nat) : delay d p (k+d) = p k := by
  simp [delay]

theorem edges_delay (d : Nat) (p : Nat → Bool) (n : Nat) :
    edges (delay d p) n = (edges p (n-d)).map (· + d) := by
  induction n with
  | zero => simp
  | succ n ih =>
    by_cases h : d ≤ n
    · obtain ⟨m,rfl⟩ := Nat.exists_eq_add_of_le' h
      have hm : m+d+1-d = m+1 := by omega
      have hd : m+d-d = m := by omega
      rw [edges_succ,ih,delay_add,hm,hd,edges_succ,List.map_append]
      cases p m <;> simp
    · have hn : n+1-d = 0 := by omega
      have hd : n-d = 0 := by omega
      rw [edges_succ_of_low (delay_of_lt p (by omega)),ih,hn,hd]

@[simp] theorem history_zero {α : Type} (f : Nat → Option α) : history f 0 = [] := rfl

theorem history_succ {α : Type} (f : Nat → Option α) (n : Nat) :
    history f (n+1) = history f n ++ (f n).toList := by
  cases h : f n <;> simp [history,List.range_succ,h]

theorem history_eq_map {α : Type} {f : Nat → Option α} {p : Nat → Bool} {g : Nat → α}
    {n : Nat} (h : ∀ j, j < n → f j = if p j then some (g j) else none) :
    history f n = (edges p n).map g := by
  induction n with
  | zero => rfl
  | succ n ih =>
    rw [history_succ,ih (fun j hj => h j (Nat.lt_succ_of_lt hj)),edges_succ,
      h n (Nat.lt_succ_self n)]
    cases p n <;> simp

theorem latest_succ (p : Nat → Bool) (n : Nat) :
    latest p (n+1) = if p n then some n else latest p n := by
  cases h : p n <;> simp [latest,edges_succ,h]

@[simp] theorem latest_zero (p : Nat → Bool) : latest p 0 = none := rfl

theorem latest_congr {p q : Nat → Bool} {n : Nat} (h : ∀ j, j < n → p j = q j) :
    latest p n = latest q n := by rw [latest,latest,edges_congr h]

theorem latest_eq_none {p : Nat → Bool} {n : Nat} :
    latest p n = none ↔ ∀ j, j < n → p j = false := by
  simp [latest,edges]

theorem latest_eq_some {p : Nat → Bool} {n j : Nat} :
    latest p n = some j ↔ j < n ∧ p j = true ∧ ∀ i, j < i → i < n → p i = false := by
  induction n with
  | zero => simp
  | succ n ih =>
    rw [latest_succ]
    cases hp : p n with
    | true =>
      constructor
      · intro h
        simp only [if_true,Option.some.injEq] at h
        subst j
        exact ⟨Nat.lt_succ_self n,hp,fun i hi hn => by omega⟩
      · rintro ⟨hj,_,hl⟩
        have hjn : j = n := by
          by_contra hne
          rw [hl n (by omega) (Nat.lt_succ_self n)] at hp
          cases hp
        simp [hjn]
    | false =>
      simp only [Bool.false_eq_true,if_false,ih]
      constructor
      · rintro ⟨hj,hpj,hl⟩
        refine ⟨Nat.lt_succ_of_lt hj,hpj,fun i hi hn => ?_⟩
        rcases Nat.lt_succ_iff_lt_or_eq.mp hn with h | h
        · exact hl i hi h
        · rw [h]; exact hp
      · rintro ⟨hj,hpj,hl⟩
        have hne : j ≠ n := by
          intro h
          rw [h,hp] at hpj
          cases hpj
        exact ⟨by omega,hpj,fun i hi hn => hl i hi (Nat.lt_succ_of_lt hn)⟩

end Edges
