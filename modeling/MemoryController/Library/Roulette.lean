import Mathlib

/-!
A wheel with one sector for each weight. The draw is a position on the wheel, and every
sector is hit by as many of the draws as it is wide.
-/

set_option autoImplicit false

namespace Roulette

/-- The number of the sector that holds position `t`. -/
def sector : List Nat → Nat → Option Nat
  | [], _ => none
  | w :: ws, t => if t < w then some 0 else (sector ws (t-w)).map Nat.succ

theorem sector_eq_some_iff (ws : List Nat) (t i : Nat) : sector ws t = some i ↔
    i < ws.length ∧ (ws.take i).sum ≤ t ∧ t < (ws.take (i+1)).sum := by
  induction ws generalizing t i with
  | nil => simp [sector]
  | cons w ws ih =>
    unfold sector
    by_cases ht : t < w
    · cases i with
      | zero => simp [ht]
      | succ i =>
        simp only [ht,if_true,List.take_succ_cons,List.sum_cons,Option.some.injEq]
        omega
    · cases i with
      | zero => simp [ht]
      | succ i =>
        simp only [ht,if_false,Option.map_eq_some_iff,Nat.succ.injEq,exists_eq_right,ih,
          List.length_cons,List.take_succ_cons,List.sum_cons]
        omega

/-- Of all the draws, a sector takes exactly its weight. -/
theorem card_sector (ws : List Nat) {i : Nat} (hi : i < ws.length) :
    ((Finset.range ws.sum).filter (fun t => sector ws t = some i)).card = ws[i] := by
  have hs : (ws.take (i+1)).sum = (ws.take i).sum + ws[i] := by
    rw [List.take_succ_eq_append_getElem hi,List.sum_append,List.sum_singleton]
  have hle : (ws.take (i+1)).sum ≤ ws.sum := by
    conv => rhs; rw [← List.take_append_drop (i+1) ws]
    rw [List.sum_append]
    exact Nat.le_add_right _ _
  have he : (Finset.range ws.sum).filter (fun t => sector ws t = some i) =
      Finset.Ico (ws.take i).sum (ws.take (i+1)).sum := by
    ext t
    simp only [Finset.mem_filter,Finset.mem_range,Finset.mem_Ico,sector_eq_some_iff]
    constructor
    · intro h
      exact h.2.2
    · intro h
      exact ⟨by omega,hi,h⟩
  rw [he,Nat.card_Ico,hs]
  omega

end Roulette
