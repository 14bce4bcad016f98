import Mathlib.Data.Nat.SuccPred
import Mathlib.Data.Set.Function
import Mathlib.Order.Monotone.Defs
import MemoryController.Dut

/-! The module `memory_assertions`, and the completion protocol of the DUT. -/

set_option autoImplicit false

namespace MemoryController
open Edges

/-- The attempt of `valid |-> ##2 ready` that starts at edge `j` fails. It is disabled by
`rst` at any of its three edges. `disable iff` is asynchronous, but `rst` is taken here at
its sampled values, which miss a pulse between two edges only. -/
def validImpliesReadyFails (rst valid ready : Nat → Bool) (j : Nat) : Bool :=
  valid j && !(rst j || rst (j+1) || rst (j+2)) && !ready (j+2)

def rstAt (ins : Nat → Pins) (k : Nat) : Bool := (ins k).rst

def readyAt (s : Regs) (ins : Nat → Pins) (k : Nat) : Bool := (dutAt s ins k).ready

/-- `ready` sampled after the first edge. -/
def pulse (s : Regs) (ins : Nat → Pins) (k : Nat) : Bool := decide (k ≠ 0) && readyAt s ins k

def killed (ins : Nat → Pins) (j : Nat) : Bool := accepted ins j && rstAt ins (j+1)

/-- After edge `k`: captured, and neither completed by a `ready` two edges later nor reset
one edge later. -/
def outstanding (s : Regs) (ins : Nat → Pins) (k : Nat) : List Nat :=
  (List.range (k+1)).filter (fun j => accepted ins j &&
    !(decide (j+2 ≤ k) && readyAt s ins (j+2)) && !(decide (j+1 ≤ k) && rstAt ins (j+1)))

def withRst (ins : Nat → Pins) (r : Nat) (b : Bool) : Nat → Pins :=
  Function.update ins r { ins r with rst := b }

theorem accepted_eq (ins : Nat → Pins) (j : Nat) :
    accepted ins j = (committed ins j || killed ins j) := by
  cases ha : accepted ins j <;> cases hr : (ins (j+1)).rst <;>
    simp [committed,killed,rstAt,ha,hr]

theorem pulse_eq_delay (s : Regs) (ins : ResetTrace) (k : Nat) :
    pulse s ins.pins k = delay 2 (committed ins.pins) k := by
  by_cases hk : k = 0
  · subst hk
    rfl
  · simp [pulse,readyAt,hk,ready_eq_delay s ins.pins ins.rst_zero k hk]

theorem ready_iff (s : Regs) (ins : ResetTrace) (k : Nat) (hk : 1 ≤ k) :
    (dutAt s ins.pins k).ready = true ↔ 3 ≤ k ∧ (ins.pins (k-2)).valid = true ∧
      (ins.pins (k-2)).rst = false ∧ (ins.pins (k-1)).rst = false := by
  rw [ready_eq_delay s ins.pins ins.rst_zero k (by omega)]
  match k with
  | 0 => omega
  | 1 => simp [delay]
  | 2 => simp [delay,committed_zero]
  | j+3 => simp [delay,committed,accepted,and_assoc]

theorem completion_bijOn (s : Regs) (ins : ResetTrace) :
    Set.BijOn (· + 2) {j | accepted ins.pins j = true ∧ killed ins.pins j = false}
      {k | 1 ≤ k ∧ (dutAt s ins.pins k).ready = true} := by
  refine ⟨?_,fun i _ j _ h => Nat.add_right_cancel h,?_⟩
  · rintro j ⟨ha,hk⟩
    change 1 ≤ j+2 ∧ (dutAt s ins.pins (j+2)).ready = true
    rw [accepted_eq,hk,Bool.or_false] at ha
    rw [ready_succ_succ,ha]
    exact ⟨by omega,rfl⟩
  · rintro k ⟨hk,hr⟩
    rw [ready_eq_delay s ins.pins ins.rst_zero k (by omega)] at hr
    match k with
    | 0 => omega
    | 1 => simp [delay] at hr
    | j+2 =>
      rw [delay_add] at hr
      refine ⟨j,⟨?_,?_⟩,rfl⟩
      · rw [accepted_eq,hr,Bool.true_or]
      · simp only [committed,Bool.and_eq_true,Bool.not_eq_true'] at hr
        simp [killed,rstAt,hr.2]

theorem ready_withRst (s : Regs) (ins : Nat → Pins) {r j : Nat} (b : Bool)
    (h : r ≠ j) (h' : r ≠ j+1) :
    (dutAt s (withRst ins r b) (j+2)).ready = (dutAt s ins (j+2)).ready := by
  have hj : withRst ins r b j = ins j := Function.update_of_ne (Ne.symm h) _ _
  have hs : withRst ins r b (j+1) = ins (j+1) := Function.update_of_ne (Ne.symm h') _ _
  simp only [ready_succ_succ,committed,accepted,hj,hs]

theorem ready_low_iff_reset (s : Regs) (ins : Nat → Pins) {j : Nat}
    (hv : (ins j).valid = true) : (dutAt s ins (j+2)).ready = false ↔
      (ins j).rst = true ∨ (ins (j+1)).rst = true := by
  rw [ready_succ_succ]
  cases hr : (ins j).rst <;> cases hr' : (ins (j+1)).rst <;>
    simp [committed,accepted,hv,hr,hr']

theorem outstanding_zero (s : Regs) (ins : Nat → Pins) :
    outstanding s ins 0 = if accepted ins 0 then [0] else [] := by
  cases h : accepted ins 0 <;> simp [outstanding,h]

/-- Only the requests of the last two edges can be outstanding. -/
theorem outstanding_succ (s : Regs) (ins : Nat → Pins) (k : Nat) :
    outstanding s ins (k+1) = (if committed ins k then [k] else []) ++
      if accepted ins (k+1) then [k+1] else [] := by
  have hc : ∀ j, readyAt s ins (j+2) = committed ins j := ready_succ_succ s ins
  have hold : (List.range k).filter (fun j => accepted ins j &&
      !(decide (j+2 ≤ k+1) && readyAt s ins (j+2)) &&
      !(decide (j+1 ≤ k+1) && rstAt ins (j+1))) = [] := by
    rw [List.filter_eq_nil_iff]
    intro j hj
    have hlt := List.mem_range.mp hj
    have h2 : j+2 ≤ k+1 := by omega
    have h1 : j+1 ≤ k+1 := by omega
    cases ha : accepted ins j <;> cases hr : (ins (j+1)).rst <;>
      simp [hc,h1,h2,committed,rstAt,ha,hr]
  rw [outstanding,List.range_succ,List.range_succ,List.filter_append,List.filter_append,hold]
  cases ha : accepted ins k <;> cases hr : (ins (k+1)).rst <;>
    cases hb : accepted ins (k+1) <;> simp [committed,rstAt,ha,hr,hb]

theorem outstanding_length_le (s : Regs) (ins : Nat → Pins) (k : Nat) :
    (outstanding s ins k).length ≤ 2 := by
  cases k with
  | zero => rw [outstanding_zero]; split <;> simp
  | succ k => rw [outstanding_succ]; split <;> split <;> simp

theorem accepted_count (ins : Nat → Pins) (n : Nat) : (edges (accepted ins) n).length =
    (edges (committed ins) n).length + (edges (killed ins) n).length := by
  induction n with
  | zero => rfl
  | succ n ih =>
    cases ha : accepted ins n <;> cases hr : (ins (n+1)).rst <;>
      simp [edges_succ,committed,killed,rstAt,ha,hr,ih] <;> omega

theorem pulse_count (s : Regs) (ins : ResetTrace) (n : Nat) :
    (edges (pulse s ins.pins) n).length = (edges (committed ins.pins) (n-2)).length := by
  rw [edges_congr (fun k _ => pulse_eq_delay s ins k),edges_delay,List.length_map]

theorem accepted_balance (s : Regs) (ins : ResetTrace) (k : Nat) :
    (edges (accepted ins.pins) (k+1)).length =
      (edges (pulse s ins.pins) (k+1)).length + (edges (killed ins.pins) k).length +
        (outstanding s ins.pins k).length := by
  rw [pulse_count]
  cases k with
  | zero => simp [outstanding_zero,accepted,ins.rst_zero,edges_succ]
  | succ k =>
    have ha := accepted_count ins.pins k
    have hk : k+1+1-2 = k := by omega
    rw [outstanding_succ,hk]
    cases hc : accepted ins.pins k <;> cases hr : (ins.pins (k+1)).rst <;>
      cases hb : accepted ins.pins (k+1) <;>
      simp [edges_succ,committed,killed,rstAt,hc,hr,hb,ha] <;> omega

theorem assertion_never_fails (s : Regs) (ins : Nat → Pins) (j : Nat) :
    validImpliesReadyFails (rstAt ins) (presented ins) (readyAt s ins) j = false := by
  have hc : readyAt s ins (j+2) = committed ins j := ready_succ_succ s ins j
  cases hv : (ins j).valid <;> cases hr : (ins j).rst <;> cases hr' : (ins (j+1)).rst <;>
    simp [validImpliesReadyFails,rstAt,presented,hc,committed,accepted,hv,hr,hr']

theorem completion_protocol (s : Regs) (ins : ResetTrace) :
    (∀ k, 1 ≤ k → ((dutAt s ins.pins k).ready = true ↔ 3 ≤ k ∧
      (ins.pins (k-2)).valid = true ∧ (ins.pins (k-2)).rst = false ∧
      (ins.pins (k-1)).rst = false)) ∧
    (StrictMono (fun j : Nat => j+2) ∧
      Set.BijOn (fun j => j+2) {j | accepted ins.pins j = true ∧ killed ins.pins j = false}
        {k | 1 ≤ k ∧ (dutAt s ins.pins k).ready = true}) ∧
    (∀ j, (ins.pins j).valid = true → ((dutAt s ins.pins (j+2)).ready = false ↔
      (ins.pins j).rst = true ∨ (ins.pins (j+1)).rst = true)) ∧
    (∀ r j b, r ≠ j → r ≠ j+1 →
      (dutAt s (withRst ins.pins r b) (j+2)).ready = (dutAt s ins.pins (j+2)).ready) ∧
    (∀ k, (edges (accepted ins.pins) (k+1)).length =
        (edges (pulse s ins.pins) (k+1)).length + (edges (killed ins.pins) k).length +
          (outstanding s ins.pins k).length ∧
      (outstanding s ins.pins k).length ≤ 2) ∧
    (∀ j, validImpliesReadyFails (rstAt ins.pins) (presented ins.pins)
      (readyAt s ins.pins) j = false) := by
  refine ⟨ready_iff s ins,⟨?_,completion_bijOn s ins⟩,?_,?_,?_,?_⟩
  · exact fun _ _ h => Nat.add_lt_add_right h 2
  · exact fun j hv => ready_low_iff_reset s ins.pins hv
  · exact fun r j b h h' => ready_withRst s ins.pins b h h'
  · exact fun k => ⟨accepted_balance s ins k,outstanding_length_le s ins.pins k⟩
  · exact assertion_never_fails s ins.pins

end MemoryController
