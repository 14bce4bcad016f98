import MemoryController.Library.Clocked
import MemoryController.Library.SequentialMemory

/-!
A two-stage memory pipeline with reset. A request is captured at one edge and executed
at the next one; a reset drops what is captured and what is presented, clears the
outputs and leaves the memory alone. Only requests are kept between the two stages.
-/

set_option autoImplicit false

namespace PipelinedMemory
open Clocked Edges SequentialMemory

structure State (Addr Data : Type) where
  memory : Addr → Data
  rdata : Data
  ready : Bool
  pending : Option (Request Addr Data)

structure Input (Addr Data : Type) where
  rst : Bool
  request : Option (Request Addr Data)

section Stimulus

variable {Addr Data : Type} (ins : Nat → Input Addr Data)

def accepted (j : Nat) : Option (Request Addr Data) :=
  if (ins j).rst then none else (ins j).request

/-- The request presented at edge `j`, if the reset is low while it passes both stages. -/
def committed (j : Nat) : Option (Request Addr Data) :=
  if (ins (j+1)).rst then none else accepted ins j

def quiet (m n : Nat) : Bool :=
  (edges (fun j => (ins j).rst) n).all (fun e => decide (e < m))

/-- The edge of the read whose answer `rdata` still shows just after edge `k`. -/
def shownRead (k : Nat) : Option Nat :=
  latest (fun j => (committed ins j).any Request.isRead && quiet ins (j+2) (k+1)) k

theorem committed_of_rst {j : Nat} (h : (ins (j+1)).rst = true) : committed ins j = none := by
  simp [committed,h]

theorem quiet_succ_of_rst {m n : Nat} (h : (ins n).rst = true) :
    quiet ins m (n+1) = (quiet ins m n && decide (n < m)) := by
  simp [quiet,edges_succ,h]

theorem quiet_succ_of_not_rst {m n : Nat} (h : (ins n).rst = false) :
    quiet ins m (n+1) = quiet ins m n := by
  simp [quiet,edges_succ,h]

theorem quiet_of_le {m n : Nat} (h : n ≤ m) : quiet ins m n = true := by
  simp only [quiet,List.all_eq_true,decide_eq_true_eq]
  intro j hj
  exact Nat.lt_of_lt_of_le (mem_edges.mp hj).1 h

theorem shownRead_succ_of_rst {k : Nat} (h : (ins (k+1)).rst = true) :
    shownRead ins (k+1) = none := by
  rw [shownRead,latest_eq_none]
  intro j hj
  by_cases he : j = k
  · simp [he,committed_of_rst ins h]
  · have hn : ¬ k+1 < j+2 := by omega
    simp [quiet_succ_of_rst ins h,hn]

theorem shownRead_succ_of_not_rst {k : Nat} (h : (ins (k+1)).rst = false) :
    shownRead ins (k+1) =
      if (committed ins k).any Request.isRead then some k else shownRead ins k := by
  have hq : ∀ j, quiet ins (j+2) (k+2) = quiet ins (j+2) (k+1) :=
    fun j => quiet_succ_of_not_rst ins h
  have hk : quiet ins (k+2) (k+1) = true := quiet_of_le ins (Nat.le_succ (k+1))
  simp only [shownRead,latest_succ,hq,hk,Bool.and_true]

end Stimulus

variable {Addr Data : Type} [DecidableEq Addr] [Zero Data]

def answer (s : State Addr Data) : Data :=
  match s.pending with
  | some (.read a) => s.memory a
  | _ => s.rdata

def step (s : State Addr Data) (i : Input Addr Data) : State Addr Data :=
  if i.rst then ⟨s.memory,0,false,none⟩
  else ⟨execAll s.memory s.pending.toList,answer s,s.pending.isSome,i.request⟩

theorem step_of_rst {s : State Addr Data} {i : Input Addr Data} (h : i.rst = true) :
    step s i = ⟨s.memory,0,false,none⟩ := by simp [step,h]

theorem step_of_not_rst {s : State Addr Data} {i : Input Addr Data} (h : i.rst = false) :
    step s i = ⟨execAll s.memory s.pending.toList,answer s,s.pending.isSome,i.request⟩ := by
  simp [step,h]

section Runs

variable (s : State Addr Data) (ins : Nat → Input Addr Data)

theorem pending_succ (j : Nat) : (run step s ins (j+1)).pending = accepted ins j := by
  rw [run_succ]
  cases h : (ins j).rst with
  | true => simp [step_of_rst h,accepted,h]
  | false => simp [step_of_not_rst h,accepted,h]

theorem ready_succ_succ (j : Nat) :
    (run step s ins (j+2)).ready = (committed ins j).isSome := by
  rw [run_succ]
  cases h : (ins (j+1)).rst with
  | true => simp [step_of_rst h,committed,h]
  | false => simp [step_of_not_rst h,committed,h,pending_succ]

theorem memory_succ_succ (j : Nat) : (run step s ins (j+2)).memory =
    execAll (run step s ins (j+1)).memory (committed ins j).toList := by
  rw [run_succ step s ins (j+1)]
  cases h : (ins (j+1)).rst with
  | true => simp [step_of_rst h,committed,h]
  | false => simp [step_of_not_rst h,committed,h,pending_succ]

theorem rdata_succ_of_rst {j : Nat} (h : (ins j).rst = true) :
    (run step s ins (j+1)).rdata = 0 := by rw [run_succ,step_of_rst h]

theorem rdata_of_committed_read {j : Nat} {a : Addr}
    (h : committed ins j = some (.read a)) :
    (run step s ins (j+2)).rdata = (run step s ins (j+1)).memory a := by
  have hr : (ins (j+1)).rst = false := by
    cases hr : (ins (j+1)).rst with
    | true => simp [committed,hr] at h
    | false => rfl
  have hp : (run step s ins (j+1)).pending = some (.read a) := by
    rw [pending_succ]
    simpa [committed,hr] using h
  rw [run_succ step s ins (j+1),step_of_not_rst hr]
  simp [answer,hp]

theorem rdata_of_no_read {j : Nat} (hr : (ins (j+1)).rst = false)
    (h : ∀ a, committed ins j ≠ some (.read a)) :
    (run step s ins (j+2)).rdata = (run step s ins (j+1)).rdata := by
  have hp : (run step s ins (j+1)).pending = committed ins j := by
    simp [pending_succ,committed,hr]
  rw [run_succ step s ins (j+1),step_of_not_rst hr]
  simp only [answer,hp]

theorem memory_history (h0 : (ins 0).rst = true) (k : Nat) :
    (run step s ins (k+1)).memory = execAll s.memory (history (committed ins) k) := by
  induction k with
  | zero => simp [run_succ,step_of_rst h0]
  | succ k ih => rw [memory_succ_succ,ih,history_succ,execAll_append]

/-- `rdata` shows the answer of the latest committed read since the last reset. -/
theorem rdata_history (h0 : (ins 0).rst = true) (k : Nat) :
    match shownRead ins k with
    | none => (run step s ins (k+1)).rdata = 0
    | some j => ∃ a, committed ins j = some (.read a) ∧
        (run step s ins (k+1)).rdata = execAll s.memory (history (committed ins) j) a := by
  induction k with
  | zero => exact rdata_succ_of_rst s ins h0
  | succ k ih =>
    cases h : (ins (k+1)).rst with
    | true =>
      rw [shownRead_succ_of_rst ins h]
      exact rdata_succ_of_rst s ins h
    | false =>
      rw [shownRead_succ_of_not_rst ins h]
      cases hc : committed ins k with
      | none =>
        rw [rdata_of_no_read s ins h (by simp [hc])]
        exact ih
      | some r =>
        cases r with
        | write a d =>
          rw [rdata_of_no_read s ins h (by simp [hc])]
          exact ih
        | read a =>
          refine ⟨a,hc,?_⟩
          rw [rdata_of_committed_read s ins hc,memory_history s ins h0]

end Runs

end PipelinedMemory
