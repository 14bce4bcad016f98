import MemoryController.Dut

/-! The DUT refines a sequential memory, whatever the requests and resets are. -/

set_option autoImplicit false

namespace MemoryController
open Clocked Edges SequentialMemory

def committedWrite (ins : Nat → Pins) (a : Addr) (j : Nat) : Bool :=
  committed ins j && (ins j).write && (ins j).addr == a

def committedRead (ins : Nat → Pins) (j : Nat) : Bool := committed ins j && !(ins j).write

def quiet (ins : Nat → Pins) (m n : Nat) : Bool :=
  (edges (fun e => (ins e).rst) n).all (fun e => decide (e < m))

/-- The data of the latest committed write to `a` presented before edge `n`. -/
def written (ins : Nat → Pins) (a : Addr) (n : Nat) : Word :=
  ((latest (committedWrite ins a) n).map (fun j => (ins j).wdata)).getD 0

theorem datum_committed (ins : Nat → Pins) (a : Addr) (j : Nat) :
    (PipelinedMemory.committed (fun i => (ins i).input) j).bind (Request.datum a) =
      if committedWrite ins a j then some (ins j).wdata else none := by
  rw [committed_input]
  cases hc : committed ins j <;> cases hw : (ins j).write <;>
    simp [committedWrite,requestAt,request,Request.datum,hc,hw]

theorem lastWrite_commits (ins : Nat → Pins) (a : Addr) (n : Nat) :
    lastWrite (commits ins n) a =
      (latest (committedWrite ins a) n).map (fun j => (ins j).wdata) := by
  have hl : latest (fun j => ((PipelinedMemory.committed (fun i => (ins i).input) j).bind
      (Request.datum a)).isSome) n = latest (committedWrite ins a) n := by
    apply latest_congr
    intro j _
    rw [datum_committed]
    cases committedWrite ins a j <;> rfl
  rw [← history_committed,lastWrite_history,hl]
  cases h : latest (committedWrite ins a) n with
  | none => rfl
  | some j =>
    have hj := (latest_eq_some.mp h).2.1
    simp only [Option.bind_some,Option.map_some,datum_committed,hj,if_true]

theorem execAll_commits (s : PowerUp) (ins : Nat → Pins) (a : Addr) (n : Nat) :
    execAll s.memory (commits ins n) a = written ins a n := by
  rw [execAll_apply,lastWrite_commits,s.memory_zero]
  rfl

theorem memory_eq_written (s : PowerUp) (ins : ResetTrace) (k : Nat) (a : Addr) :
    (dutAt s.toRegs ins.pins (k+1)).memory a = written ins.pins a k := by
  rw [memory_succ s.toRegs ins.pins ins.rst_zero,execAll_commits]

/-- The committed read whose answer `rdata` shows just after edge `k`. -/
def shownRead (ins : Nat → Pins) (k : Nat) : Option Nat :=
  latest (fun j => committedRead ins j && quiet ins (j+2) (k+1)) k

theorem shownRead_input (ins : Nat → Pins) (k : Nat) :
    PipelinedMemory.shownRead (fun i => (ins i).input) k = shownRead ins k := by
  apply latest_congr
  intro j _
  rw [committed_input]
  cases hc : committed ins j <;> cases hw : (ins j).write <;>
    simp [committedRead,requestAt,request,Request.isRead,PipelinedMemory.quiet,quiet,
      Pins.input,hc,hw]

theorem rdata_eq_written (s : PowerUp) (ins : ResetTrace) (k : Nat) :
    (dutAt s.toRegs ins.pins (k+1)).rdata =
      match shownRead ins.pins k with
      | some j => written ins.pins (ins.pins j).addr j
      | none => 0 := by
  have h := PipelinedMemory.rdata_history s.view (fun i => (ins.pins i).input) ins.rst_zero k
  rw [← view_dutAt,shownRead_input] at h
  cases hs : shownRead ins.pins k with
  | none =>
    rw [hs] at h
    exact h
  | some j =>
    rw [hs] at h
    obtain ⟨a,hc,hr⟩ := h
    have ha : a = (ins.pins j).addr := by
      rw [committed_input] at hc
      cases hcj : committed ins.pins j <;> cases hw : (ins.pins j).write <;>
        simp [hcj,hw,requestAt,request] at hc
      exact hc.symm
    rw [history_committed] at hr
    simp only
    rw [← execAll_commits s,← ha]
    exact hr

theorem read_after_write (s : PowerUp) (ins : ResetTrace) (j : Nat)
    (hw : committedWrite ins.pins (ins.pins (j+1)).addr j = true)
    (hr : committedRead ins.pins (j+1) = true) :
    (dutAt s.toRegs ins.pins (j+3)).rdata = (ins.pins j).wdata := by
  simp only [committedRead,Bool.and_eq_true,Bool.not_eq_true'] at hr
  rw [rdata_of_committed_read s.toRegs ins.pins hr.1 hr.2,memory_eq_written,written,
    latest_succ,hw]
  rfl

theorem memory_controller_refines (s : PowerUp) (ins : ResetTrace) (k : Nat) :
    (∀ a, (dutAt s.toRegs ins.pins (k+1)).memory a = written ins.pins a k) ∧
    ((dutAt s.toRegs ins.pins (k+1)).rdata =
      match latest (fun j => committedRead ins.pins j && quiet ins.pins (j+2) (k+1)) k with
      | some j => written ins.pins (ins.pins j).addr j
      | none => 0) ∧
    (committedWrite ins.pins (ins.pins (k+1)).addr k = true →
      committedRead ins.pins (k+1) = true →
      (dutAt s.toRegs ins.pins (k+3)).rdata = (ins.pins k).wdata) :=
  ⟨memory_eq_written s ins k,rdata_eq_written s ins k,read_after_write s ins k⟩

end MemoryController
