import MemoryController.Signals

/-! The module `memory_controller`, and the pipelined memory it implements. -/

set_option autoImplicit false

namespace MemoryController
open Clocked Edges SequentialMemory

structure Regs where
  memory : Addr → Word
  rdata : Word
  ready : Bool
  pending : Bool
  pendingWrite : Bool
  pendingAddr : Addr
  pendingWdata : Word

def reset (s : Regs) : Regs :=
  { s with
    ready := false, rdata := 0, pending := false, pendingWrite := false
    pendingAddr := 0, pendingWdata := 0 }

/-- The assignments that finish the pending request. Right-hand sides read the old
registers `s`, `next` collects the new ones. -/
def execute (s next : Regs) : Regs :=
  let next := { next with ready := false }
  if s.pending then
    let next :=
      if s.pendingWrite then
        { next with memory := Function.update next.memory s.pendingAddr s.pendingWdata }
      else { next with rdata := s.memory s.pendingAddr }
    { next with ready := true }
  else next

def capture (p : Pins) (next : Regs) : Regs :=
  let next := { next with pending := p.valid }
  if p.valid then
    { next with pendingWrite := p.write, pendingAddr := p.addr, pendingWdata := p.wdata }
  else next

def alwaysFF (s : Regs) (p : Pins) : Regs :=
  if p.rst then reset s else capture p (execute s s)

/-- The registers just before edge `k`. -/
def dutAt (s : Regs) (ins : Nat → Pins) (k : Nat) : Regs := run alwaysFF s ins k

/-- Registers at power-up: the initial block clears the memory, nothing else is assigned. -/
structure PowerUp extends Regs where
  memory_zero : memory = fun _ => 0

def zeroPowerUp : PowerUp where
  memory := fun _ => 0
  rdata := 0
  ready := false
  pending := false
  pendingWrite := false
  pendingAddr := 0
  pendingWdata := 0
  memory_zero := rfl

structure ResetTrace where
  pins : Nat → Pins
  rst_zero : (pins 0).rst = true

structure QuietTrace extends ResetTrace where
  valid_zero : (pins 0).valid = false

def idlePins (rst : Bool) : Pins := ⟨rst,false,false,0,0⟩

def killedWrite : QuietTrace where
  pins
    | 0 => idlePins true
    | 1 => ⟨false,true,true,0,.known 1⟩
    | 2 => idlePins true
    | 3 => ⟨false,false,true,0,.x⟩
    | 4 => ⟨false,false,true,0,.x⟩
    | _ => idlePins false
  rst_zero := rfl
  valid_zero := rfl

def Regs.pendingRequest (s : Regs) : Option (Request Addr Word) :=
  if s.pending then some (request s.pendingWrite s.pendingAddr s.pendingWdata) else none

/-- The registers without the stale contents of the pending fields. -/
def Regs.view (s : Regs) : PipelinedMemory.State Addr Word :=
  ⟨s.memory,s.rdata,s.ready,s.pendingRequest⟩

/-- One clock edge of the RTL is one step of the pipelined memory. -/
theorem view_alwaysFF (s : Regs) (p : Pins) :
    (alwaysFF s p).view = PipelinedMemory.step s.view p.input := by
  cases hr : p.rst with
  | true => simp [alwaysFF,hr,reset,Regs.view,Regs.pendingRequest,PipelinedMemory.step,Pins.input]
  | false =>
    cases hp : s.pending <;> cases hw : s.pendingWrite <;> cases hv : p.valid <;>
      simp [alwaysFF,hr,execute,capture,Regs.view,Regs.pendingRequest,PipelinedMemory.step,
        Pins.input,Pins.request,PipelinedMemory.answer,hp,hw,hv,request,execAll,exec]

theorem view_dutAt (s : Regs) (ins : Nat → Pins) (k : Nat) :
    (dutAt s ins k).view =
      run PipelinedMemory.step s.view (fun j => (ins j).input) k :=
  run_project alwaysFF PipelinedMemory.step Regs.view Pins.input view_alwaysFF s ins k

def accepted (ins : Nat → Pins) (j : Nat) : Bool := (ins j).valid && !(ins j).rst

/-- The request presented at edge `j` is captured and not reset before its execution. -/
def committed (ins : Nat → Pins) (j : Nat) : Bool := accepted ins j && !(ins (j+1)).rst

def presented (ins : Nat → Pins) (j : Nat) : Bool := (ins j).valid

def requestAt (ins : Nat → Pins) (j : Nat) : Request Addr Word :=
  request (ins j).write (ins j).addr (ins j).wdata

def commits (ins : Nat → Pins) (n : Nat) : List (Request Addr Word) :=
  (edges (committed ins) n).map (requestAt ins)

theorem accepted_input (ins : Nat → Pins) (j : Nat) :
    PipelinedMemory.accepted (fun i => (ins i).input) j =
      if accepted ins j then some (requestAt ins j) else none := by
  cases hr : (ins j).rst <;> cases hv : (ins j).valid <;>
    simp [PipelinedMemory.accepted,accepted,requestAt,Pins.input,Pins.request,hr,hv]

theorem committed_input (ins : Nat → Pins) (j : Nat) :
    PipelinedMemory.committed (fun i => (ins i).input) j =
      if committed ins j then some (requestAt ins j) else none := by
  rw [PipelinedMemory.committed,accepted_input]
  cases hr : (ins (j+1)).rst <;> simp [committed,Pins.input,hr]

theorem history_committed (ins : Nat → Pins) (n : Nat) :
    history (PipelinedMemory.committed (fun i => (ins i).input)) n = commits ins n :=
  history_eq_map (fun j _ => committed_input ins j)

theorem presented_of_committed {ins : Nat → Pins} {j : Nat} (h : committed ins j = true) :
    presented ins j = true := by
  simp only [committed,accepted,Bool.and_eq_true] at h
  exact h.1.1

theorem committed_zero (ins : ResetTrace) : committed ins.pins 0 = false := by
  simp [committed,accepted,ins.rst_zero]

section Runs

variable (s : Regs) (ins : Nat → Pins)

theorem pending_succ (j : Nat) : (dutAt s ins (j+1)).pending = accepted ins j := by
  have h := PipelinedMemory.pending_succ s.view (fun i => (ins i).input) j
  rw [← view_dutAt,accepted_input] at h
  simp only [Regs.view,Regs.pendingRequest] at h
  cases hp : (dutAt s ins (j+1)).pending <;> cases ha : accepted ins j <;>
    simp [hp,ha] at h ⊢

theorem ready_succ_succ (j : Nat) : (dutAt s ins (j+2)).ready = committed ins j := by
  have h := PipelinedMemory.ready_succ_succ s.view (fun i => (ins i).input) j
  rw [← view_dutAt,committed_input] at h
  cases hc : committed ins j <;> simpa [hc,Regs.view] using h

theorem ready_one (h0 : (ins 0).rst = true) : (dutAt s ins 1).ready = false := by
  simp [dutAt,run_succ,alwaysFF,h0,reset]

theorem ready_eq_delay (h0 : (ins 0).rst = true) (k : Nat) (hk : k ≠ 0) :
    (dutAt s ins k).ready = delay 2 (committed ins) k := by
  match k with
  | 0 => exact absurd rfl hk
  | 1 => exact ready_one s ins h0
  | j+2 => rw [ready_succ_succ,delay_add]

theorem memory_succ (h0 : (ins 0).rst = true) (k : Nat) :
    (dutAt s ins (k+1)).memory = execAll s.memory (commits ins k) := by
  have h := PipelinedMemory.memory_history s.view (fun i => (ins i).input) h0 k
  rw [← view_dutAt,history_committed] at h
  exact h

theorem rdata_of_committed_read {j : Nat} (hc : committed ins j = true)
    (hw : (ins j).write = false) :
    (dutAt s ins (j+2)).rdata = (dutAt s ins (j+1)).memory (ins j).addr := by
  have hr : PipelinedMemory.committed (fun i => (ins i).input) j = some (.read (ins j).addr) := by
    simp [committed_input,hc,requestAt,request,hw]
  have h := PipelinedMemory.rdata_of_committed_read s.view (fun i => (ins i).input) hr
  rw [← view_dutAt,← view_dutAt] at h
  exact h

end Runs

end MemoryController
