import MemoryController.Bench

/-!
Wires that carry no request are never seen again: two runs that agree on their requests
agree on everything the environment observes.
-/

set_option autoImplicit false

namespace MemoryController
open Clocked

/-- Equal up to `write`, `addr` and `wdata` of idle cycles and `wdata` of reads. -/
structure Agree (p q : Pins) : Prop where
  rst : p.rst = q.rst
  valid : p.valid = q.valid
  write : p.valid = true → p.write = q.write
  addr : p.valid = true → p.addr = q.addr
  wdata : p.valid = true → p.write = true → p.wdata = q.wdata

theorem Agree.request {p q : Pins} (h : Agree p q) : p.request = q.request := by
  cases hv : p.valid with
  | false => simp [Pins.request,← h.valid,hv]
  | true =>
    cases hw : p.write with
    | false =>
      simp [Pins.request,MemoryController.request,← h.valid,← h.write hv,hv,hw,h.addr hv]
    | true =>
      simp [Pins.request,MemoryController.request,← h.valid,← h.write hv,hv,hw,h.addr hv,
        h.wdata hv hw]

theorem Agree.input {p q : Pins} (h : Agree p q) : p.input = q.input := by
  rw [Pins.input,Pins.input,h.rst,h.request]

theorem monitorCapture_sample (q : List Transaction) (p : Pins) (s : Regs) :
    monitorCapture q (sample p s) = q ++ (p.request.map Transaction.ofRequest).toList := by
  cases hv : p.valid with
  | false =>
    rw [monitorCapture_of_idle (show (sample p s).valid = false from hv)]
    simp [Pins.request,hv]
  | true =>
    rw [monitorCapture_of_valid (show (sample p s).valid = true from hv)]
    simp [Pins.request,hv,observed,MonitorCb.request,sample]

theorem monitorComplete_sample (q : List Transaction) (p p' : Pins) {s s' : Regs}
    (h : s.view = s'.view) :
    monitorComplete q (sample p s) = monitorComplete q (sample p' s') := by
  have hr : s.ready = s'.ready := congrArg PipelinedMemory.State.ready h
  have hd : s.rdata = s'.rdata := congrArg PipelinedMemory.State.rdata h
  simp only [monitorComplete,sample,hr,hd]

/-- What ties the two runs together: the same memory, outputs and pending request, the same
environment. -/
def Alike (b b' : Bench) : Prop := b.dut.view = b'.dut.view ∧ b.env = b'.env

theorem Alike.step {b b' : Bench} {p p' : Pins} (h : Alike b b') (hp : Agree p p') :
    Alike (b.step p) (b'.step p') := by
  obtain ⟨hd,he⟩ := h
  have hm : monitorStep b'.env.monitor.inflightQ (sample p b.dut) =
      monitorStep b'.env.monitor.inflightQ (sample p' b'.dut) := by
    rw [monitorStep,monitorStep,monitorCapture_sample,monitorCapture_sample,hp.request]
    exact monitorComplete_sample _ p p' hd
  constructor
  · simp only [Bench.step,view_alwaysFF,hd,hp.input]
  · simp only [Bench.step,Env.step,Monitor.step,Monitor.output,hm,he]

theorem alike_of_reset {s s' : Regs} (m : Addr → Word) {p p' : Pins}
    (hm : s.memory = s'.memory) (hp : Agree p p') (hr : p.rst = true) (hv : p.valid = false) :
    Alike (Bench.step ⟨s,Env.start m⟩ p) (Bench.step ⟨s',Env.start m⟩ p') := by
  have hq : p.request = none := by simp [Pins.request,hv]
  have hv' : ∀ (q : Pins) (t : Regs), q.request = none →
      monitorStep [] (sample q t) = ([],none) := by
    intro q t h
    simp [monitorStep,monitorCapture_sample,h]
  constructor
  · simp only [Bench.step,view_alwaysFF,← hp.input]
    rw [PipelinedMemory.step_of_rst hr,PipelinedMemory.step_of_rst hr]
    simp [Regs.view,hm]
  · simp only [Bench.step,Env.step,Env.start,Monitor.step,Monitor.output,hv' p s hq,
      hv' p' s' (hp.request.symm.trans hq)]

theorem runs_alike {s s' : Regs} (m : Addr → Word) (ins ins' : QuietTrace)
    (hm : s.memory = s'.memory) (hp : ∀ k, Agree (ins.pins k) (ins'.pins k)) (k : Nat)
    (hk : 1 ≤ k) : Alike (run Bench.step ⟨s,Env.start m⟩ ins.pins k)
      (run Bench.step ⟨s',Env.start m⟩ ins'.pins k) := by
  apply run_related Bench.step Bench.step _ _ ins.pins ins'.pins Alike 1
  · exact alike_of_reset m hm (hp 0) ins.rst_zero ins.valid_zero
  · exact fun j b b' _ h => h.step (hp j)
  · exact hk

theorem dont_care_inputs_never_leak (s s' : Regs) (m : Addr → Word) (ins ins' : QuietTrace)
    (hm : s.memory = s'.memory) (hp : ∀ k, Agree (ins.pins k) (ins'.pins k)) (k : Nat)
    (hk : 1 ≤ k) :
    let b := run Bench.step ⟨s,Env.start m⟩ ins.pins k
    let b' := run Bench.step ⟨s',Env.start m⟩ ins'.pins k
    b.dut.memory = b'.dut.memory ∧ b.dut.ready = b'.dut.ready ∧ b.dut.rdata = b'.dut.rdata ∧
    b.env.monitor.published = b'.env.monitor.published ∧
    b.env.scoreboard.verdicts = b'.env.scoreboard.verdicts := by
  obtain ⟨hd,he⟩ := runs_alike m ins ins' hm hp k hk
  refine ⟨?_,?_,?_,?_,?_⟩
  · exact congrArg PipelinedMemory.State.memory hd
  · exact congrArg PipelinedMemory.State.ready hd
  · exact congrArg PipelinedMemory.State.rdata hd
  · exact congrArg (fun e => e.monitor.published) he
  · exact congrArg (fun e => e.scoreboard.verdicts) he

def scramble (p : Pins) : Pins :=
  if p.valid then { p with wdata := if p.write then p.wdata else .x }
  else { p with write := !p.write, addr := ~~~p.addr, wdata := .x }

theorem agree_scramble (p : Pins) : Agree p (scramble p) := by
  cases hv : p.valid <;> cases hw : p.write <;>
    exact ⟨by simp [scramble,hv],by simp [scramble,hv],by simp [scramble,hv],
      by simp [scramble,hv],by simp [scramble,hv,hw]⟩

def scrambleTrace (ins : QuietTrace) : QuietTrace where
  pins k := scramble (ins.pins k)
  rst_zero := (agree_scramble _).rst.symm.trans ins.rst_zero
  valid_zero := (agree_scramble _).valid.symm.trans ins.valid_zero

def stalePowerUp : Regs :=
  { zeroPowerUp.toRegs with pending := true, pendingWrite := true, pendingWdata := .known 9 }

theorem killedWrite_scrambled :
    (run Bench.step ⟨zeroPowerUp.toRegs,Env.new⟩ killedWrite.pins 7).env.scoreboard.verdicts =
    (run Bench.step ⟨stalePowerUp,Env.new⟩
      (scrambleTrace killedWrite).pins 7).env.scoreboard.verdicts :=
  (dont_care_inputs_never_leak zeroPowerUp.toRegs stalePowerUp (fun _ => 0) killedWrite
    (scrambleTrace killedWrite) rfl (fun k => agree_scramble (killedWrite.pins k)) 7
    (by decide)).2.2.2.2

end MemoryController
