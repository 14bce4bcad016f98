import MemoryController.Dut
import MemoryController.Monitor
import MemoryController.Scoreboard

/-! The checking side of the environment, and the DUT with its observers attached. -/

set_option autoImplicit false

namespace MemoryController
open Clocked Edges SequentialMemory

structure Env where
  monitor : Monitor
  scoreboard : Scoreboard

def Env.start (m : Addr → Word) : Env := ⟨⟨[],[]⟩,⟨m,[]⟩⟩

def Env.new : Env := Env.start (fun _ => 0)

def Env.step (e : Env) (cb : MonitorCb) : Env where
  monitor := e.monitor.step cb
  scoreboard := match e.monitor.output cb with
    | none => e.scoreboard
    | some tr => e.scoreboard.write tr

def envAt (cbs : Nat → MonitorCb) (n : Nat) : Env := run Env.step Env.new cbs n

structure Bench where
  dut : Regs
  env : Env

/-- The monitor's clocking block samples the wires just before the edge. -/
def sample (p : Pins) (s : Regs) : MonitorCb where
  write := p.write
  valid := p.valid
  addr := p.addr
  wdata := p.wdata
  rdata := s.rdata
  ready := s.ready

def Bench.step (b : Bench) (p : Pins) : Bench :=
  ⟨alwaysFF b.dut p,b.env.step (sample p b.dut)⟩

def benchAt (s : Regs) (ins : Nat → Pins) (n : Nat) : Bench := run Bench.step ⟨s,Env.new⟩ ins n

def samples (s : Regs) (ins : Nat → Pins) (k : Nat) : MonitorCb := sample (ins k) (dutAt s ins k)

theorem env_monitor (cbs : Nat → MonitorCb) (n : Nat) :
    (envAt cbs n).monitor = monitorAt cbs n :=
  run_project Env.step Monitor.step Env.monitor id (fun _ _ => rfl) _ cbs n

/-- The scoreboard is a function of what was published. -/
theorem env_scoreboard (cbs : Nat → MonitorCb) (n : Nat) :
    (envAt cbs n).scoreboard = Scoreboard.new.writeAll (monitorAt cbs n).published := by
  induction n with
  | zero => rfl
  | succ n ih =>
    have he : envAt cbs (n+1) = (envAt cbs n).step (cbs n) := rfl
    have hm : monitorAt cbs (n+1) = (monitorAt cbs n).step (cbs n) := rfl
    rw [he,hm,Monitor.step,Env.step,env_monitor,ih]
    cases (monitorAt cbs n).output (cbs n) with
    | none => simp
    | some tr => simp [writeAll_concat]

theorem bench_dut (s : Regs) (ins : Nat → Pins) (n : Nat) :
    (benchAt s ins n).dut = dutAt s ins n :=
  run_project Bench.step alwaysFF Bench.dut id (fun _ _ => rfl) _ ins n

theorem bench_env (s : Regs) (ins : Nat → Pins) (n : Nat) :
    (benchAt s ins n).env = envAt (samples s ins) n := by
  induction n with
  | zero => rfl
  | succ n ih =>
    have hb : benchAt s ins (n+1) = (benchAt s ins n).step (ins n) := rfl
    have he : envAt (samples s ins) (n+1) =
        (envAt (samples s ins) n).step (samples s ins n) := rfl
    rw [hb,he,Bench.step,ih,bench_dut]
    rfl

end MemoryController
