import MemoryController.Library.Fifo
import MemoryController.Signals

/-! The `run_phase` of `memory_monitor`, one clock edge at a time, and its queue. -/

set_option autoImplicit false

namespace MemoryController
open Clocked Edges SequentialMemory

def monitorCapture (inflightQ : List Transaction) (cb : MonitorCb) : List Transaction :=
  if cb.valid then
    let tr : Transaction := ⟨cb.write,cb.addr,.x,.x⟩
    let tr := if cb.write then { tr with wdata := cb.wdata } else tr
    inflightQ ++ [tr]
  else inflightQ

/-- A completion pops the oldest entry, fills in `rdata` for reads and publishes it. -/
def monitorComplete (inflightQ : List Transaction) (cb : MonitorCb) :
    List Transaction × Option Transaction :=
  match cb.ready, inflightQ with
  | true, tr :: rest => (rest,some (if !tr.write then { tr with rdata := cb.rdata } else tr))
  | _, _ => (inflightQ,none)

def monitorStep (inflightQ : List Transaction) (cb : MonitorCb) :
    List Transaction × Option Transaction :=
  monitorComplete (monitorCapture inflightQ cb) cb

structure Monitor where
  inflightQ : List Transaction
  published : List Transaction
  deriving DecidableEq, Repr

def Monitor.output (m : Monitor) (cb : MonitorCb) : Option Transaction :=
  (monitorStep m.inflightQ cb).2

def Monitor.step (m : Monitor) (cb : MonitorCb) : Monitor :=
  ⟨(monitorStep m.inflightQ cb).1,m.published ++ (m.output cb).toList⟩

/-- The monitor once it has processed the edges before `n`, from an empty queue. -/
def monitorAt (cbs : Nat → MonitorCb) (n : Nat) : Monitor := run Monitor.step ⟨[],[]⟩ cbs n

def valid (cbs : Nat → MonitorCb) (k : Nat) : Bool := (cbs k).valid
def ready (cbs : Nat → MonitorCb) (k : Nat) : Bool := (cbs k).ready

def observed (cb : MonitorCb) : Transaction := Transaction.ofRequest cb.request

def delivered (req done : MonitorCb) : Transaction where
  write := req.write
  addr := req.addr
  wdata := if req.write then req.wdata else .x
  rdata := if req.write then .x else done.rdata

def matching (cbs : Nat → MonitorCb) (n : Nat) : Fifo.Matching :=
  Fifo.after (valid cbs) (ready cbs) n

theorem monitorCapture_of_valid {q : List Transaction} {cb : MonitorCb}
    (h : cb.valid = true) : monitorCapture q cb = q ++ [observed cb] := by
  cases hw : cb.write <;>
    simp [monitorCapture,h,hw,observed,MonitorCb.request,request,Transaction.ofRequest]

theorem monitorCapture_of_idle {q : List Transaction} {cb : MonitorCb}
    (h : cb.valid = false) : monitorCapture q cb = q := by simp [monitorCapture,h]

theorem monitorComplete_of_ready {tr : Transaction} {rest : List Transaction}
    {cb : MonitorCb} (h : cb.ready = true) : monitorComplete (tr :: rest) cb =
      (rest,some (if !tr.write then { tr with rdata := cb.rdata } else tr)) := by
  simp [monitorComplete,h]

theorem monitorComplete_of_idle {q : List Transaction} {cb : MonitorCb}
    (h : cb.ready = false) : monitorComplete q cb = (q,none) := by simp [monitorComplete,h]

@[simp] theorem monitorComplete_nil (cb : MonitorCb) : monitorComplete [] cb = ([],none) := by
  simp [monitorComplete]

theorem delivered_eq (req done : MonitorCb) :
    (if !(observed req).write then { observed req with rdata := done.rdata }
      else observed req) = delivered req done := by
  cases hw : req.write <;>
    simp [observed,delivered,MonitorCb.request,request,hw,Transaction.ofRequest]

@[simp] theorem request_observed (cb : MonitorCb) : (observed cb).request = cb.request :=
  Transaction.request_ofRequest cb.request

@[simp] theorem request_delivered (req done : MonitorCb) :
    (delivered req done).request = req.request := by
  cases hw : req.write <;> simp [Transaction.request,delivered,MonitorCb.request,request,hw]

theorem monitorCapture_map (cbs : Nat → MonitorCb) (k : Nat) (waiting : List Nat) :
    monitorCapture (waiting.map (fun o => observed (cbs o))) (cbs k) =
      (Fifo.enqueue (valid cbs k) k waiting).map (fun o => observed (cbs o)) := by
  cases hv : (cbs k).valid with
  | true => simp [monitorCapture_of_valid hv,Fifo.enqueue,valid,hv]
  | false => simp [monitorCapture_of_idle hv,Fifo.enqueue,valid,hv]

/-- One step of the monitor is one step of the matching. -/
theorem monitorStep_map (cbs : Nat → MonitorCb) (k : Nat) :
    monitorStep ((matching cbs k).waiting.map (fun o => observed (cbs o))) (cbs k) =
      ((matching cbs (k+1)).waiting.map (fun o => observed (cbs o)),
        (Fifo.popped (valid cbs) (ready cbs) k).map
          (fun o => delivered (cbs o) (cbs k))) := by
  rw [monitorStep,monitorCapture_map,matching,matching,Fifo.waiting_succ,Fifo.popped]
  change monitorComplete ((Fifo.offered (valid cbs) (ready cbs) k).map _) _ = _
  cases hr : (cbs k).ready with
  | false => simp [monitorComplete_of_idle hr,ready,hr]
  | true =>
    cases Fifo.offered (valid cbs) (ready cbs) k with
    | nil => simp
    | cons o rest =>
      simpa [monitorComplete_of_ready hr,ready,hr] using delivered_eq (cbs o) (cbs k)

/-- The monitor is first-in first-out matching of the edges with `valid` and those with
`ready`. -/
theorem monitor_matching (cbs : Nat → MonitorCb) (n : Nat) :
    (monitorAt cbs n).inflightQ = (matching cbs n).waiting.map (fun o => observed (cbs o)) ∧
    (monitorAt cbs n).published =
      (matching cbs n).log.map (fun e => delivered (cbs e.1) (cbs e.2)) := by
  induction n with
  | zero => exact ⟨rfl,rfl⟩
  | succ n ih =>
    have hs : monitorAt cbs (n+1) = (monitorAt cbs n).step (cbs n) := rfl
    rw [hs,Monitor.step,Monitor.output,ih.1,ih.2,monitorStep_map]
    refine ⟨rfl,?_⟩
    rw [matching,matching,Fifo.log_succ]
    cases Fifo.popped (valid cbs) (ready cbs) n <;> simp

theorem inflightQ_eq (cbs : Nat → MonitorCb) (n : Nat) : (monitorAt cbs n).inflightQ =
    (matching cbs n).waiting.map (fun o => observed (cbs o)) := (monitor_matching cbs n).1

theorem published_eq (cbs : Nat → MonitorCb) (n : Nat) : (monitorAt cbs n).published =
    (matching cbs n).log.map (fun e => delivered (cbs e.1) (cbs e.2)) :=
  (monitor_matching cbs n).2

theorem published_zipWith (cbs : Nat → MonitorCb) (n : Nat) :
    (monitorAt cbs n).published =
      List.zipWith (fun j k => delivered (cbs j) (cbs k)) (edges (valid cbs) n)
        (edges (Fifo.fires (valid cbs) (ready cbs)) n) := by
  rw [published_eq,matching,Fifo.log_eq_zip,List.zip]
  exact List.map_zipWith

/-- What is published at an edge is the entry pushed at the edge that the matching pops. -/
theorem output_eq (cbs : Nat → MonitorCb) (k : Nat) : (monitorAt cbs k).output (cbs k) =
    (Fifo.popped (valid cbs) (ready cbs) k).map (fun o => delivered (cbs o) (cbs k)) := by
  rw [Monitor.output,inflightQ_eq,monitorStep_map]

end MemoryController
