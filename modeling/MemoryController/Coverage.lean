import MemoryController.Delivery

/-!
The covergroup `memory_cg`. It samples the pins and the monitor samples a queue, and both
count the same requests.
-/

set_option autoImplicit false

namespace MemoryController
open Clocked Edges SequentialMemory

inductive Bin where
  | read | write | low | medium | high
  deriving DecidableEq, Repr

def inRange (first last : Nat) (addr : Addr) : Bool :=
  decide (first ≤ addr.toNat) && decide (addr.toNat ≤ last)

def Bin.covers (b : Bin) (write : Bool) (addr : Addr) : Bool :=
  match b with
  | .read => write == false
  | .write => write == true
  | .low => inRange 0 63 addr
  | .medium => inRange 64 191 addr
  | .high => inRange 192 255 addr

/-- One sample of the covergroup, taken at a clock edge `iff valid`. -/
def memoryCg (hits : Bin → Nat) (p : Pins) (b : Bin) : Nat :=
  if p.valid && b.covers p.write p.addr then hits b+1 else hits b

def coverageAt (ins : Nat → Pins) (n : Nat) : Bin → Nat := run memoryCg (fun _ => 0) ins n

def inBin (b : Bin) (tr : Transaction) : Bool := b.covers tr.write tr.addr

def requestInBin (b : Bin) : Request Addr Word → Bool
  | .read a => b.covers false a
  | .write a _ => b.covers true a

theorem requestInBin_request (b : Bin) (write : Bool) (addr : Addr) (wdata : Word) :
    requestInBin b (request write addr wdata) = b.covers write addr := by cases write <;> rfl

theorem countP_inBin (b : Bin) (trs : List Transaction) :
    trs.countP (inBin b) = (trs.map Transaction.request).countP (requestInBin b) := by
  rw [List.countP_map]
  apply List.countP_congr
  intro tr _
  rw [Function.comp_apply,Transaction.request,requestInBin_request,inBin]

theorem coverageAt_eq (ins : Nat → Pins) (n : Nat) (b : Bin) :
    coverageAt ins n b =
      ((edges (presented ins) n).map (requestAt ins)).countP (requestInBin b) := by
  induction n with
  | zero => rfl
  | succ n ih =>
    have hs : coverageAt ins (n+1) = memoryCg (coverageAt ins n) (ins n) := rfl
    rw [hs,memoryCg,ih,edges_succ,List.map_append,List.countP_append]
    cases hv : (ins n).valid with
    | false => simp [presented,hv]
    | true =>
      cases hb : b.covers (ins n).write (ins n).addr <;>
        simp [presented,hv,requestAt,requestInBin_request,hb]

theorem operation_bins (r : Request Addr Word) :
    (if requestInBin .read r then 1 else 0)+(if requestInBin .write r then 1 else 0) = 1 := by
  cases r <;> simp [requestInBin,Bin.covers]

theorem inRange_total (a : Addr) : (if inRange 0 63 a then 1 else 0)+
    (if inRange 64 191 a then 1 else 0)+(if inRange 192 255 a then 1 else 0) = 1 := by
  have ha := a.isLt
  simp only [inRange,Bool.and_eq_true,decide_eq_true_eq]
  split_ifs <;> omega

theorem address_bins (r : Request Addr Word) : (if requestInBin .low r then 1 else 0)+
    (if requestInBin .medium r then 1 else 0)+(if requestInBin .high r then 1 else 0) = 1 := by
  cases r <;> exact inRange_total _

theorem operation_total (rs : List (Request Addr Word)) :
    rs.countP (requestInBin .read)+rs.countP (requestInBin .write) = rs.length := by
  induction rs with
  | nil => rfl
  | cons r rs ih =>
    have hr := operation_bins r
    rw [List.countP_cons,List.countP_cons,List.length_cons]
    omega

theorem address_total (rs : List (Request Addr Word)) :
    rs.countP (requestInBin .low)+rs.countP (requestInBin .medium)+
      rs.countP (requestInBin .high) = rs.length := by
  induction rs with
  | nil => rfl
  | cons r rs ih =>
    have hr := address_bins r
    rw [List.countP_cons,List.countP_cons,List.countP_cons,List.length_cons]
    omega

/-- On any interface, what is published and what is still queued make up the hits. -/
theorem hits_split (s : Regs) (ins : Nat → Pins) (n : Nat) (b : Bin) :
    coverageAt ins n b = (benchAt s ins n).env.monitor.published.countP (inBin b) +
      (benchAt s ins n).env.monitor.inflightQ.countP (inBin b) := by
  rw [bench_env,env_monitor,countP_inBin,countP_inBin,← List.countP_append,requests_split,
    requests_samples,coverageAt_eq]

theorem hits_operation (ins : Nat → Pins) (n : Nat) :
    coverageAt ins n .read+coverageAt ins n .write = (edges (presented ins) n).length := by
  rw [coverageAt_eq,coverageAt_eq,operation_total,List.length_map]

theorem hits_address (ins : Nat → Pins) (n : Nat) :
    coverageAt ins n .low+coverageAt ins n .medium+coverageAt ins n .high =
      (edges (presented ins) n).length := by
  rw [coverageAt_eq,coverageAt_eq,coverageAt_eq,address_total,List.length_map]

/-- Every hit is a transaction that the scoreboard has agreed with or that is still in flight,
and once `wait_idle` returns it has reported every item: each write, and each read with the
last data written before it. -/
theorem coverage_of_checked (s : PowerUp) (sq : Sequencer) :
    (∀ n,
      let hits := coverageAt sq.trace.pins n
      let monitor := (benchAt s.toRegs sq.trace.pins n).env.monitor
      (∀ b, hits b = monitor.published.countP (inBin b) + monitor.inflightQ.countP (inBin b)) ∧
      (benchAt s.toRegs sq.trace.pins n).env.scoreboard.verdicts =
        monitor.published.map Transaction.verdict ∧
      monitor.inflightQ.length ≤ 2 ∧
      hits .read+hits .write = (edges (accepted sq.trace.pins) n).length ∧
      hits .low+hits .medium+hits .high = (edges (accepted sq.trace.pins) n).length) ∧
    (∀ L n, lastItemDone sq L → waitIdle L ≤ n →
      let env := (benchAt s.toRegs sq.trace.pins n).env
      env.monitor.published = checkedItems sq.items ∧
      env.monitor.inflightQ = [] ∧
      env.scoreboard.verdicts = checkedVerdicts sq.items ∧
      ∀ b, coverageAt sq.trace.pins n b = sq.items.countP (inBin b)) := by
  constructor
  · intro n
    simp only
    rw [edges_congr (fun j _ => accepted_of_driver sq j)]
    exact ⟨hits_split s.toRegs sq.trace.pins n,verdicts_of_driver s sq n,
      inflightQ_le_two s.toRegs sq.trace n (fun e he _ => trace_rst_of_pos sq he),
      hits_operation sq.trace.pins n,hits_address sq.trace.pins n⟩
  · intro L n hL hn
    rw [waitIdle_eq] at hn
    refine ⟨published_after_last s sq hL hn,inflightQ_after_last s sq hL hn,
      verdicts_after_last s sq hL hn,?_⟩
    intro b
    rw [coverageAt_eq,requests_after_last sq hL (by omega),countP_inBin]

/-- A write and a read of address 5 with an idle cycle between them. -/
theorem writeThenRead_covered :
    lastItemDone writeThenRead 3 ∧
    let b := benchAt zeroPowerUp.toRegs writeThenRead.trace.pins (waitIdle 3)
    b.env.scoreboard.verdicts = [.expectedWrite 5 (.known 7),.readPass 5 (.known 7)] ∧
    coverageAt writeThenRead.trace.pins (waitIdle 3) .read = 1 ∧
    coverageAt writeThenRead.trace.pins (waitIdle 3) .write = 1 ∧
    coverageAt writeThenRead.trace.pins (waitIdle 3) .low = 2 :=
  have hL : lastItemDone writeThenRead 3 := ⟨by decide,by decide⟩
  have h := (coverage_of_checked zeroPowerUp writeThenRead).2 3 (waitIdle 3) hL (Nat.le_refl _)
  ⟨hL,h.2.2.1.trans (by decide),h.2.2.2 .read,h.2.2.2 .write,h.2.2.2 .low⟩

end MemoryController
