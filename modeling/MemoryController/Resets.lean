import MemoryController.Pairing

/-!
Resets in the middle of the traffic. The DUT drops what a reset hits while the monitor
keeps it queued, so the two stay matched exactly until a request completes after a lost
one.
-/

set_option autoImplicit false

namespace MemoryController
open Edges SequentialMemory

/-- The edge at which the transaction popped at edge `k` was presented. -/
def poppedEdge (s : Regs) (ins : Nat → Pins) (k : Nat) : Option Nat :=
  Fifo.popped (valid (samples s ins)) (ready (samples s ins)) k

/-- Over the edges before `n`: completions meet the requests that caused them, no READ FAIL
is reported, and after every edge the reference memory is the memory before that edge. -/
structure MatchedBefore (s : Regs) (ins : Nat → Pins) (n : Nat) : Prop where
  paired : ∀ k, k < n → ∀ o, poppedEdge s ins k = some o →
    readyAt s ins k = true ∧ o+2 = k
  noReadFail : (benchAt s ins n).env.scoreboard.readFails = 0
  memory : ∀ k, 1 ≤ k → k < n →
    (benchAt s ins (k+1)).env.scoreboard.expectedMemory = (benchAt s ins k).dut.memory

/-- No request that completes before edge `n` was presented after one lost to a reset. -/
def LostLast (ins : Nat → Pins) (n : Nat) : Prop :=
  ∀ i j, i < j → j+2 < n → lostAt ins i = true → committed ins j = false

/-- What the monitor publishes at an edge is the request observed at `poppedEdge`. -/
theorem monitor_output_eq (s : Regs) (ins : Nat → Pins) (k : Nat) :
    (benchAt s ins k).env.monitor.output (samples s ins k) =
      (poppedEdge s ins k).map (fun o => delivered (samples s ins o) (samples s ins k)) := by
  rw [bench_env,env_monitor,output_eq]
  rfl

theorem committed_prefix_presented {ins : Nat → Pins} {n : Nat} (h : LostLast ins n) :
    edges (committed ins) (n-2) <+: edges (presented ins) n := by
  have hp : edges (committed ins) (n-2) <+: edges (presented ins) (n-2) := by
    apply edges_prefix_of_closed
    · exact fun _ _ hc => presented_of_committed hc
    · intro i j hij hj hv hc
      cases hl : lostAt ins i with
      | true =>
        rw [h i j hij (by omega) hl] at hc
        cases hc
      | false =>
        unfold presented at hv
        simp only [lostAt,presented,hv,Bool.true_and,Bool.or_eq_false_iff,rstAt] at hl
        simp [committed,accepted,hv,hl.1,hl.2]
  exact hp.trans (edges_initial _ (Nat.sub_le n 2))

/-- As long as only the newest requests are lost, completions come two edges after requests. -/
theorem log_of_lostLast (s : Regs) (ins : QuietTrace) {n : Nat} (h : LostLast ins.pins n) :
    (matching (samples s ins.pins) n).log =
      (edges (committed ins.pins) (n-2)).map (fun j => (j,j+2)) :=
  Fifo.log_of_delay (fun k _ => fires_samples s ins k) (committed_prefix_presented h)

theorem delivered_of_committed (s : PowerUp) (ins : QuietTrace) {j : Nat}
    (hc : committed ins.pins j = true) :
    delivered (samples s.toRegs ins.pins j) (samples s.toRegs ins.pins (j+2)) =
      answerTo (commits ins.pins j) (requestAt ins.pins j) := by
  cases hw : (ins.pins j).write with
  | true => simp [delivered,samples,sample,requestAt,request,answerTo,hw]
  | false =>
    have hr := rdata_of_committed_read s.toRegs ins.pins hc hw
    rw [memory_succ s.toRegs ins.pins ins.rst_zero,execAll_apply,s.memory_zero] at hr
    simp [delivered,samples,sample,requestAt,request,answerTo,hw,hr]

theorem map_delivered_committed (s : PowerUp) (ins : QuietTrace) (m : Nat) :
    (edges (committed ins.pins) m).map (fun j =>
      delivered (samples s.toRegs ins.pins j) (samples s.toRegs ins.pins (j+2))) =
      answers (commits ins.pins m) := by
  induction m with
  | zero => rfl
  | succ m ih =>
    cases hc : committed ins.pins m with
    | false => rw [commits,edges_succ_of_low hc,ih,commits]
    | true =>
      rw [commits,edges_succ_of_high hc,List.map_append,List.map_append,ih,List.map_singleton,
        List.map_singleton,delivered_of_committed s ins hc,← commits,answers_concat]

theorem published_of_lostLast (s : PowerUp) (ins : QuietTrace) {n : Nat}
    (h : LostLast ins.pins n) :
    (monitorAt (samples s.toRegs ins.pins) n).published = answers (commits ins.pins (n-2)) := by
  rw [published_eq,log_of_lostLast s.toRegs ins h,List.map_map,← map_delivered_committed s ins]
  rfl

theorem expectedMemory_of_lostLast (s : PowerUp) (ins : QuietTrace) {n : Nat}
    (h : LostLast ins.pins n) :
    (benchAt s.toRegs ins.pins n).env.scoreboard.expectedMemory =
      execAll s.memory (commits ins.pins (n-2)) := by
  rw [bench_env,env_scoreboard,published_of_lostLast s ins h,writeAll_expectedMemory,
    map_request_answers,s.memory_zero]
  rfl

theorem LostLast.mono {ins : Nat → Pins} {m n : Nat} (h : LostLast ins n) (hm : m ≤ n) :
    LostLast ins m := fun i j hij hj => h i j hij (by omega)

theorem matched_of_lostLast (s : PowerUp) (ins : QuietTrace) {n : Nat}
    (h : LostLast ins.pins n) : MatchedBefore s.toRegs ins.pins n where
  paired := by
    intro k hk o ho
    have hl := Fifo.log_succ (valid (samples s.toRegs ins.pins))
      (ready (samples s.toRegs ins.pins)) k
    have hm := log_of_lostLast s.toRegs ins (h.mono (show k+1 ≤ n by omega))
    rw [matching,hl] at hm
    have hmem : (o,k) ∈ (edges (committed ins.pins) (k+1-2)).map (fun j => (j,j+2)) := by
      rw [← hm]
      have hp : Fifo.popped (valid (samples s.toRegs ins.pins))
        (ready (samples s.toRegs ins.pins)) k = some o := ho
      simp [hp]
    obtain ⟨j,_,hj⟩ := List.mem_map.mp hmem
    simp only [Prod.mk.injEq] at hj
    refine ⟨?_,by omega⟩
    by_contra hr
    simp [poppedEdge,Fifo.popped,ready_samples,hr] at ho
  noReadFail := by
    rw [bench_env,env_scoreboard,published_of_lostLast s ins h]
    exact readFails_answers _
  memory := by
    intro k hk hn
    obtain ⟨m,rfl⟩ := Nat.exists_eq_add_of_le' hk
    rw [expectedMemory_of_lostLast s ins (h.mono hn),bench_dut,
      memory_succ s.toRegs ins.pins ins.rst_zero]
    rfl

theorem no_loss_of_paired (s : Regs) (ins : QuietTrace) {j : Nat}
    (hc : committed ins.pins j = true)
    (hp : ∀ o, poppedEdge s ins.pins (j+2) = some o → o+2 = j+2) :
    edges (lostAt ins.pins) j = [] := by
  have hf := fires_samples s ins (j+2)
  rw [delay_add,hc,← Fifo.popped_isSome,Option.isSome_iff_exists] at hf
  obtain ⟨o,ho⟩ := hf
  have hoj : o = j := by have := hp o ho; omega
  subst hoj
  have hl : (Fifo.after (valid (samples s ins.pins)) (ready (samples s ins.pins)) (o+3)).log[
      (Fifo.after (valid (samples s ins.pins)) (ready (samples s ins.pins)) (o+2)).log.length]? =
      some (o,o+2) := by
    rw [Fifo.log_succ,ho]
    simp
  have he := Fifo.log_getElem? hl
  have hn := fires_count s ins (o+2)
  rw [← Fifo.log_length,he,valid_samples,Nat.add_sub_cancel] at hn
  have hb := presented_count ins.pins o
  exact List.eq_nil_of_length_eq_zero (by omega)

/-- The monitor stays matched to the DUT exactly on the runs that lose the newest requests
only. -/
theorem monitor_matched_iff (s : PowerUp) (ins : QuietTrace) (n : Nat) :
    MatchedBefore s.toRegs ins.pins n ↔ LostLast ins.pins n := by
  constructor
  · intro h i j hij hj hl
    by_contra hc
    rw [Bool.not_eq_false] at hc
    have he := no_loss_of_paired s.toRegs ins hc (fun o ho => (h.paired (j+2) hj o ho).2)
    rw [edges_eq_nil.mp he i hij] at hl
    cases hl
  · exact matched_of_lostLast s ins

theorem killedWrite_unmatched :
    poppedEdge zeroPowerUp.toRegs killedWrite.pins 5 = some 1 ∧
    (benchAt zeroPowerUp.toRegs killedWrite.pins 7).env.scoreboard.verdicts =
      [.expectedWrite 0 (.known 1),.readFail 0 (.known 1) 0] ∧
    ¬ MatchedBefore zeroPowerUp.toRegs killedWrite.pins 7 := by
  refine ⟨by decide,by decide,fun h => ?_⟩
  have hf := h.noReadFail
  revert hf
  decide

end MemoryController
