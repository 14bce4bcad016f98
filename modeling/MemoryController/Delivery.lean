import MemoryController.Driver
import MemoryController.Resets

/-! From the sequencer to the scoreboard: every item arrives, checked, within three edges. -/

set_option autoImplicit false

namespace MemoryController
open Edges SequentialMemory

/-- What the scoreboard is to receive for a list of items. -/
def checkedItems (items : List Transaction) : List Transaction :=
  items.mapIdx (fun i tr =>
    { write := tr.write
      addr := tr.addr
      wdata := if tr.write then tr.wdata else .x
      rdata := if tr.write then .x
        else (lastWrite ((items.take i).map Transaction.request) tr.addr).getD 0 })

theorem checkedItems_eq (items : List Transaction) :
    checkedItems items = answers (items.map Transaction.request) := by
  apply List.ext_getElem?
  intro i
  simp only [checkedItems,answers,List.getElem?_mapIdx,List.getElem?_map,Option.map_map]
  cases hi : items[i]? with
  | none => rfl
  | some tr =>
    cases hw : tr.write <;>
      simp [Transaction.request,request,answerTo,hw,List.map_take]

/-- What the scoreboard is to report for them: every write, and every read with the last
data written before it. -/
def checkedVerdicts (items : List Transaction) : List Verdict :=
  items.mapIdx (fun i tr =>
    if tr.write then .expectedWrite tr.addr tr.wdata
    else .readPass tr.addr
      ((lastWrite ((items.take i).map Transaction.request) tr.addr).getD 0))

theorem checkedVerdicts_eq (items : List Transaction) :
    checkedVerdicts items = (checkedItems items).map Transaction.verdict := by
  apply List.ext_getElem?
  intro i
  simp only [checkedVerdicts,checkedItems,List.getElem?_mapIdx,List.getElem?_map,Option.map_map]
  cases items[i]? with
  | none => rfl
  | some tr => cases hw : tr.write <;> simp [Transaction.verdict,hw]

theorem accepted_of_driver (sq : Sequencer) (j : Nat) :
    accepted sq.trace.pins j = presented sq.trace.pins j := by
  cases j with
  | zero => rfl
  | succ j => simp [accepted,presented,trace_rst_of_pos sq (Nat.le_add_left 1 j)]

theorem committed_of_driver (sq : Sequencer) (j : Nat) :
    committed sq.trace.pins j = presented sq.trace.pins j := by
  rw [committed,accepted_of_driver,trace_rst_of_pos sq (Nat.le_add_left 1 j)]
  exact Bool.and_true _

theorem lostLast_of_driver (sq : Sequencer) (n : Nat) : LostLast sq.trace.pins n := by
  intro i j _ _ hl
  exfalso
  have hc := committed_of_driver sq i
  unfold committed accepted presented at hc
  simp only [lostAt,presented,rstAt,Bool.and_eq_true,Bool.or_eq_true] at hl
  rw [hl.1] at hc
  rcases hl.2 with hr | hr <;> simp [hr] at hc

theorem commits_of_driver (sq : Sequencer) (n : Nat) : commits sq.trace.pins n =
    (edges (presented sq.trace.pins) n).map (requestAt sq.trace.pins) := by
  rw [commits,edges_congr (fun j _ => committed_of_driver sq j)]

/-- At every edge the scoreboard has agreed with all that it was given. -/
theorem verdicts_of_driver (s : PowerUp) (sq : Sequencer) (n : Nat) :
    (benchAt s.toRegs sq.trace.pins n).env.scoreboard.verdicts =
      (benchAt s.toRegs sq.trace.pins n).env.monitor.published.map Transaction.verdict := by
  rw [bench_env,env_scoreboard,env_monitor,
    published_of_lostLast s sq.trace (lostLast_of_driver sq n),verdicts_answers]

section LastItem

variable (s : PowerUp) (sq : Sequencer) {L n : Nat}

theorem published_after_last (hL : lastItemDone sq L) (hn : L+4 ≤ n) :
    (benchAt s.toRegs sq.trace.pins n).env.monitor.published = checkedItems sq.items := by
  rw [bench_env,env_monitor,published_of_lostLast s sq.trace (lostLast_of_driver sq n),
    commits_of_driver,requests_after_last sq hL (by omega),checkedItems_eq]

theorem scoreboard_after_last (hL : lastItemDone sq L) (hn : L+4 ≤ n) :
    (benchAt s.toRegs sq.trace.pins n).env.scoreboard =
      Scoreboard.new.writeAll (answers (sq.items.map Transaction.request)) := by
  have hp := published_after_last s sq hL hn
  rw [bench_env,env_monitor] at hp
  rw [bench_env,env_scoreboard,hp,checkedItems_eq]

theorem verdicts_after_last (hL : lastItemDone sq L) (hn : L+4 ≤ n) :
    (benchAt s.toRegs sq.trace.pins n).env.scoreboard.verdicts = checkedVerdicts sq.items := by
  rw [scoreboard_after_last s sq hL hn,verdicts_answers,checkedVerdicts_eq,checkedItems_eq]

theorem inflightQ_after_last (hL : lastItemDone sq L) (hn : L+4 ≤ n) :
    (benchAt s.toRegs sq.trace.pins n).env.monitor.inflightQ = [] := by
  obtain ⟨m,rfl⟩ := Nat.exists_eq_add_of_le' (show 2 ≤ n by omega)
  have hq := inflightQ_of_no_reset s.toRegs sq.trace m (fun e he _ => trace_rst_of_pos sq he)
  have h0 := presented_after_last sq hL (show L+2 ≤ m by omega)
  have h1 := presented_after_last sq hL (show L+2 ≤ m+1 by omega)
  rw [hq]
  simp [h0,h1]

theorem pending_after_last (hL : lastItemDone sq L) (hn : L+3 ≤ n) :
    (benchAt s.toRegs sq.trace.pins n).dut.pending = false := by
  obtain ⟨m,rfl⟩ := Nat.exists_eq_add_of_le' (show 1 ≤ n by omega)
  have hv := presented_after_last sq hL (show L+2 ≤ m by omega)
  unfold presented at hv
  rw [bench_dut,pending_succ,accepted,hv]
  rfl

theorem memory_after_last (hL : lastItemDone sq L) (hn : L+3 ≤ n) :
    (benchAt s.toRegs sq.trace.pins n).dut.memory =
      execAll (fun _ => 0) (sq.items.map Transaction.request) := by
  obtain ⟨m,rfl⟩ := Nat.exists_eq_add_of_le' (show 1 ≤ n by omega)
  rw [bench_dut,memory_succ s.toRegs _ sq.trace.rst_zero,commits_of_driver,
    requests_after_last sq hL (by omega),s.memory_zero]

end LastItem

/-- Once the last item is done, three more edges drain the pipeline. -/
theorem end_to_end_delivery (s : PowerUp) (sq : Sequencer) (L c : Nat)
    (hL : lastItemDone sq L) (hc : 3 ≤ c) :
    let b := benchAt s.toRegs sq.trace.pins (L+c+1)
    b.env.monitor.published = checkedItems sq.items ∧
    b.env.scoreboard.readFails = 0 ∧
    b.env.monitor.inflightQ = [] ∧
    b.dut.pending = false ∧
    b.env.scoreboard.expectedMemory = b.dut.memory ∧
    ∀ a, b.dut.memory a = (lastWrite (sq.items.map Transaction.request) a).getD 0 := by
  have hn : L+4 ≤ L+c+1 := by omega
  have hm := memory_after_last s sq hL (show L+3 ≤ L+c+1 by omega)
  refine ⟨published_after_last s sq hL hn,?_,inflightQ_after_last s sq hL hn,
    pending_after_last s sq hL (by omega),?_,?_⟩
  · rw [scoreboard_after_last s sq hL hn]
    exact readFails_answers _
  · rw [scoreboard_after_last s sq hL hn,writeAll_expectedMemory,map_request_answers,hm]
    rfl
  · intro a
    rw [hm,execAll_apply]

def writeThenRead : Sequencer where
  items := [⟨true,5,.known 7,.x⟩,⟨false,5,.x,.x⟩]
  available k := k == 1 || k == 3

theorem writeThenRead_delivered :
    let b := benchAt zeroPowerUp.toRegs writeThenRead.trace.pins (waitIdle 3+1)
    b.env.monitor.published = checkedItems writeThenRead.items ∧
    b.env.scoreboard.readFails = 0 ∧
    b.env.monitor.inflightQ = [] :=
  have h := end_to_end_delivery zeroPowerUp writeThenRead 3 4 ⟨by decide,by decide⟩ (by decide)
  ⟨h.1,h.2.1,h.2.2.1⟩

end MemoryController
