import MemoryController.Coverage
import MemoryController.ReportSummary
import Mathlib.Data.List.FinRange

/-!
The four sequences and the tests that run them. `reset_test`, `write_read_test` and
`boundary_test` send fixed items, `memory_test` depends on its random draws.
-/

set_option autoImplicit false

namespace MemoryController
open Edges SequentialMemory

def writeItem (addr : Addr) (wdata : BitVec 32) : Transaction := ⟨true,addr,.known wdata,.x⟩

def readItem (addr : Addr) : Transaction := ⟨false,addr,.x,.x⟩

def writeReadSequence : List Transaction := [writeItem 10 0xAAAAAAAA,readItem 10]

def boundarySequence : List Transaction :=
  [writeItem 0 0xAAAAAAAA,readItem 0,writeItem 100 0xDDDDDDDD,readItem 100,
    writeItem 255 0xBBBBBBBB,readItem 255]

def resetSequence : List Transaction := [writeItem 5 0xCCCCCCCC,readItem 5]

/-- Address and data are drawn for each of the ten writes. A read back is constrained to the
address of its write and to a marker value on the unused `wdata`. -/
def memorySequence (draws : Fin 10 → Addr × BitVec 32) : List Transaction :=
  (List.finRange 10).map (fun i => writeItem (draws i).1 (draws i).2) ++
    (List.finRange 10).map (fun i => ⟨false,(draws i).1,.known 0xDEADBEEF,.x⟩)

/-- The tests of `regression.py` with the items they send. -/
def tests (draws : Fin 10 → Addr × BitVec 32) : List (String × List Transaction) :=
  [("memory_test",memorySequence draws),("write_read_test",writeReadSequence),
    ("boundary_test",boundarySequence),("reset_test",resetSequence)]

/-- Every read is of an address that an earlier item writes. -/
def readsWritten (items : List Transaction) : Bool :=
  (List.range items.length).all (fun i => (items[i]?).all (fun tr =>
    tr.write || (lastWrite ((items.take i).map Transaction.request) tr.addr).isSome))

theorem exists_latest {n : Nat} (p : Fin n → Bool) {i : Fin n} (hi : p i = true) :
    ∃ j, ((List.finRange n).filter p).getLast? = some j ∧ p j = true ∧
      ∀ k, j < k → p k = false := by
  have hs := (List.pairwise_lt_finRange n).filter p
  have hm : ∀ k, p k = true → k ∈ (List.finRange n).filter p := by simp
  rcases List.eq_nil_or_concat ((List.finRange n).filter p) with hn | ⟨l,j,hl⟩
  · have hi := hm i hi
    rw [hn] at hi
    cases hi
  · rw [List.concat_eq_append] at hl
    have hj : j ∈ (List.finRange n).filter p := by simp [hl]
    refine ⟨j,by simp [hl],(List.mem_filter.mp hj).2,?_⟩
    intro k hjk
    rw [← Bool.not_eq_true]
    intro hk
    have hk := hm k hk
    rw [hl] at hs hk
    rcases List.mem_append.mp hk with hk | hk
    · have hlt := (List.pairwise_append.mp hs).2.2 k hk j (List.mem_singleton_self j)
      omega
    · rw [List.mem_singleton.mp hk] at hjk
      omega

theorem memorySequence_requests (draws : Fin 10 → Addr × BitVec 32) :
    (memorySequence draws).map Transaction.request =
      (List.finRange 10).map (fun k => Request.write (draws k).1 (.known (draws k).2)) ++
        (List.finRange 10).map (fun k => Request.read (draws k).1) := by
  rw [memorySequence,List.map_append,List.map_map,List.map_map]
  rfl

theorem memorySequence_lastWrite (draws : Fin 10 → Addr × BitVec 32) (m : Nat) (a : Addr) :
    lastWrite (((memorySequence draws).map Transaction.request).take (10+m)) a =
      ((List.finRange 10).filter (fun k => decide ((draws k).1 = a))).getLast?.map
        (fun k => .known (draws k).2) := by
  rw [memorySequence_requests,List.take_append,List.take_of_length_le (by simp),
    lastWrite_append_reads]
  · exact lastWrite_map_write _ (fun k => (draws k).1) (fun k => Logic.known (draws k).2) a
  · intro q hq
    obtain ⟨k,_,rfl⟩ := List.mem_map.mp (List.mem_of_mem_take hq)
    rfl

theorem memorySequence_answer (draws : Fin 10 → Addr × BitVec 32) (i : Fin 10) :
    ∃ j, (draws j).1 = (draws i).1 ∧ (∀ k, j < k → (draws k).1 ≠ (draws i).1) ∧
      (checkedItems (memorySequence draws))[10+i.val]? =
        some ⟨false,(draws i).1,.x,.known (draws j).2⟩ := by
  obtain ⟨j,hl,hj,hlast⟩ := exists_latest (fun k => decide ((draws k).1 = (draws i).1))
    (decide_eq_true (rfl : (draws i).1 = _))
  refine ⟨j,of_decide_eq_true hj,fun k hk => of_decide_eq_false (hlast k hk),?_⟩
  have hg : ((memorySequence draws).map Transaction.request)[10+i.val]? =
      some (.read (draws i).1) := by
    rw [memorySequence_requests,List.getElem?_append_right (by simp)]
    simp
  rw [checkedItems_eq,answers,List.getElem?_mapIdx,hg,Option.map_some,answerTo,
    memorySequence_lastWrite,hl]
  rfl

/-- Whatever `memory_test` draws, the DUT answers each of its reads with the last of the
writes to that address, and the scoreboard passes it. -/
theorem memorySequence_read (s : PowerUp) (draws : Fin 10 → Addr × BitVec 32)
    (available : Nat → Bool) {L n : Nat}
    (hL : lastItemDone ⟨memorySequence draws,available⟩ L) (hn : waitIdle L ≤ n)
    (i : Fin 10) :
    let sq : Sequencer := ⟨memorySequence draws,available⟩
    let env := (benchAt s.toRegs sq.trace.pins n).env
    ∃ j, (draws j).1 = (draws i).1 ∧ (∀ k, j < k → (draws k).1 ≠ (draws i).1) ∧
      env.monitor.published[10+i.val]? = some ⟨false,(draws i).1,.x,.known (draws j).2⟩ ∧
      env.scoreboard.verdicts[10+i.val]? =
        some (.readPass (draws i).1 (.known (draws j).2)) := by
  rw [waitIdle_eq] at hn
  obtain ⟨j,hj,hlast,hc⟩ := memorySequence_answer draws i
  refine ⟨j,hj,hlast,?_,?_⟩
  · rw [published_after_last s _ hL hn]
    exact hc
  · rw [verdicts_after_last s _ hL hn,checkedVerdicts_eq,List.getElem?_map,hc]
    rfl

/-- All ten writes go to address 3, so the first read sees the last of them. -/
theorem sameAddress_read :
    let sq : Sequencer := ⟨memorySequence (fun k => (3,BitVec.ofNat 32 k)),fun _ => true⟩
    (benchAt zeroPowerUp.toRegs sq.trace.pins 25).env.scoreboard.verdicts[10]? =
      some (.readPass 3 (.known 9)) := by
  obtain ⟨j,_,hlast,_,hv⟩ := memorySequence_read zeroPowerUp
    (fun k => (3,BitVec.ofNat 32 k)) (fun _ => true) (L := 20) (n := 25)
    ⟨by decide,by decide⟩ (by decide) 0
  have hj : j = 9 := by
    by_contra hne
    exact hlast 9 (by omega) rfl
  rw [hj] at hv
  exact hv

theorem memorySequence_readsWritten (draws : Fin 10 → Addr × BitVec 32) :
    readsWritten (memorySequence draws) = true := by
  rw [readsWritten,List.all_eq_true]
  intro i hi
  have hi : i < 20 := by simpa [memorySequence] using hi
  by_cases hw : i < 10
  · have hg : (memorySequence draws)[i]? =
        some (writeItem (draws ⟨i,hw⟩).1 (draws ⟨i,hw⟩).2) := by
      rw [memorySequence,List.getElem?_append_left (by simpa using hw)]
      simp [hw]
    simp [hg,writeItem]
  · obtain ⟨m,rfl⟩ := Nat.exists_eq_add_of_le (Nat.not_lt.mp hw)
    have hm : m < 10 := by omega
    have hg : (memorySequence draws)[10+m]? =
        some ⟨false,(draws ⟨m,hm⟩).1,.known 0xDEADBEEF,.x⟩ := by
      rw [memorySequence,List.getElem?_append_right (by simp)]
      simp [hm]
    obtain ⟨j,hl,_⟩ := exists_latest (fun k => decide ((draws k).1 = (draws ⟨m,hm⟩).1))
      (decide_eq_true (rfl : (draws ⟨m,hm⟩).1 = _))
    simp only [hg,Option.all_some,Bool.false_or,List.map_take,memorySequence_lastWrite,hl]
    rfl

theorem tests_readsWritten (draws : Fin 10 → Addr × BitVec 32) :
    ∀ t ∈ tests draws, readsWritten t.2 = true := by
  simp only [tests,List.forall_mem_cons,List.not_mem_nil,memorySequence_readsWritten]
  exact ⟨trivial,by decide,by decide,by decide,by simp⟩

theorem boundarySequence_bins (b : Bin) : 0 < boundarySequence.countP (inBin b) := by
  cases b <;> decide

/-- `boundary_test` reaches every bin, whatever the gaps between its items. -/
theorem boundary_covers (available : Nat → Bool) {L n : Nat}
    (hL : lastItemDone ⟨boundarySequence,available⟩ L) (hn : waitIdle L ≤ n) (b : Bin) :
    0 < coverageAt (Sequencer.trace ⟨boundarySequence,available⟩).pins n b := by
  rw [waitIdle_eq] at hn
  rw [coverageAt_eq,requests_after_last _ hL (by omega),← countP_inBin]
  exact boundarySequence_bins b

/-- An idle cycle after each item puts the last one at edge 12. -/
theorem spacedBoundary_covers :
    let sq : Sequencer := ⟨boundarySequence,fun k => k % 2 == 0⟩
    0 < coverageAt sq.trace.pins 16 .low ∧ 0 < coverageAt sq.trace.pins 16 .medium ∧
      0 < coverageAt sq.trace.pins 16 .high :=
  have h := boundary_covers (fun k => k % 2 == 0) (L := 12) (n := 16) ⟨by decide,by decide⟩
    (by decide)
  ⟨h .low,h .medium,h .high⟩

/-- A test that has run to the end of `wait_idle`. READ FAIL is the only report of severity
error in the environment; what else the simulation reports and returns is arbitrary. -/
structure TestRun where
  name : String
  powerUp : PowerUp
  sequencer : Sequencer
  lastEdge : Nat
  done : lastItemDone sequencer lastEdge
  log : MarkerFree
  header : Header
  tail : MarkerFree
  returncode : Int
  infos : Nat
  warnings : Nat
  fatals : Nat

def TestRun.scoreboard (t : TestRun) : Scoreboard :=
  (benchAt t.powerUp.toRegs t.sequencer.trace.pins (waitIdle t.lastEdge+1)).env.scoreboard

def TestRun.counts (t : TestRun) : Severity → Nat
  | .info => t.infos
  | .warning => t.warnings
  | .error => t.scoreboard.readFails
  | .fatal => t.fatals

def TestRun.simulation (t : TestRun) : Simulation :=
  ⟨t.name,t.returncode,.summarized t.log t.header t.counts t.tail⟩

theorem testRun_readFails (t : TestRun) : t.scoreboard.readFails = 0 := by
  unfold TestRun.scoreboard
  rw [scoreboard_after_last t.powerUp t.sequencer t.done (by rw [waitIdle_eq]; omega)]
  exact readFails_answers _

theorem testRun_bad (t : TestRun) :
    t.simulation.bad = (t.returncode != 0 || t.fatals != 0) := by
  simp [Simulation.bad,TestRun.simulation,TestRun.counts,testRun_readFails]

/-- Whatever the tests send and however their items are spaced, the script blames a test that
has run to its end for its return code or a fatal report only, and never for the DUT. -/
theorem regression_failures (ts : List TestRun) :
    let failed := (ts.filter (fun t => t.returncode != 0 || t.fatals != 0)).map TestRun.name
    (regression (ts.map (fun t => t.simulation.result))).1.failed = failed ∧
    (regression (ts.map (fun t => t.simulation.result))).2 = if failed = [] then 0 else 1 := by
  have hf : ((ts.map (fun t => t.simulation.result)).filter (fun e => testFailed e.2)).map
      Prod.fst = (ts.filter (fun t => t.returncode != 0 || t.fatals != 0)).map TestRun.name := by
    rw [List.filter_map,List.map_map]
    congr 1
    apply List.filter_congr
    intro t _
    exact (testFailed_result t.simulation).trans (testRun_bad t)
  rw [regression_eq,hf]
  exact ⟨rfl,rfl⟩

/-- `write_read_test` with an idle cycle before each of its items. -/
def writeReadRun : TestRun where
  name := "write_read_test"
  powerUp := zeroPowerUp
  sequencer := ⟨writeReadSequence,fun k => k == 2 || k == 4⟩
  lastEdge := 4
  done := ⟨by decide,by decide⟩
  log := emptyText
  header := summaryHeader
  tail := emptyText
  returncode := 0
  infos := 6
  warnings := 0
  fatals := 0

theorem writeReadRun_passed : (regression [writeReadRun.simulation.result]).2 = 0 :=
  (regression_failures [writeReadRun]).2

end MemoryController
