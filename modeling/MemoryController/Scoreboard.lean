import MemoryController.Signals

/-! The class `memory_scoreboard`: a reference memory and one report per transaction. -/

set_option autoImplicit false

namespace MemoryController
open SequentialMemory

/-- The three messages of `memory_scoreboard::write`; `readFail` is the `uvm_error`. -/
inductive Verdict where
  | expectedWrite (addr : Addr) (data : Word)
  | readPass (addr : Addr) (data : Word)
  | readFail (addr : Addr) (expected actual : Word)
  deriving DecidableEq, Repr

def Verdict.isReadFail : Verdict → Bool
  | .readFail _ _ _ => true
  | _ => false

def scoreboardWrite (expectedMemory : Addr → Word) (tr : Transaction) :
    (Addr → Word) × Verdict :=
  if tr.write then
    (Function.update expectedMemory tr.addr tr.wdata,.expectedWrite tr.addr tr.wdata)
  else if (expectedMemory tr.addr).caseEq tr.rdata then
    (expectedMemory,.readPass tr.addr tr.rdata)
  else (expectedMemory,.readFail tr.addr (expectedMemory tr.addr) tr.rdata)

structure Scoreboard where
  expectedMemory : Addr → Word
  verdicts : List Verdict

def Scoreboard.new : Scoreboard := ⟨fun _ => 0,[]⟩

def Scoreboard.write (sb : Scoreboard) (tr : Transaction) : Scoreboard :=
  let (m,v) := scoreboardWrite sb.expectedMemory tr
  ⟨m,sb.verdicts ++ [v]⟩

def Scoreboard.writeAll (sb : Scoreboard) (trs : List Transaction) : Scoreboard :=
  trs.foldl Scoreboard.write sb

def Scoreboard.readFails (sb : Scoreboard) : Nat := sb.verdicts.countP Verdict.isReadFail

def mismatch (earlier : List (Request Addr Word)) (tr : Transaction) : Bool :=
  !tr.write && tr.rdata != (lastWrite earlier tr.addr).getD 0

/-- How many of `trs` mismatch, the `i`-th one against the first `i` requests of `rs`. -/
def mismatches (rs : List (Request Addr Word)) (trs : List Transaction) : Nat :=
  ((List.range trs.length).filter (fun i => (trs[i]?).any (mismatch (rs.take i)))).length

def answerTo (earlier : List (Request Addr Word)) : Request Addr Word → Transaction
  | .read a => ⟨false,a,.x,(lastWrite earlier a).getD 0⟩
  | .write a d => ⟨true,a,d,.x⟩

def answers (rs : List (Request Addr Word)) : List Transaction :=
  rs.mapIdx (fun i r => answerTo (rs.take i) r)

/-- The message for a transaction that the scoreboard agrees with. -/
def Transaction.verdict (tr : Transaction) : Verdict :=
  if tr.write then .expectedWrite tr.addr tr.wdata else .readPass tr.addr tr.rdata

theorem scoreboardWrite_memory (m : Addr → Word) (tr : Transaction) :
    (scoreboardWrite m tr).1 = exec m tr.request := by
  cases hw : tr.write with
  | true => simp [scoreboardWrite,Transaction.request,request,hw,exec]
  | false =>
    cases hc : (m tr.addr).caseEq tr.rdata <;>
      simp [scoreboardWrite,Transaction.request,request,hw,hc,exec]

theorem scoreboardWrite_isReadFail (m : Addr → Word) (tr : Transaction) :
    (scoreboardWrite m tr).2.isReadFail = (!tr.write && tr.rdata != m tr.addr) := by
  cases hw : tr.write with
  | true => simp [scoreboardWrite,hw,Verdict.isReadFail]
  | false =>
    by_cases hc : m tr.addr = tr.rdata
    · simp [scoreboardWrite,hw,hc,Verdict.isReadFail]
    · have he : (m tr.addr).caseEq tr.rdata = false := by
        rw [Bool.eq_false_iff]
        exact fun h => hc ((Logic.caseEq_iff _ _).mp h)
      simp [scoreboardWrite,hw,he,Verdict.isReadFail,Ne.symm hc]

theorem writeAll_concat (sb : Scoreboard) (trs : List Transaction) (tr : Transaction) :
    sb.writeAll (trs ++ [tr]) = (sb.writeAll trs).write tr := by simp [Scoreboard.writeAll]

theorem writeAll_expectedMemory (sb : Scoreboard) (trs : List Transaction) :
    (sb.writeAll trs).expectedMemory =
      execAll sb.expectedMemory (trs.map Transaction.request) := by
  induction trs using List.reverseRecOn with
  | nil => rfl
  | append_singleton trs tr ih =>
    rw [writeAll_concat,List.map_append,List.map_singleton,execAll_concat,← ih]
    exact scoreboardWrite_memory _ tr

theorem expectedMemory_apply (trs : List Transaction) (a : Addr) :
    (Scoreboard.new.writeAll trs).expectedMemory a =
      (lastWrite (trs.map Transaction.request) a).getD 0 := by
  rw [writeAll_expectedMemory,execAll_apply]
  rfl

theorem readFails_write (sb : Scoreboard) (tr : Transaction) :
    (sb.write tr).readFails =
      sb.readFails + if !tr.write && tr.rdata != sb.expectedMemory tr.addr then 1 else 0 := by
  simp [Scoreboard.readFails,Scoreboard.write,scoreboardWrite_isReadFail]

theorem mismatches_extend {rs qs : List (Request Addr Word)} {trs : List Transaction}
    (h : rs <+: qs) (hl : trs.length ≤ rs.length) : mismatches qs trs = mismatches rs trs := by
  obtain ⟨t,rfl⟩ := h
  apply congrArg List.length
  apply List.filter_congr
  intro i hi
  have hlt := List.mem_range.mp hi
  rw [List.take_append_of_le_length (by omega)]

theorem mismatches_concat (rs : List (Request Addr Word)) (trs : List Transaction)
    (tr : Transaction) : mismatches rs (trs ++ [tr]) =
      mismatches rs trs + if mismatch (rs.take trs.length) tr then 1 else 0 := by
  have hf : (List.range trs.length).filter (fun i => ((trs ++ [tr])[i]?).any
        (mismatch (rs.take i))) =
      (List.range trs.length).filter (fun i => (trs[i]?).any (mismatch (rs.take i))) := by
    apply List.filter_congr
    intro i hi
    rw [List.getElem?_append_left (List.mem_range.mp hi)]
  rw [mismatches,List.length_append,List.length_singleton,List.range_succ,List.filter_append,
    hf,List.length_append,mismatches]
  simp [List.filter_cons]
  split <;> rfl

/-- The scoreboard reports READ FAIL exactly for the mismatching reads. -/
theorem readFails_writeAll (trs : List Transaction) :
    (Scoreboard.new.writeAll trs).readFails = mismatches (trs.map Transaction.request) trs := by
  induction trs using List.reverseRecOn with
  | nil => rfl
  | append_singleton trs tr ih =>
    have ht : ((trs ++ [tr]).map Transaction.request).take trs.length =
        trs.map Transaction.request := by
      rw [List.map_append,List.take_append_of_le_length (by simp)]
      simp
    have he : mismatches ((trs ++ [tr]).map Transaction.request) trs =
        mismatches (trs.map Transaction.request) trs :=
      mismatches_extend (by simp) (by simp)
    rw [writeAll_concat,readFails_write,mismatches_concat,ih,expectedMemory_apply,ht,he]
    rfl

@[simp] theorem request_answerTo (earlier : List (Request Addr Word)) (r : Request Addr Word) :
    (answerTo earlier r).request = r := by cases r <;> rfl

theorem mismatch_answerTo (earlier : List (Request Addr Word)) (r : Request Addr Word) :
    mismatch earlier (answerTo earlier r) = false := by cases r <;> simp [mismatch,answerTo]

theorem answers_concat (rs : List (Request Addr Word)) (r : Request Addr Word) :
    answers (rs ++ [r]) = answers rs ++ [answerTo rs r] := by
  rw [answers,List.mapIdx_concat,List.take_left']
  · congr 1
    apply List.ext_getElem?
    intro i
    simp only [answers,List.getElem?_mapIdx]
    cases hr : rs[i]? with
    | none => rfl
    | some q =>
      have hlt := (List.getElem?_eq_some_iff.mp hr).1
      rw [List.take_append_of_le_length (by omega)]
  · rfl

@[simp] theorem answers_length (rs : List (Request Addr Word)) :
    (answers rs).length = rs.length := by simp [answers]

theorem map_request_answers (rs : List (Request Addr Word)) :
    (answers rs).map Transaction.request = rs := by
  induction rs using List.reverseRecOn with
  | nil => rfl
  | append_singleton rs r ih => simp [answers_concat,ih]

/-- The scoreboard agrees with every answer, and says so once for each. -/
theorem verdicts_answers (rs : List (Request Addr Word)) :
    (Scoreboard.new.writeAll (answers rs)).verdicts =
      (answers rs).map Transaction.verdict := by
  induction rs using List.reverseRecOn with
  | nil => rfl
  | append_singleton rs r ih =>
    rw [answers_concat,writeAll_concat,List.map_append,← ih]
    have hm := expectedMemory_apply (answers rs)
    rw [map_request_answers] at hm
    cases r with
    | read a => simp [Scoreboard.write,scoreboardWrite,answerTo,Transaction.verdict,hm]
    | write a d => simp [Scoreboard.write,scoreboardWrite,answerTo,Transaction.verdict]

theorem readFails_answers (rs : List (Request Addr Word)) :
    (Scoreboard.new.writeAll (answers rs)).readFails = 0 := by
  rw [readFails_writeAll,map_request_answers]
  induction rs using List.reverseRecOn with
  | nil => rfl
  | append_singleton rs r ih =>
    have he : mismatches (rs ++ [r]) (answers rs) = mismatches rs (answers rs) :=
      mismatches_extend (by simp) (by simp)
    rw [answers_concat,mismatches_concat,he,ih,answers_length,List.take_left']
    · simp [mismatch_answerTo]
    · rfl

end MemoryController
