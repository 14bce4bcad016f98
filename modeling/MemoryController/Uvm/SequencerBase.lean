import MemoryController.ReportSummary
import Mathlib.Logic.Function.Basic

/-!
The arbiter of `uvm_sequencer_base` and the request FIFO of `uvm_sequencer`. Sequences are
numbered by instance, and each has one process, which makes all its requests.
-/

set_option autoImplicit false

namespace MemoryController.Uvm

structure ReportMessage where
  severity : Severity
  id : String
  message : String
  deriving DecidableEq

/-- `SEQ_TYPE_REQ` and `SEQ_TYPE_LOCK`. -/
inductive SeqReqType where
  | req | lock
  deriving DecidableEq, Repr

structure SequenceRequest where
  sequenceId : Nat
  requestId : Nat
  itemPriority : Int32
  request : SeqReqType
  sequencePtr : Nat
  deriving DecidableEq, Repr

structure SequenceItem (α : Type) where
  parentSequence : Nat
  sequenceId : Int
  transactionId : Int
  payload : α
  deriving DecidableEq, Repr

/-- `user` holds the override of `user_priority_arbitration`. -/
inductive ArbMode where
  | fifo | weighted | random | strictFifo | strictRandom
  | user (arbitration : List Nat → Nat)

def ArbMode.isFifo : ArbMode → Bool
  | .fifo => true
  | _ => false

/-- `parents` is the chain that `get_parent_sequence` walks up, nearest first. -/
structure SequenceTree where
  parents : Nat → List Nat
  priority : Nat → Int32
  fullName : Nat → String

/-- The sequences as the sequencer sees them at one moment. -/
structure Sequences extends SequenceTree where
  killed : Nat → Bool
  finished : Nat → Bool

structure UvmSequencer (α : Type) where
  fullName : String
  arbitration : ArbMode
  arbSequenceQ : List SequenceRequest
  arbCompleted : List Nat
  lockList : List Nat
  regSequences : Nat → Option Nat
  sqrSeqIds : Nat → Option Nat
  lockArbSize : Int
  requestId : Nat
  nextSequenceId : Nat
  waitForItemSequenceId : Int
  waitForItemTransactionId : Int
  reqFifo : List (SequenceItem α)
  sequenceItemRequested : Bool
  getNextItemCalled : Bool
  numReqsSent : Nat
  reports : List ReportMessage

def UvmSequencer.new (α : Type) (fullName : String) (arbitration : ArbMode) :
    UvmSequencer α where
  fullName := fullName
  arbitration := arbitration
  arbSequenceQ := []
  arbCompleted := []
  lockList := []
  regSequences _ := none
  sqrSeqIds _ := none
  lockArbSize := -1
  requestId := 0
  nextSequenceId := 1
  waitForItemSequenceId := 0
  waitForItemTransactionId := 0
  reqFifo := []
  sequenceItemRequested := false
  getNextItemCalled := false
  numReqsSent := 0
  reports := []

def SequenceTree.isChild (t : SequenceTree) (parent child : Nat) : Bool :=
  (t.parents child).contains parent

namespace UvmSequencer

variable {α : Type}

def report (q : UvmSequencer α) (severity : Severity) (id message : String) :
    UvmSequencer α :=
  { q with reports := q.reports ++ [⟨severity,id,message⟩] }

def updateLists (q : UvmSequencer α) : UvmSequencer α :=
  { q with lockArbSize := q.lockArbSize+1 }

def setArbitrationCompleted (q : UvmSequencer α) (requestId : Nat) : UvmSequencer α :=
  { q with arbCompleted := requestId :: q.arbCompleted }

def isBlocked (q : UvmSequencer α) (t : SequenceTree) (sequencePtr : Nat) : Bool :=
  q.lockList.any (fun l => l != sequencePtr && !t.isChild l sequencePtr)

/-- The identifier of a sequence at this sequencer, `-1` when it has none. -/
def getSqrSequenceId (q : UvmSequencer α) (sequencePtr : Nat) : Int :=
  match q.sqrSeqIds sequencePtr with
  | some i => i
  | none => -1

def registerSequence (q : UvmSequencer α) (sequencePtr : Nat) : UvmSequencer α × Nat :=
  match q.sqrSeqIds sequencePtr with
  | some i => (q,i)
  | none =>
    ({ q with
        sqrSeqIds := Function.update q.sqrSeqIds sequencePtr (some q.nextSequenceId)
        regSequences := Function.update q.regSequences q.nextSequenceId (some sequencePtr)
        nextSequenceId := q.nextSequenceId+1 },q.nextSequenceId)

def unregisterSequence (q : UvmSequencer α) (sequenceId : Option Nat) : UvmSequencer α :=
  match sequenceId with
  | some i => { q with regSequences := Function.update q.regSequences i none }
  | none => q

def ofSequence (q : UvmSequencer α) (t : SequenceTree) (sequencePtr : Nat)
    (r : SequenceRequest) : Bool :=
  q.sqrSeqIds sequencePtr == some r.sequenceId || t.isChild sequencePtr r.sequencePtr

def seqfinerrRequest (ss : Sequences) (parent child : Nat) : ReportMessage :=
  ⟨.error,"SEQFINERR","Parent sequence '" ++ ss.fullName parent ++ "' should not finish " ++
    "before all items from itself and items from descendent sequences are processed.  " ++
    "The item request from the sequence '" ++ ss.fullName child ++ "' is being removed."⟩

def seqfinerrLock (ss : Sequences) (parent child : Nat) : ReportMessage :=
  ⟨.error,"SEQFINERR","Parent sequence '" ++ ss.fullName parent ++ "' should not finish " ++
    "before locks from itself and descedent sequences are removed.  The lock held by the " ++
    "child sequence '" ++ ss.fullName child ++ "' is being removed."⟩

/-- Each of the two loops deletes the entries of the sequence and of its children, with one
`m_update_lists` for each, and one error for each when the sequence has finished. -/
def removeSequenceFromQueues (q : UvmSequencer α) (ss : Sequences) (sequencePtr : Nat) :
    UvmSequencer α :=
  let mine := q.ofSequence ss.toSequenceTree sequencePtr
  let held := fun l => l == sequencePtr || ss.isChild sequencePtr l
  let requests := q.arbSequenceQ.filter mine
  let locks := q.lockList.filter held
  let errors := if ss.finished sequencePtr then
      requests.map (fun r => seqfinerrRequest ss sequencePtr r.sequencePtr) ++
        locks.map (seqfinerrLock ss sequencePtr)
    else []
  ({ q with
      arbSequenceQ := q.arbSequenceQ.filter (fun r => !mine r)
      lockList := q.lockList.filter (fun l => !held l)
      lockArbSize := q.lockArbSize + requests.length + locks.length
      reports := q.reports ++ errors }).unregisterSequence (q.sqrSeqIds sequencePtr)

def seqlckzmb (q : UvmSequencer α) (ss : Sequences) (sequencePtr : Nat) : ReportMessage :=
  ⟨.error,"SEQLCKZMB","The task responsible for requesting a lock on sequencer '" ++
    q.fullName ++ "' for sequence '" ++ ss.fullName sequencePtr ++ "' has been killed, " ++
    "to avoid a deadlock the sequence will be removed from the arbitration queues"⟩

def seqreqzmb (q : UvmSequencer α) (ss : Sequences) (sequencePtr : Nat) : ReportMessage :=
  ⟨.error,"SEQREQZMB","The task responsible for requesting a wait_for_grant on sequencer '" ++
    q.fullName ++ "' for sequence '" ++ ss.fullName sequencePtr ++ "' has been killed, " ++
    "to avoid a deadlock the sequence will be removed from the arbitration queues"⟩

def removeZombie (ss : Sequences) (message : UvmSequencer α → Sequences → Nat → ReportMessage)
    (q : UvmSequencer α) (r : SequenceRequest) : UvmSequencer α :=
  removeSequenceFromQueues
    { q with reports := q.reports ++ [message q ss r.sequencePtr] } ss r.sequencePtr

def lockZombie (ss : Sequences) (r : SequenceRequest) : Bool :=
  r.request == .lock && ss.killed r.sequencePtr

def lockable (q : UvmSequencer α) (t : SequenceTree) (r : SequenceRequest) : Bool :=
  r.request == .lock && !q.isBlocked t r.sequencePtr

/-- Deletes the request at position `i` and tells its process that it is granted. -/
def grantAt (q : UvmSequencer α) (i : Nat) (r : SequenceRequest) : UvmSequencer α :=
  updateLists
    { q.setArbitrationCompleted r.requestId with arbSequenceQ := q.arbSequenceQ.eraseIdx i }

def grantLockAt (q : UvmSequencer α) (i : Nat) (r : SequenceRequest) : UvmSequencer α :=
  { q with lockList := q.lockList ++ [r.sequencePtr] }.grantAt i r

/-- Grants the first lock request that is not blocked, if any, and no other. -/
def grantQueuedLocks (q : UvmSequencer α) (ss : Sequences) : UvmSequencer α :=
  let q := (q.arbSequenceQ.filter (lockZombie ss)).foldl (removeZombie ss seqlckzmb) q
  match q.arbSequenceQ.findIdx? (q.lockable ss.toSequenceTree) with
  | none => q
  | some i =>
    match q.arbSequenceQ[i]? with
    | none => q
    | some r => q.grantLockAt i r

/-- `q'` is `q` without some requests and locks: those of sequences that are gone, and those
of their children. -/
structure Trimmed (t : SequenceTree) (gone : Nat → Prop) (q q' : UvmSequencer α) : Prop where
  arb : List.Sublist q'.arbSequenceQ q.arbSequenceQ
  locks : List.Sublist q'.lockList q.lockList
  size : q.lockArbSize ≤ q'.lockArbSize
  dropped : ∀ r ∈ q.arbSequenceQ, r ∉ q'.arbSequenceQ →
    ∃ s, gone s ∧ q.ofSequence t s r = true
  released : ∀ l ∈ q.lockList, l ∉ q'.lockList → ∃ s, gone s ∧ (l = s ∨ t.isChild s l = true)
  registered : ∀ i, q'.regSequences i = q.regSequences i ∨ q'.regSequences i = none ∧
    ∃ s, gone s ∧ q.sqrSeqIds s = some i ∧ (∀ r ∈ q'.arbSequenceQ, r.sequenceId ≠ i) ∧
      s ∉ q'.lockList
  rest : q' = { q with
    arbSequenceQ := q'.arbSequenceQ
    lockList := q'.lockList
    lockArbSize := q'.lockArbSize
    regSequences := q'.regSequences
    reports := q'.reports }

section Trimmed

variable {t : SequenceTree} {gone : Nat → Prop}

theorem trimmed_reports (q : UvmSequencer α) (messages : List ReportMessage) :
    Trimmed t gone q { q with reports := messages } :=
  ⟨List.Sublist.refl _,List.Sublist.refl _,Int.le_refl _,fun _ hr hn => absurd hr hn,
    fun _ hl hn => absurd hl hn,fun _ => Or.inl rfl,rfl⟩

theorem trimmed_refl (q : UvmSequencer α) : Trimmed t gone q q := trimmed_reports q q.reports

theorem Trimmed.sqrSeqIds {q q' : UvmSequencer α} (h : Trimmed t gone q q') :
    q'.sqrSeqIds = q.sqrSeqIds := by rw [h.rest]

theorem trimmed_trans {q q' q'' : UvmSequencer α} (h : Trimmed t gone q q')
    (h' : Trimmed t gone q' q'') : Trimmed t gone q q'' := by
  refine ⟨h'.arb.trans h.arb,h'.locks.trans h.locks,Int.le_trans h.size h'.size,?_,?_,?_,?_⟩
  · intro r hr hn
    by_cases hr' : r ∈ q'.arbSequenceQ
    · have hd := h'.dropped r hr' hn
      unfold ofSequence at hd ⊢
      rw [h.sqrSeqIds] at hd
      exact hd
    · exact h.dropped r hr hr'
  · intro l hl hn
    by_cases hl' : l ∈ q'.lockList
    · exact h'.released l hl' hn
    · exact h.released l hl hl'
  · intro i
    rcases h'.registered i with he | ⟨he,s,hs,hi,hr⟩
    · rcases h.registered i with he' | ⟨he',s,hs,hi,hr,hl⟩
      · exact Or.inl (he.trans he')
      · exact Or.inr ⟨he.trans he',s,hs,hi,fun r hr' => hr r (h'.arb.mem hr'),
          fun hl' => hl (h'.locks.mem hl')⟩
    · rw [h.sqrSeqIds] at hi
      exact Or.inr ⟨he,s,hs,hi,hr⟩
  · have hr := h'.rest
    rw [h.rest] at hr
    exact hr

theorem trimmed_removeSequenceFromQueues (gone : Nat → Prop) (q : UvmSequencer α)
    (ss : Sequences) {s : Nat} (hs : gone s) :
    Trimmed ss.toSequenceTree gone q (q.removeSequenceFromQueues ss s) := by
  have hi : ∀ p : UvmSequencer α, ∀ i, p.unregisterSequence i =
      { p with regSequences := (p.unregisterSequence i).regSequences } := by
    intro p i
    cases i <;> rfl
  unfold removeSequenceFromQueues
  rw [hi]
  refine ⟨List.filter_sublist,List.filter_sublist,?_,?_,?_,?_,rfl⟩
  · change q.lockArbSize ≤ q.lockArbSize + _ + _
    omega
  · intro r hr hn
    refine ⟨s,hs,?_⟩
    simpa [hr] using hn
  · intro l hl hn
    refine ⟨s,hs,?_⟩
    have hc : ¬ l = s → ss.isChild s l = true := by simpa [hl] using hn
    by_cases he : l = s
    · exact Or.inl he
    · exact Or.inr (hc he)
  · intro i
    cases hq : q.sqrSeqIds s with
    | none => exact Or.inl rfl
    | some j =>
      by_cases hij : i = j
      · subst hij
        right
        refine ⟨by simp [unregisterSequence],s,hs,hq,?_,by simp⟩
        intro r hr hid
        simp [ofSequence,hq,hid] at hr
      · left
        simp [unregisterSequence,hij]

theorem trimmed_removeZombie {ss : Sequences}
    (message : UvmSequencer α → Sequences → Nat → ReportMessage) (q : UvmSequencer α)
    {r : SequenceRequest} (hr : gone r.sequencePtr) :
    Trimmed ss.toSequenceTree gone q (removeZombie ss message q r) :=
  trimmed_trans (trimmed_reports q (q.reports ++ [message q ss r.sequencePtr]))
    (trimmed_removeSequenceFromQueues gone _ ss hr)

theorem trimmed_removeZombies {ss : Sequences}
    (message : UvmSequencer α → Sequences → Nat → ReportMessage) (q : UvmSequencer α)
    {rs : List SequenceRequest} (hr : ∀ r ∈ rs, gone r.sequencePtr) :
    Trimmed ss.toSequenceTree gone q (rs.foldl (removeZombie ss message) q) := by
  induction rs generalizing q with
  | nil => exact trimmed_refl q
  | cons r rs ih =>
    exact trimmed_trans (trimmed_removeZombie message q (hr r List.mem_cons_self))
      (ih _ (fun r' hr' => hr r' (List.mem_cons_of_mem r hr')))

end Trimmed

/-- The processes that are dead. -/
def Dead (ss : Sequences) (s : Nat) : Prop := ss.killed s = true

/-- All that one call can do: delete what is dead, then grant at most one lock. -/
theorem grantQueuedLocks_cases (q : UvmSequencer α) (ss : Sequences) :
    ∃ q', Trimmed ss.toSequenceTree (Dead ss) q q' ∧
      ((q.grantQueuedLocks ss = q' ∧
        ∀ r ∈ q'.arbSequenceQ, q'.lockable ss.toSequenceTree r = false) ∨
      ∃ i r, q'.arbSequenceQ[i]? = some r ∧ q'.lockable ss.toSequenceTree r = true ∧
        q.grantQueuedLocks ss = q'.grantLockAt i r) := by
  have hz : ∀ r ∈ q.arbSequenceQ.filter (lockZombie ss), Dead ss r.sequencePtr := by
    intro r hr
    have hz := (List.mem_filter.mp hr).2
    unfold lockZombie at hz
    exact (Bool.and_eq_true_iff.mp hz).2
  refine ⟨_,trimmed_removeZombies seqlckzmb q hz,?_⟩
  unfold grantQueuedLocks
  generalize (q.arbSequenceQ.filter (lockZombie ss)).foldl (removeZombie ss seqlckzmb) q = q'
  cases hf : q'.arbSequenceQ.findIdx? (q'.lockable ss.toSequenceTree) with
  | none =>
    left
    simp only [hf,true_and]
    exact List.findIdx?_eq_none_iff.mp hf
  | some i =>
    obtain ⟨hi,hl,_⟩ := List.findIdx?_eq_some_iff_getElem.mp hf
    right
    refine ⟨i,q'.arbSequenceQ[i],List.getElem?_eq_getElem hi,hl,?_⟩
    simp only [hf,List.getElem?_eq_getElem hi]

/-- `q'` is `q` trimmed, with at most one lock granted after that. -/
def Settles (t : SequenceTree) (gone : Nat → Prop) (q q' : UvmSequencer α) : Prop :=
  ∃ p, Trimmed t gone q p ∧ (q' = p ∨
    ∃ i r, p.arbSequenceQ[i]? = some r ∧ r.request = .lock ∧
      p.isBlocked t r.sequencePtr = false ∧ q' = p.grantLockAt i r)

theorem settles_grantQueuedLocks (q : UvmSequencer α) (ss : Sequences) :
    Settles ss.toSequenceTree (Dead ss) q (q.grantQueuedLocks ss) := by
  obtain ⟨p,ht,⟨hq,_⟩ | ⟨i,r,hr,hl,hq⟩⟩ := grantQueuedLocks_cases q ss
  · exact ⟨p,ht,Or.inl hq⟩
  · simp only [lockable,Bool.and_eq_true,beq_iff_eq,Bool.not_eq_true'] at hl
    exact ⟨p,ht,Or.inr ⟨i,r,hr,hl.1,hl.2,hq⟩⟩

/-- Everything but the queues, the locks and what is granted is left as it is. -/
theorem Settles.rest {t : SequenceTree} {gone : Nat → Prop} {q q' : UvmSequencer α}
    (h : Settles t gone q q') : q' = { q with
      arbSequenceQ := q'.arbSequenceQ
      arbCompleted := q'.arbCompleted
      lockList := q'.lockList
      lockArbSize := q'.lockArbSize
      regSequences := q'.regSequences
      reports := q'.reports } := by
  obtain ⟨p,ht,rfl | ⟨i,r,_,_,_,rfl⟩⟩ := h
  · rw [ht.rest]
  · unfold grantLockAt grantAt updateLists setArbitrationCompleted
    rw [ht.rest]

theorem isBlocked_eq_false_iff (q : UvmSequencer α) (t : SequenceTree) (s : Nat) :
    q.isBlocked t s = false ↔ ∀ l ∈ q.lockList, l = s ∨ t.isChild l s = true := by
  unfold isBlocked
  rw [List.any_eq_false]
  constructor
  · intro h l hl
    have hb := h l hl
    by_cases he : l = s
    · exact Or.inl he
    · right
      simpa [he] using hb
  · intro h l hl
    rcases h l hl with rfl | hc
    · simp
    · simp [hc]

end UvmSequencer

end MemoryController.Uvm
