import MemoryController.Uvm.Processes

/-!
The messages that can end the simulation. Taking sequences out of the queues and settling the
locks report errors only; a fatal message comes from the choice among priorities, or from a
call of the handshake out of turn.
-/

set_option autoImplicit false

namespace MemoryController.Uvm

namespace UvmSequencer

variable {α : Type}

def fatals (q : UvmSequencer α) : List ReportMessage :=
  q.reports.filter (fun m => m.severity == .fatal)

/-- The messages of the choice among two or more requests. -/
def choiceIds : List String := ["SEQITEMPRI","SEQDEFPRI","Sequencer"]

theorem fatal_eq_false_iff (q : UvmSequencer α) : q.fatal = false ↔ q.fatals = [] := by
  unfold fatal fatals
  rw [List.any_eq_false,List.filter_eq_nil_iff]

theorem fatals_append {q : UvmSequencer α} {messages : List ReportMessage}
    (h : ∀ m ∈ messages, m.severity ≠ .fatal) :
    fatals { q with reports := q.reports ++ messages } = q.fatals := by
  unfold fatals
  rw [List.filter_append,List.append_right_eq_self,List.filter_eq_nil_iff]
  intro m hm
  simpa using h m hm

theorem fatals_report (q : UvmSequencer α) {severity : Severity} (id message : String)
    (h : severity ≠ .fatal) : (q.report severity id message).fatals = q.fatals := by
  refine fatals_append ?_
  intro m hm
  rw [List.mem_singleton.mp hm]
  exact h

theorem fatals_removeSequenceFromQueues (q : UvmSequencer α) (ss : Sequences) (s : Nat) :
    (q.removeSequenceFromQueues ss s).fatals = q.fatals := by
  have hu : ∀ (p : UvmSequencer α) i, (p.unregisterSequence i).fatals = p.fatals := by
    intro p i
    cases i <;> rfl
  unfold removeSequenceFromQueues
  rw [hu]
  refine fatals_append ?_
  intro m hm
  split at hm
  · rcases List.mem_append.mp hm with hm | hm
    · obtain ⟨r,_,rfl⟩ := List.mem_map.mp hm
      exact Severity.noConfusion
    · obtain ⟨l,_,rfl⟩ := List.mem_map.mp hm
      exact Severity.noConfusion
  · cases hm

theorem fatals_removeZombie {ss : Sequences}
    {message : UvmSequencer α → Sequences → Nat → ReportMessage}
    (hm : ∀ q s, (message q ss s).severity ≠ .fatal) (q : UvmSequencer α)
    (r : SequenceRequest) : (removeZombie ss message q r).fatals = q.fatals := by
  unfold removeZombie
  rw [fatals_removeSequenceFromQueues]
  refine fatals_append ?_
  intro m hm'
  rw [List.mem_singleton.mp hm']
  exact hm q r.sequencePtr

theorem fatals_removeZombies (ss : Sequences) (rs : List SequenceRequest)
    (q : UvmSequencer α) : (rs.foldl (removeZombie ss seqlckzmb) q).fatals = q.fatals := by
  induction rs generalizing q with
  | nil => rfl
  | cons r rs ih =>
    rw [List.foldl_cons,ih]
    exact fatals_removeZombie (fun _ _ => Severity.noConfusion) q r

theorem fatals_grantQueuedLocks (q : UvmSequencer α) (ss : Sequences) :
    (q.grantQueuedLocks ss).fatals = q.fatals := by
  have hz := fatals_removeZombies ss (q.arbSequenceQ.filter (lockZombie ss)) q
  unfold grantQueuedLocks
  generalize (q.arbSequenceQ.filter (lockZombie ss)).foldl (removeZombie ss seqlckzmb) q = p
    at hz ⊢
  simp only
  split
  · exact hz
  · split
    · exact hz
    · exact hz

theorem fatals_scan (ss : Sequences) (relevant : Nat → Bool) (turns i : Nat)
    (avail : List Nat) (q : UvmSequencer α) :
    (scan ss relevant turns i avail q).1.fatals = q.fatals := by
  induction turns generalizing i avail q with
  | zero => rfl
  | succ turns ih =>
    unfold scan
    split
    · rfl
    · split
      · rw [ih]
        exact fatals_removeZombie (fun _ _ => Severity.noConfusion) q _
      · split
        · split
          · rfl
          · exact ih _ _ _
        · exact ih _ _ _

theorem illegalPriority_id {t : SequenceTree} {r : SequenceRequest} {m : ReportMessage}
    (h : illegalPriority t r = some m) : m.id ∈ choiceIds := by
  unfold illegalPriority at h
  split at h
  · split at h
    · cases h
      simp [choiceIds]
    · cases h
  · split at h
    · cases h
      simp [choiceIds]
    · cases h

/-- `q'` has at most one fatal message more than `q`, and that one is of the choice. -/
def FatalChoice (q q' : UvmSequencer α) : Prop :=
  q'.fatals = q.fatals ∨ ∃ m, m.id ∈ choiceIds ∧ q'.fatals = q.fatals ++ [m]

theorem fatalChoice_append (q : UvmSequencer α) {m : ReportMessage}
    (hm : m.id ∈ choiceIds) : FatalChoice q { q with reports := q.reports ++ [m] } := by
  by_cases hs : m.severity = .fatal
  · right
    refine ⟨m,hm,?_⟩
    simp [fatals,hs]
  · left
    refine fatals_append ?_
    intro m' hm'
    rw [List.mem_singleton.mp hm']
    exact hs

theorem chooseAmong_fatalChoice (q : UvmSequencer α) (t : SequenceTree) (draw : Nat)
    (avail : List Nat) : FatalChoice q (q.chooseAmong t draw avail).1 := by
  have hill : ∀ {m}, (avail.filterMap (fun i => q.arbSequenceQ[i]?)).findSome?
      (illegalPriority t) = some m → m.id ∈ choiceIds := by
    intro m hm
    obtain ⟨r,_,hr⟩ := List.exists_of_findSome?_eq_some hm
    exact illegalPriority_id hr
  unfold chooseAmong
  simp only
  split
  · exact Or.inl rfl
  · split
    · rename_i hm
      exact fatalChoice_append q (hill hm)
    · split
      · exact Or.inl rfl
      · exact fatalChoice_append q (by simp [weightedError,choiceIds])
  · exact Or.inl rfl
  · split
    · rename_i hm
      exact fatalChoice_append q (hill hm)
    · exact Or.inl rfl
  · split
    · rename_i hm
      exact fatalChoice_append q (hill hm)
    · exact Or.inl rfl
  · split
    · exact Or.inl rfl
    · exact fatalChoice_append q (by simp [userError,choiceIds])

theorem chooseNextRequest_fatals (q : UvmSequencer α) (ss : Sequences)
    (relevant : Nat → Bool) (draw : Nat) :
    (q.arbitration.isFifo = true →
      (q.chooseNextRequest ss relevant draw).1.fatals = q.fatals) ∧
    FatalChoice q (q.chooseNextRequest ss relevant draw).1 := by
  have hg := fatals_grantQueuedLocks q ss
  have ha := grantQueuedLocks_arbitration q ss
  unfold chooseNextRequest FatalChoice
  rw [← hg,← ha]
  generalize q.grantQueuedLocks ss = p
  have hs := fatals_scan ss relevant p.arbSequenceQ.length 0 [] p
  have ht := (trimmed_scan ss relevant p.arbSequenceQ.length 0 [] p).rest
  simp only
  generalize scan ss relevant p.arbSequenceQ.length 0 [] p = result at hs ht ⊢
  rcases result with ⟨p',i | i,avail⟩
  · have hp := congrArg UvmSequencer.arbitration ht
    simp only at hp
    have hs : p'.fatals = p.fatals := hs
    simp only
    by_cases hf : p'.arbitration.isFifo = true
    · rw [if_pos hf]
      exact ⟨fun _ => hs,Or.inl hs⟩
    · rw [if_neg hf,← hp,← hs]
      refine ⟨fun h => absurd h hf,?_⟩
      split
      · exact Or.inl rfl
      · split
        · exact Or.inl rfl
        · exact chooseAmong_fatalChoice p' ss.toSequenceTree draw _
  · exact ⟨fun _ => hs,Or.inl hs⟩

/-- What settling the locks and queueing requests leave as it is. -/
structure Quiet (q q' : UvmSequencer α) : Prop where
  mode : q'.arbitration = q.arbitration
  fifo : q'.reqFifo = q.reqFifo
  item : q'.waitForItemSequenceId = q.waitForItemSequenceId
  asked : q'.getNextItemCalled = q.getNextItemCalled
  fatals : q'.fatals = q.fatals

theorem quiet_refl (q : UvmSequencer α) : Quiet q q := ⟨rfl,rfl,rfl,rfl,rfl⟩

theorem Quiet.trans {q q' q'' : UvmSequencer α} (h : Quiet q q') (h' : Quiet q' q'') :
    Quiet q q'' :=
  ⟨h'.mode.trans h.mode,h'.fifo.trans h.fifo,h'.item.trans h.item,h'.asked.trans h.asked,
    h'.fatals.trans h.fatals⟩

theorem quiet_trimmed {q q' : UvmSequencer α} {t : SequenceTree} {gone : Nat → Prop}
    (h : Trimmed t gone q q') (hf : q'.fatals = q.fatals) : Quiet q q' :=
  ⟨by rw [h.rest],by rw [h.rest],by rw [h.rest],by rw [h.rest],hf⟩

theorem quiet_locks (q : UvmSequencer α) (ss : Sequences) :
    Quiet q (q.grantQueuedLocks ss) := by
  have h := (settles_grantQueuedLocks q ss).rest
  exact ⟨by rw [h],by rw [h],by rw [h],by rw [h],fatals_grantQueuedLocks q ss⟩

theorem quiet_register (q : UvmSequencer α) (s : Nat) : Quiet q (q.registerSequence s).1 := by
  unfold registerSequence
  split <;> exact ⟨rfl,rfl,rfl,rfl,rfl⟩

theorem quiet_waitForGrant (q : UvmSequencer α) (s : Nat) (itemPriority : Int32)
    (lockRequest : Bool) : Quiet q (q.waitForGrant s itemPriority lockRequest).1 := by
  have hr := quiet_register q s
  cases lockRequest <;> exact ⟨hr.mode,hr.fifo,hr.item,hr.asked,hr.fatals⟩

theorem quiet_lockReq (q : UvmSequencer α) (ss : Sequences) (s : Nat) (lock : Bool) :
    Quiet q (q.lockReq ss s lock).1 := by
  have hr := quiet_register q s
  unfold lockReq
  generalize q.registerSequence s = result at hr ⊢
  rcases result with ⟨p,i⟩
  cases lock with
  | true =>
    have hp : Quiet q (p.pushBack (p.request .lock 0 s i)) :=
      ⟨hr.mode,hr.fifo,hr.item,hr.asked,hr.fatals⟩
    exact hp.trans (quiet_locks _ ss)
  | false =>
    have hp : Quiet q (p.pushFront (p.request .lock 0 s i)).updateLists :=
      ⟨hr.mode,hr.fifo,hr.item,hr.asked,hr.fatals⟩
    exact hp.trans (quiet_locks _ ss)

theorem quiet_unlockReq (q : UvmSequencer α) (ss : Sequences) (s : Nat) :
    Quiet q (q.unlockReq ss s) := by
  have hl := quiet_locks { q with lockList := q.lockList.erase s } ss
  unfold unlockReq
  split
  · exact ⟨hl.mode,hl.fifo,hl.item,hl.asked,hl.fatals⟩
  · exact ⟨rfl,rfl,rfl,rfl,fatals_report q "SQRUNL" _ Severity.noConfusion⟩

/-- `send_request` of a process that holds a grant, with the FIFO empty. -/
theorem sendRequest_of_granted {q : UvmSequencer α} (hf : q.reqFifo = []) (ss : Sequences)
    {p : SeqProcess α} (hw : p.waitForGrantSemaphore = 1) (s handle : Nat) (payload : α) :
    q.sendRequest ss p s handle payload =
      ({ q with
          reqFifo := [q.sentItem p s handle payload]
          numReqsSent := q.numReqsSent+1 }.grantQueuedLocks ss,
        { p.setTransactionId handle with waitForGrantSemaphore := 0 }) := by
  unfold sendRequest tryPut
  simp [hf,hw]

end UvmSequencer

end MemoryController.Uvm
