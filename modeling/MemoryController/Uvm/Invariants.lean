import MemoryController.Uvm.Registry
import MemoryController.Uvm.Requests

/-! The invariants of the sequencer over one move of the system around it. -/

set_option autoImplicit false

namespace MemoryController.Uvm
open UvmSequencer

namespace System

variable {α : Type} {t : SequenceTree}

def Registered (x : System α) : Prop :=
  Registry x.sqr.arbSequenceQ x.sqr.lockList x.sqr.regSequences x.sqr.sqrSeqIds
    x.sqr.nextSequenceId x.phase x.killed

/-- A phase change of a running sequence to another running phase. -/
theorem running_update {phase : Nat → SeqPhase} {s : Nat} {new : SeqPhase}
    (hs : (phase s).running = true) (hn : new.running = true) (s' : Nat) :
    (Function.update phase s new s').running = (phase s').running := by
  by_cases h : s' = s
  · rw [h,Function.update_self,hs,hn]
  · rw [Function.update_of_ne h]

theorem Registered.rephase {x y : System α} {s : Nat} {new : SeqPhase}
    (hs : (x.phase s).running = true) (hn : new.running = true)
    (hy : Registry y.sqr.arbSequenceQ y.sqr.lockList y.sqr.regSequences y.sqr.sqrSeqIds
      y.sqr.nextSequenceId x.phase x.killed)
    (hp : y.phase = Function.update x.phase s new) (hk : y.killed = x.killed) :
    Registered y := by
  unfold Registered
  rw [hp,hk]
  exact hy.phases (running_update hs hn) (fun _ hk => hk)

/-- The queues as the exit of a sequence leaves them. -/
def exitQueues (t : SequenceTree) (x : System α) (s : Nat) : UvmSequencer α :=
  x.sqr.removeSequenceFromQueues ((x.setPhase s .exited).sequences t) s

theorem trimmed_exitQueues (t : SequenceTree) (x : System α) (s : Nat) :
    Trimmed t (fun s' => s' = s) x.sqr (exitQueues t x s) :=
  trimmed_removeSequenceFromQueues (fun s' => s' = s) x.sqr
    ((x.setPhase s .exited).sequences t) rfl

theorem registered_exit {x : System α} (h : Registered x) {s : Nat}
    (hr : (x.phase s).running = true) : Registered (exitSequence t x s) := by
  have he := Registry.exit ((x.setPhase s .exited).sequences t) h (h.ident s hr)
  unfold Registered
  have hp : (exitSequence t x s).phase = Function.update x.phase s .exited :=
    phase_setPhase x s .exited
  have hk : (exitSequence t x s).killed = x.killed := killed_setPhase x s .exited
  have hn : (exitSequence t x s).sqr.nextSequenceId = x.sqr.nextSequenceId := by
    change (exitQueues t x s).nextSequenceId = _
    rw [(trimmed_exitQueues t x s).rest]
  rw [hp,hk,hn]
  exact he

/-- A settled sequencer has the fields that `Settles` leaves alone. -/
theorem Registered.settles {x : System α} {q q' : UvmSequencer α} {gone : Nat → Prop}
    (h : Registry q.arbSequenceQ q.lockList q.regSequences q.sqrSeqIds q.nextSequenceId
      x.phase x.killed) (hs : Settles t gone q q') (hg : ∀ s, gone s → x.killed s = true) :
    Registry q'.arbSequenceQ q'.lockList q'.regSequences q'.sqrSeqIds q'.nextSequenceId
      x.phase x.killed := by
  have hn : q'.nextSequenceId = q.nextSequenceId := by rw [hs.rest]
  rw [hn]
  exact Registry.settles h hs hg

theorem registered_arbitrate {x y : System α} (h : Registered x) {relevant : Nat → Bool}
    {draw : Nat} (ha : arbitrate t x relevant draw = some y) : Registered y := by
  obtain ⟨p,hs,ht⟩ := chooseNextRequest_settles x.sqr (x.sequences t) relevant draw
  obtain ⟨q,hq,hc⟩ := arbitrate_cases ha
  rw [hq] at ht
  have hp := Registered.settles h hs (fun _ hd => hd)
  have hreg : Registry q.arbSequenceQ q.lockList q.regSequences q.sqrSeqIds q.nextSequenceId
      x.phase x.killed := by
    have hn : q.nextSequenceId = p.nextSequenceId := by rw [ht.rest]
    rw [hn]
    exact Registry.trimmed hp ht (fun _ hd => hd)
  rcases hc with ⟨_,rfl⟩ | ⟨i,r,_,_,rfl⟩
  · exact hreg
  · exact hreg.eraseIdx i

theorem registered_waitForArbitration {x : System α} (h : Registered x) {s : Nat}
    (hr : (x.phase s).running = true) (type : SeqReqType) (i : Nat) :
    Registered (x.waitForArbitration type s i) := by
  rcases waitForArbitration_cases x type s i with ⟨_,he⟩ | ⟨_,he⟩
  · rw [he]
    refine Registered.rephase hr ?_ h (phase_pass ..) (killed_pass ..)
    cases type <;> rfl
  · rw [he]
    exact Registered.rephase hr rfl h (phase_setPhase ..) (killed_setPhase ..)

theorem registered_kill {x : System α} (h : Registered x) (s : Nat) :
    Registered (x.kill s) := by
  unfold Registered
  rw [phase_kill]
  refine Registry.phases h (fun _ => rfl) ?_
  intro s' hk
  rw [killed_kill] at hk
  by_cases he : s' = s
  · rw [he,Function.update_self] at hk
    cases hk
  · rw [Function.update_of_ne he] at hk
    exact hk

theorem registered_unlockReq {x : System α} (h : Registered x) (s : Nat) :
    Registered { x with sqr := x.sqr.unlockReq (x.sequences t) s } := by
  by_cases hl : s ∈ x.sqr.lockList
  · have hu := Registry.unlock h (List.erase_sublist (a := s) (l := x.sqr.lockList))
    have hs := Registered.settles (q := { x.sqr with lockList := x.sqr.lockList.erase s }) hu
      (settles_grantQueuedLocks _ (x.sequences t)) (fun _ hd => hd)
    simp only [Registered,unlockReq,hl,if_true]
    exact hs
  · simp only [Registered,unlockReq,hl,if_false]
    exact h

theorem registered_queue {x : System α} (h : Registered x) {s i : Nat}
    (hr : (x.phase s).running = true) (hk : x.killed s = false)
    (hi : x.sqr.sqrSeqIds s = some i) {r : SequenceRequest} (hp : r.sequencePtr = s)
    (hid : r.sequenceId = i) {arb : List SequenceRequest}
    (hn : arb.Perm (r :: x.sqr.arbSequenceQ)) :
    Registry arb x.sqr.lockList x.sqr.regSequences x.sqr.sqrSeqIds x.sqr.nextSequenceId
      x.phase x.killed := by
  refine Registry.push h hn ?_
  rw [hp,hid]
  exact ⟨hi,h.live s i hr hk hi⟩

theorem registered_waitForGrant {x : System α} (h : Registered x) {s : Nat}
    (hr : (x.phase s).running = true) (hk : x.killed s = false) (itemPriority : Int32)
    (lockRequest : Bool) :
    Registered { x with sqr := (x.sqr.waitForGrant s itemPriority lockRequest).1 } := by
  obtain ⟨i,hi⟩ := h.ident s hr
  cases lockRequest with
  | false =>
    rw [waitForGrant_plain hi]
    exact registered_queue h hr hk hi rfl rfl (List.perm_append_singleton _ _)
  | true =>
    have hl : Registered { x with sqr := x.sqr.pushBack (x.sqr.request .lock 0 s i) } :=
      registered_queue h hr hk hi rfl rfl (List.perm_append_singleton _ _)
    rw [waitForGrant_lock hi,waitForGrant_plain (show
      (x.sqr.pushBack (x.sqr.request .lock 0 s i)).sqrSeqIds s = some i from hi)]
    exact registered_queue hl hr hk hi rfl rfl (List.perm_append_singleton _ _)

theorem registered_lockReq {x : System α} (h : Registered x) {s : Nat}
    (hr : (x.phase s).running = true) (hk : x.killed s = false) (lock : Bool) :
    Registered { x with sqr := (x.sqr.lockReq (x.sequences t) s lock).1 } := by
  obtain ⟨i,hi⟩ := h.ident s hr
  rw [lockReq_eq hi]
  cases lock with
  | true =>
    exact Registered.settles (q := x.sqr.pushBack (x.sqr.request .lock 0 s i))
      (registered_queue h hr hk hi rfl rfl (List.perm_append_singleton _ _))
      (settles_grantQueuedLocks _ (x.sequences t)) (fun _ hd => hd)
  | false =>
    exact Registered.settles (q := (x.sqr.pushFront (x.sqr.request .lock 0 s i)).updateLists)
      (registered_queue h hr hk hi rfl rfl (List.Perm.refl _))
      (settles_grantQueuedLocks _ (x.sequences t)) (fun _ hd => hd)

theorem phase_finishItem (x : System α) (s handle : Nat) (payload : α) :
    (finishItem t x s handle payload).phase = Function.update x.phase s (.waitItemDone
      ((x.sqr.sendRequest (x.sequences t) (x.proc s) s handle payload).1.getSqrSequenceId s)) :=
  phase_setProc ..

theorem killed_finishItem (x : System α) (s handle : Nat) (payload : α) :
    (finishItem t x s handle payload).killed = x.killed := by
  change (({ x with sqr := _ } : System α).setProc s _).killed = _
  rw [killed_setProc]
  change Function.update x.killed s ((x.proc s).setTransactionId handle).killed = _
  rw [SeqProcess.setTransactionId_killed]
  exact Function.update_eq_self s x.killed

theorem registered_finishItem {x : System α} (h : Registered x) {s : Nat}
    (hr : (x.phase s).running = true) (handle : Nat) (payload : α) :
    Registered (finishItem t x s handle payload) := by
  obtain ⟨fifo,messages,he⟩ := sendRequest_eq x.sqr (x.sequences t) (x.proc s) s handle payload
  have hs := Registered.settles (q := { x.sqr with
      reqFifo := fifo
      reports := messages
      numReqsSent := x.sqr.numReqsSent+1 }) h
    (settles_grantQueuedLocks _ (x.sequences t)) (fun _ hd => hd)
  rw [← he] at hs
  exact Registered.rephase hr (show (SeqPhase.waitItemDone _).running = true from rfl) hs
    (phase_finishItem ..) (killed_finishItem ..)

theorem registered_killSequence {x : System α} (h : Registered x) {s : Nat}
    (hr : (x.phase s).running = true) : Registered (killSequence t x s) := by
  have hk := registered_kill h s
  refine registered_exit hk ?_
  rw [phase_kill]
  exact hr

theorem findFirst_registered {x : System α} (h : Registered x) {s : Nat}
    (hs : x.sqr.findFirstSequence = some s) :
    ∃ i, x.sqr.regSequences i = some s ∧ x.sqr.sqrSeqIds s = some i ∧
      (x.phase s).running = true := by
  obtain ⟨i,_,hi⟩ := List.exists_of_findSome?_eq_some hs
  have hid := h.owner i s hi
  refine ⟨i,hi,hid,?_⟩
  cases hr : (x.phase s).running with
  | true => rfl
  | false =>
    rw [h.idle s hr] at hid
    cases hid

theorem registered_stopLoop {turns : Nat} {x : System α} (h : Registered x) :
    Registered (stopLoop t turns x) := by
  induction turns generalizing x with
  | zero => exact h
  | succ turns ih =>
    unfold stopLoop
    cases hs : x.sqr.findFirstSequence with
    | none => exact h
    | some s =>
      obtain ⟨_,_,_,hr⟩ := findFirst_registered h hs
      exact ih (registered_killSequence h hr)

theorem registered_flush {x : System α} (h : Registered x) : Registered { x with sqr :=
    { x.sqr with sequenceItemRequested := false, getNextItemCalled := false }.flush } := by
  unfold Registered flush
  split <;> exact h

theorem registered_move {x y : System α} {a : Action} (h : Registered x)
    (m : Move t x a y) : Registered y := by
  cases m with
  | @start s hk hp =>
    have hs : x.sqr.sqrSeqIds s = none := h.idle s (by rw [phase,hp]; rfl)
    have hr := Registry.register h (show x.phase s = .created from hp)
    rw [registerSequence_of_none hs]
    unfold Registered
    rw [phase_setPhase,killed_setPhase]
    exact hr
  | finish hk hp hb => exact registered_exit h (by rw [phase,hp]; rfl)
  | @request s handle payload itemPriority lockRequest rest hk hp hb =>
    have hr : (x.phase s).running = true := by rw [phase,hp]; rfl
    exact registered_waitForArbitration
      (registered_waitForGrant h hr hk itemPriority lockRequest) hr _ _
  | @lock s lock rest hk hp hb =>
    have hr : (x.phase s).running = true := by rw [phase,hp]; rfl
    exact registered_waitForArbitration (registered_lockReq h hr hk lock) hr _ _
  | @unlock s rest hk hp hb =>
    have hr : (x.phase s).running = true := by rw [phase,hp]; rfl
    exact Registered.rephase (x := x) hr rfl (registered_unlockReq h s) (phase_advance ..)
      (killed_advance ..)
  | @arbitrated type s i n hk hp hn =>
    exact registered_waitForArbitration h (by rw [phase,hp]; rfl) type i
  | @send s handle payload itemPriority lockRequest rest hk hp hb =>
    exact registered_finishItem h (by rw [phase,hp]; rfl) handle payload
  | @done s i hk hp hi =>
    exact Registered.rephase (x := x) (by rw [phase,hp]; rfl) rfl h (phase_setPhase ..)
      (killed_setPhase ..)
  | @kill s hr => exact registered_kill h s
  | @cleanup s hk hr => exact registered_exit h hr
  | stop => exact registered_flush (registered_stopLoop h)
  | twice hn hg => exact h
  | select hn hg ha => exact registered_arbitrate h ha
  | @item relevant draw r item rest hn hf =>
    rw [itemDone_eq hf]
    exact Registered.settles (q := { x.sqr with
      sequenceItemRequested := false
      getNextItemCalled := false
      reqFifo := rest
      waitForItemSequenceId := item.sequenceId
      waitForItemTransactionId := item.transactionId }) h
      (settles_grantQueuedLocks _ (x.sequences t)) (fun _ hd => hd)
  | @again relevant draw r y hn hf hk ha =>
    exact registered_arbitrate (x := x.forget r.requestId) h ha
  | blocked hn hf hk => exact h

def Requested (x : System α) : Prop :=
  Requests x.sqr.arbSequenceQ x.sqr.arbCompleted x.sqr.requestId x.phase

theorem Requested.trimmed {x : System α} {q q' : UvmSequencer α} {gone : Nat → Prop}
    (h : Requests q.arbSequenceQ q.arbCompleted q.requestId x.phase)
    (ht : Trimmed t gone q q') :
    Requests q'.arbSequenceQ q'.arbCompleted q'.requestId x.phase := by
  have hc : q'.arbCompleted = q.arbCompleted := by rw [ht.rest]
  have hn : q'.requestId = q.requestId := by rw [ht.rest]
  rw [hc,hn]
  exact h.sublist ht.arb (fun _ hi => hi)

theorem Requested.settles {x : System α} {q q' : UvmSequencer α} {gone : Nat → Prop}
    (h : Requests q.arbSequenceQ q.arbCompleted q.requestId x.phase)
    (hs : Settles t gone q q') :
    Requests q'.arbSequenceQ q'.arbCompleted q'.requestId x.phase := by
  obtain ⟨p,ht,rfl | ⟨i,r,hr,_,_,rfl⟩⟩ := hs
  · exact Requested.trimmed h ht
  · exact (Requested.trimmed h ht).grant hr

/-- No one waits for the request that comes next. -/
theorem Requested.fresh_grant {x : System α} (h : Requested x) (s : Nat) :
    (x.phase s).grantId ≠ some x.sqr.requestId :=
  fun hg => Nat.lt_irrefl _ (h.waiting s _ (SeqPhase.waitId_of_grantId hg)).1

theorem requested_forget {x : System α} (h : Requested x) (i : Nat) :
    Requested (x.forget i) :=
  Requests.sublist h (List.Sublist.refl _) (fun _ hi => (List.mem_filter.mp hi).1)

theorem requested_arbitrate {x y : System α} (h : Requested x) {relevant : Nat → Bool}
    {draw : Nat} (ha : arbitrate t x relevant draw = some y) : Requested y := by
  obtain ⟨p,hs,ht⟩ := chooseNextRequest_settles x.sqr (x.sequences t) relevant draw
  obtain ⟨q,hq,hc⟩ := arbitrate_cases ha
  rw [hq] at ht
  have hr : Requests q.arbSequenceQ q.arbCompleted q.requestId x.phase :=
    Requested.trimmed (Requested.settles h hs) ht
  rcases hc with ⟨_,rfl⟩ | ⟨i,r,_,hget,rfl⟩
  · exact hr
  · exact hr.grant hget

/-- A process that stops waiting, or never did, has no request for an item in the queue. -/
theorem requested_leave {arb : List SequenceRequest} {completed : List Nat} {next s : Nat}
    {phase : Nat → SeqPhase} {new : SeqPhase} (h : Requests arb completed next phase)
    (hn : new.waitId = none)
    (hs : ∀ r ∈ arb, r.request = .req → r.sequencePtr ≠ s) :
    Requests arb completed next (Function.update phase s new) := by
  have hg : new.grantId = none := by
    cases hg : new.grantId with
    | none => rfl
    | some i =>
      rw [SeqPhase.waitId_of_grantId hg] at hn
      cases hn
  apply h.phases
  · intro s' i hw
    by_cases he : s' = s
    · rw [he,Function.update_self,hn] at hw
      cases hw
    · rw [Function.update_of_ne he] at hw
      exact hw
  · intro s' i hw
    by_cases he : s' = s
    · rw [he,Function.update_self,hg] at hw
      cases hw
    · rw [Function.update_of_ne he] at hw
      exact hw
  · intro r hr hq
    rw [Function.update_of_ne (hs r hr hq)]
    exact h.req r hr hq

theorem Requested.no_request {x : System α} (h : Requested x) {s : Nat}
    (hs : (x.phase s).grantId = none) :
    ∀ r ∈ x.sqr.arbSequenceQ, r.request = .req → r.sequencePtr ≠ s := by
  intro r hr hq he
  have hg := h.req r hr hq
  rw [he,hs] at hg
  cases hg

theorem requested_exit {x : System α} (h : Requested x) (hreg : Registered x) {s : Nat}
    (hr : (x.phase s).running = true) : Requested (exitSequence t x s) := by
  have ht := trimmed_exitQueues t x s
  obtain ⟨i,hi⟩ := hreg.ident s hr
  obtain ⟨hgone,_⟩ := removed_sequence ((x.setPhase s .exited).sequences t) hi
  unfold Requested
  rw [show (exitSequence t x s).phase = Function.update x.phase s .exited from
    phase_setPhase x s .exited]
  have hq := Requested.trimmed (x := x) h ht
  refine requested_leave hq rfl ?_
  intro r hr _ hp
  apply hgone r hr
  have hq := (hreg.queued r (ht.arb.mem hr)).1
  rw [hp,hi] at hq
  exact (Option.some.inj hq).symm

/-- A process that goes on waiting for the same request. -/
theorem requested_rewait {arb : List SequenceRequest} {completed : List Nat} {next s : Nat}
    {phase : Nat → SeqPhase} {new : SeqPhase} (h : Requests arb completed next phase)
    (hw : new.waitId = (phase s).waitId) (hg : new.grantId = (phase s).grantId) :
    Requests arb completed next (Function.update phase s new) := by
  have hsame : ∀ s', (Function.update phase s new s').waitId = (phase s').waitId ∧
      (Function.update phase s new s').grantId = (phase s').grantId := by
    intro s'
    by_cases hs : s' = s
    · rw [hs,Function.update_self]
      exact ⟨hw,hg⟩
    · rw [Function.update_of_ne hs]
      exact ⟨rfl,rfl⟩
  apply h.phases
  · intro s' j hj
    rw [(hsame s').1] at hj
    exact hj
  · intro s' j hj
    rw [(hsame s').2] at hj
    exact hj
  · intro r hr hq
    rw [(hsame _).2]
    exact h.req r hr hq

theorem requested_arbitrated {x : System α} (h : Requested x) {type : SeqReqType} {s i : Nat}
    {n : Int} (hp : x.phase s = .waitArbitration type i n) :
    Requested (x.waitForArbitration type s i) := by
  rcases waitForArbitration_cases x type s i with ⟨hc,he⟩ | ⟨_,he⟩
  · rw [he]
    unfold Requested
    rw [phase_pass]
    refine requested_leave (requested_forget h i) (by cases type <;> rfl) ?_
    intro r hr hq hs
    have hg := SeqPhase.waitId_of_grantId (h.req r hr hq)
    rw [hs,hp] at hg
    exact (h.completed i hc).2 r hr (Option.some.inj hg).symm
  · rw [he]
    unfold Requested
    rw [phase_setPhase]
    exact requested_rewait h (by rw [hp]; rfl) (by rw [hp]; cases type <;> rfl)

theorem requested_push {x : System α} (h : Requested x) {r : SequenceRequest}
    {arb : List SequenceRequest} (hn : arb.Perm (r :: x.sqr.arbSequenceQ))
    (hid : r.requestId = x.sqr.requestId) (hl : r.request = .lock) :
    Requests arb x.sqr.arbCompleted (x.sqr.requestId+1) x.phase := by
  refine Requests.push h hn hid (fun _ _ hw => Or.inl hw) (fun _ _ hg => Or.inl hg) ?_
  intro r' hr' hq
  rcases List.mem_cons.mp (hn.mem_iff.mp hr') with rfl | hr'
  · rw [hl] at hq
    cases hq
  · exact h.req r' hr' hq

theorem requested_waitForGrant {x : System α} (h : Requested x) {s i : Nat}
    (hp : (x.phase s).waitId = none) (hi : x.sqr.sqrSeqIds s = some i) (itemPriority : Int32) :
    Requested ({ x with sqr := (x.sqr.waitForGrant s itemPriority false).1 }.waitForArbitration
      .req s (x.sqr.waitForGrant s itemPriority false).2) := by
  rw [waitForGrant_plain hi]
  rcases waitForArbitration_cases { x with
      sqr := (x.sqr.pushBack (x.sqr.request .req itemPriority s i)).updateLists } .req s
      x.sqr.requestId with ⟨hc,_⟩ | ⟨_,he⟩
  · have hlt := (h.completed x.sqr.requestId hc).1
    omega
  · simp only at he ⊢
    rw [he]
    unfold Requested
    rw [phase_setPhase]
    have hg : (x.phase s).grantId = none := by
      cases hg : (x.phase s).grantId with
      | none => rfl
      | some j =>
        rw [SeqPhase.waitId_of_grantId hg] at hp
        cases hp
    refine Requests.push h (List.perm_append_singleton _ _) rfl ?_ ?_ ?_
    · intro s' j hw
      by_cases hs : s' = s
      · right
        rw [hs,Function.update_self] at hw
        exact ⟨(Option.some.inj hw).symm,hs⟩
      · left
        rw [Function.update_of_ne hs] at hw
        exact hw
    · intro s' j hw
      by_cases hs : s' = s
      · right
        rw [hs,Function.update_self] at hw
        exact ⟨(Option.some.inj hw).symm,rfl⟩
      · left
        rw [Function.update_of_ne hs] at hw
        exact hw
    · intro r hr hq
      rcases List.mem_append.mp hr with hr | hr
      · rw [Function.update_of_ne (Requested.no_request h hg r hr hq)]
        exact h.req r hr hq
      · rw [List.mem_singleton.mp hr]
        simp only [UvmSequencer.request,Function.update_self]
        rfl

/-- A lock request is waited for only by the process that has made it. -/
theorem requested_waitLock {x : System α} {q : UvmSequencer α} {s i : Nat} {n : Int}
    (h : Requests q.arbSequenceQ q.arbCompleted q.requestId x.phase)
    (hp : (x.phase s).waitId = none) (hi : i < q.requestId)
    (hw : ∀ s', (x.phase s').waitId ≠ some i)
    (ho : ∀ r ∈ q.arbSequenceQ, r.requestId = i → r.sequencePtr = s) :
    Requests q.arbSequenceQ q.arbCompleted q.requestId
      (Function.update x.phase s (.waitArbitration .lock i n)) := by
  have hcase : ∀ s' j,
      (Function.update x.phase s (.waitArbitration .lock i n) s').waitId = some j →
      s' = s ∧ j = i ∨ s' ≠ s ∧ (x.phase s').waitId = some j := by
    intro s' j hj
    by_cases hs : s' = s
    · rw [hs,Function.update_self] at hj
      exact Or.inl ⟨hs,(Option.some.inj hj).symm⟩
    · rw [Function.update_of_ne hs] at hj
      exact Or.inr ⟨hs,hj⟩
  refine ⟨h.nodup,h.fresh,h.completed,?_,?_,?_⟩
  · intro s' j hj
    rcases hcase s' j hj with ⟨rfl,rfl⟩ | ⟨_,hold⟩
    · refine ⟨hi,?_⟩
      intro s'' hj'
      rcases hcase s'' j hj' with ⟨rfl,_⟩ | ⟨_,hold⟩
      · rfl
      · exact absurd hold (hw s'')
    · refine ⟨(h.waiting s' j hold).1,?_⟩
      intro s'' hj'
      rcases hcase s'' j hj' with ⟨_,he⟩ | ⟨_,hold'⟩
      · rw [he] at hold
        exact absurd hold (hw s')
      · exact (h.waiting s' j hold).2 s'' hold'
  · intro r hr s' hj
    rcases hcase s' _ hj with ⟨rfl,he⟩ | ⟨hs,hj⟩
    · refine ⟨(ho r hr he).symm,?_⟩
      intro hg
      rw [Function.update_self] at hg
      cases hg
    · rw [Function.update_of_ne hs]
      exact h.owner r hr s' hj
  · intro r hr hq
    have hg := h.req r hr hq
    rw [Function.update_of_ne]
    · exact hg
    · intro he
      rw [he] at hg
      rw [SeqPhase.waitId_of_grantId hg] at hp
      cases hp

theorem requested_lock {x : System α} (h : Requested x) {s i : Nat}
    (hp : x.phase s = .ready) (hi : x.sqr.sqrSeqIds s = some i) (lock : Bool) :
    Requested ({ x with sqr := (x.sqr.lockReq (x.sequences t) s lock).1 }.waitForArbitration
      .lock s (x.sqr.lockReq (x.sequences t) s lock).2) := by
  rw [lockReq_eq hi]
  have hpush : ∃ p : UvmSequencer α,
      (if lock then x.sqr.pushBack (x.sqr.request .lock 0 s i)
        else (x.sqr.pushFront (x.sqr.request .lock 0 s i)).updateLists) = p ∧
      p.arbSequenceQ.Perm (x.sqr.request .lock 0 s i :: x.sqr.arbSequenceQ) ∧
      p.arbCompleted = x.sqr.arbCompleted ∧ p.requestId = x.sqr.requestId+1 := by
    cases lock with
    | true => exact ⟨_,rfl,List.perm_append_singleton _ _,rfl,rfl⟩
    | false => exact ⟨_,rfl,List.Perm.refl _,rfl,rfl⟩
  obtain ⟨p,he,hn,hc,hid⟩ := hpush
  have hr : Requests p.arbSequenceQ p.arbCompleted p.requestId x.phase := by
    rw [hc,hid]
    exact requested_push h hn rfl rfl
  have hs := settles_grantQueuedLocks p (x.sequences t)
  have hq := Requested.settles hr hs
  have hnext : (p.grantQueuedLocks (x.sequences t)).requestId = x.sqr.requestId+1 := by
    rw [hs.rest]
    exact hid
  have hsub : List.Sublist (p.grantQueuedLocks (x.sequences t)).arbSequenceQ p.arbSequenceQ :=
    grantQueuedLocks_sublist p _
  simp only [he]
  generalize p.grantQueuedLocks (x.sequences t) = q at hq hnext hsub
  rcases waitForArbitration_cases { x with sqr := q } .lock s x.sqr.requestId with
    ⟨_,ha⟩ | ⟨_,ha⟩
  · rw [ha]
    unfold Requested
    rw [phase_pass]
    have hnone : (x.phase s).grantId = none := by rw [hp]; rfl
    have hf := requested_forget (x := { x with sqr := q }) hq x.sqr.requestId
    refine requested_leave hf rfl ?_
    exact Requested.no_request (x := { x with sqr := q }) hq hnone
  · rw [ha]
    unfold Requested
    rw [phase_setPhase]
    have hlt : x.sqr.requestId < q.requestId := by omega
    refine requested_waitLock (x := x) hq (by rw [hp]; rfl) hlt ?_ ?_
    · intro s' hw
      have hlt := (h.waiting s' _ hw).1
      omega
    · intro r hr' hid'
      rcases List.mem_cons.mp (hn.mem_iff.mp (hsub.mem hr')) with rfl | hold
      · rfl
      · have hlt := h.fresh r hold
        omega

theorem requested_unlock {x : System α} (h : Requested x) {s : Nat}
    (hp : x.phase s = .ready) :
    Requested
      ({ x with sqr := x.sqr.unlockReq (x.sequences t) s }.setProc s (x.proc s).advance) := by
  have hq : Requested { x with sqr := x.sqr.unlockReq (x.sequences t) s } := by
    by_cases hl : s ∈ x.sqr.lockList
    · have hs := Requested.settles (q := { x.sqr with lockList := x.sqr.lockList.erase s }) h
        (settles_grantQueuedLocks _ (x.sequences t))
      simp only [Requested,unlockReq,hl,if_true]
      exact hs
    · simp only [Requested,unlockReq,hl,if_false]
      exact h
  unfold Requested
  rw [phase_setProc]
  have hnone : (x.phase s).grantId = none := by rw [hp]; rfl
  refine requested_leave hq rfl ?_
  exact Requested.no_request (x := { x with sqr := x.sqr.unlockReq (x.sequences t) s }) hq hnone

theorem requested_finishItem {x : System α} (h : Requested x) {s : Nat}
    (hp : x.phase s = .granted) (handle : Nat) (payload : α) :
    Requested (finishItem t x s handle payload) := by
  obtain ⟨fifo,messages,he⟩ := sendRequest_eq x.sqr (x.sequences t) (x.proc s) s handle payload
  have hs := Requested.settles (q := { x.sqr with
      reqFifo := fifo
      reports := messages
      numReqsSent := x.sqr.numReqsSent+1 }) h (settles_grantQueuedLocks _ (x.sequences t))
  rw [← he] at hs
  unfold Requested
  rw [phase_finishItem]
  have hnone : (x.phase s).grantId = none := by rw [hp]; rfl
  refine requested_leave hs rfl ?_
  exact Requested.no_request (x := { x with sqr := _ }) hs hnone

theorem requested_stopLoop {turns : Nat} {x : System α} (h : Requested x)
    (hr : Registered x) : Requested (stopLoop t turns x) := by
  induction turns generalizing x with
  | zero => exact h
  | succ turns ih =>
    unfold stopLoop
    cases hs : x.sqr.findFirstSequence with
    | none => exact h
    | some s =>
      obtain ⟨_,_,_,hrun⟩ := findFirst_registered hr hs
      have hk : Requested (x.kill s) := by
        unfold Requested
        rw [phase_kill]
        exact h
      have hrun' : ((x.kill s).phase s).running = true := by
        rw [phase_kill]
        exact hrun
      exact ih (requested_exit hk (registered_kill hr s) hrun')
        (registered_killSequence hr hrun)

theorem requested_move {x y : System α} {a : Action} (h : Requested x) (hr : Registered x)
    (m : Move t x a y) : Requested y := by
  cases m with
  | @start s hk hp =>
    have hs : x.sqr.sqrSeqIds s = none := hr.idle s (by rw [phase,hp]; rfl)
    rw [registerSequence_of_none hs]
    unfold Requested
    rw [phase_setPhase]
    have hnone : (x.phase s).grantId = none := by rw [phase,hp]; rfl
    exact requested_leave h rfl (Requested.no_request h hnone)
  | finish hk hp hb => exact requested_exit h hr (by rw [phase,hp]; rfl)
  | @request s handle payload itemPriority lockRequest rest hk hp hb =>
    have hw : (x.phase s).waitId = none := by rw [phase,hp]; rfl
    obtain ⟨i,hi⟩ := hr.ident s (by rw [phase,hp]; rfl)
    cases lockRequest with
    | false => exact requested_waitForGrant h hw hi itemPriority
    | true =>
      rw [waitForGrant_lock hi]
      have hl : Requested { x with sqr := x.sqr.pushBack (x.sqr.request .lock 0 s i) } :=
        requested_push h (List.perm_append_singleton _ _) rfl rfl
      exact requested_waitForGrant hl hw hi itemPriority
  | @lock s lock rest hk hp hb =>
    obtain ⟨i,hi⟩ := hr.ident s (by rw [phase,hp]; rfl)
    exact requested_lock h hp hi lock
  | unlock hk hp hb => exact requested_unlock h hp
  | arbitrated hk hp hn => exact requested_arbitrated h hp
  | @send s handle payload itemPriority lockRequest rest hk hp hb =>
    exact requested_finishItem h hp handle payload
  | @done s i hk hp hi =>
    unfold Requested
    rw [phase_setPhase]
    have hnone : (x.phase s).grantId = none := by rw [phase,hp]; rfl
    exact requested_leave h rfl (Requested.no_request h hnone)
  | @kill s hrun =>
    unfold Requested
    rw [phase_kill]
    exact h
  | cleanup hk hrun => exact requested_exit h hr hrun
  | stop =>
    have hs : Requested (stopLoop t x.sqr.nextSequenceId x) := requested_stopLoop h hr
    unfold Requested stopSequences flush
    simp only
    split <;> exact hs
  | twice hn hg => exact h
  | select hn hg ha => exact requested_arbitrate h ha
  | @item relevant draw r item rest hn hf =>
    rw [itemDone_eq hf]
    exact Requested.settles (q := { x.sqr with
      sequenceItemRequested := false
      getNextItemCalled := false
      reqFifo := rest
      waitForItemSequenceId := item.sequenceId
      waitForItemTransactionId := item.transactionId }) h
      (settles_grantQueuedLocks _ (x.sequences t))
  | @again relevant draw r y hn hf hk ha =>
    exact requested_arbitrate (requested_forget h r.requestId) ha
  | blocked hn hf hk => exact h

end System

end MemoryController.Uvm
