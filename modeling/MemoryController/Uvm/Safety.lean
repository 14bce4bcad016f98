import MemoryController.Uvm.Handshake
import MemoryController.Library.Transitions

/-! The invariants together, over whole runs of the sequencer, the sequences and the driver. -/

set_option autoImplicit false

namespace MemoryController.Uvm
open UvmSequencer

namespace System

variable {α : Type} {t : SequenceTree}

theorem quiet_exit (x : System α) (s : Nat) : Quiet x.sqr (exitSequence t x s).sqr := by
  have hq : Quiet x.sqr (exitQueues t x s) := quiet_trimmed (trimmed_exitQueues t x s)
    (fatals_removeSequenceFromQueues x.sqr ((x.setPhase s .exited).sequences t) s)
  exact ⟨hq.mode,hq.fifo,hq.item,hq.asked,hq.fatals⟩

theorem quiet_stopLoop {turns : Nat} {x : System α} :
    Quiet x.sqr (stopLoop t turns x).sqr := by
  induction turns generalizing x with
  | zero => exact quiet_refl x.sqr
  | succ turns ih =>
    unfold stopLoop
    split
    · exact (quiet_exit (x.kill _) _).trans ih
    · exact quiet_refl x.sqr

theorem quiet_waitForArbitration (x : System α) (type : SeqReqType) (s i : Nat) :
    Quiet x.sqr (x.waitForArbitration type s i).sqr := by
  obtain ⟨completed,he⟩ := sqr_waitForArbitration x type s i
  rw [he]
  exact ⟨rfl,rfl,rfl,rfl,rfl⟩

/-- The sequencer after `finish_item` of the process that holds the grant. -/
theorem sqr_finishItem {x : System α} (h : SingleGrant x) (hw : Semaphores x) {s : Nat}
    (hk : x.killed s = false) (hp : x.phase s = .granted) (handle : Nat) (payload : α) :
    (finishItem t x s handle payload).sqr = ({ x.sqr with
      reqFifo := [x.sqr.sentItem (x.proc s) s handle payload]
      numReqsSent := x.sqr.numReqsSent+1 }.grantQueuedLocks (x.sequences t)).waitForItemDone := by
  have hsem := hw s (by rw [← phase,hp]; exact SeqPhase.noConfusion)
  rw [← phase,if_pos hp] at hsem
  have hf := Handshake.fifo_empty h ⟨hk,Or.inl hp⟩
  have he := sendRequest_of_granted hf (x.sequences t) hsem s handle payload
  have hsqr : (finishItem t x s handle payload).sqr =
      (x.sqr.sendRequest (x.sequences t) (x.proc s) s handle payload).1.waitForItemDone := rfl
  rw [hsqr,he]

/-- Only the choice among priorities can end the simulation. -/
theorem arbitrate_fatals {x y : System α} {relevant : Nat → Bool} {draw : Nat}
    (ha : arbitrate t x relevant draw = some y) :
    y.sqr.arbitration = x.sqr.arbitration ∧ (y.sqr.fatals = x.sqr.fatals ∨
      x.sqr.arbitration.isFifo = false ∧ FatalChoice x.sqr y.sqr) := by
  obtain ⟨p,hs,ht⟩ := chooseNextRequest_settles x.sqr (x.sequences t) relevant draw
  obtain ⟨hfifo,hchoice⟩ := chooseNextRequest_fatals x.sqr (x.sequences t) relevant draw
  obtain ⟨q,hq,hc⟩ := arbitrate_cases ha
  rw [hq] at ht hfifo hchoice
  have hm : q.arbitration = x.sqr.arbitration := by
    rw [ht.rest]
    change p.arbitration = _
    rw [hs.rest]
  cases hf : x.sqr.arbitration.isFifo with
  | true => rcases hc with ⟨_,rfl⟩ | ⟨i,r,_,_,rfl⟩ <;> exact ⟨hm,Or.inl (hfifo hf)⟩
  | false => rcases hc with ⟨_,rfl⟩ | ⟨i,r,_,_,rfl⟩ <;> exact ⟨hm,Or.inr ⟨rfl,hchoice⟩⟩

theorem move_fatals {x y : System α} {a : Action} (h : SingleGrant x) (hw : Semaphores x)
    (m : Move t x a y) :
    y.sqr.arbitration = x.sqr.arbitration ∧ (y.sqr.fatals = x.sqr.fatals ∨
      x.sqr.arbitration.isFifo = false ∧ FatalChoice x.sqr y.sqr) := by
  have hquiet : ∀ {q : UvmSequencer α}, Quiet x.sqr q → q.arbitration = x.sqr.arbitration ∧
      (q.fatals = x.sqr.fatals ∨ x.sqr.arbitration.isFifo = false ∧ FatalChoice x.sqr q) :=
    fun hq => ⟨hq.mode,Or.inl hq.fatals⟩
  cases m with
  | start hk hp => exact hquiet (quiet_register x.sqr _)
  | finish hk hp hb => exact hquiet (quiet_exit x _)
  | @request s handle payload itemPriority lockRequest rest hk hp hb =>
    have hq := quiet_waitForGrant x.sqr s itemPriority lockRequest
    exact hquiet (hq.trans (quiet_waitForArbitration { x with sqr := _ } .req s _))
  | @lock s lock rest hk hp hb =>
    have hq := quiet_lockReq x.sqr (x.sequences t) s lock
    exact hquiet (hq.trans (quiet_waitForArbitration { x with sqr := _ } .lock s _))
  | unlock hk hp hb => exact hquiet (quiet_unlockReq x.sqr _ _)
  | arbitrated hk hp hn => exact hquiet (quiet_waitForArbitration x _ _ _)
  | @send s handle payload itemPriority lockRequest rest hk hp hb =>
    rw [sqr_finishItem h hw hk hp]
    have hq := quiet_locks { x.sqr with
      reqFifo := [x.sqr.sentItem (x.proc s) s handle payload]
      numReqsSent := x.sqr.numReqsSent+1 } (x.sequences t)
    exact ⟨hq.mode,Or.inl hq.fatals⟩
  | done hk hp hi => exact hquiet (quiet_refl x.sqr)
  | kill hr => exact hquiet (quiet_refl x.sqr)
  | cleanup hk hr => exact hquiet (quiet_exit x _)
  | stop =>
    obtain ⟨messages,he,hm⟩ := stopSequences_eq (t := t) x
    have hq : Quiet x.sqr (stopLoop t x.sqr.nextSequenceId x).sqr := quiet_stopLoop
    rw [he]
    exact ⟨hq.mode,Or.inl ((fatals_append hm).trans hq.fatals)⟩
  | twice hn hg => exact ⟨rfl,Or.inl (fatals_report x.sqr _ _ Severity.noConfusion)⟩
  | select hn hg ha => exact arbitrate_fatals ha
  | @item relevant draw r item rest hn hf =>
    rw [itemDone_eq hf]
    have hq := quiet_locks { x.sqr with
      sequenceItemRequested := false
      getNextItemCalled := false
      reqFifo := rest
      waitForItemSequenceId := item.sequenceId
      waitForItemTransactionId := item.transactionId } (x.sequences t)
    exact ⟨hq.mode,Or.inl hq.fatals⟩
  | @again relevant draw r y hn hf hk ha =>
    exact arbitrate_fatals (x := x.forget r.requestId) ha
  | blocked hn hf hk => exact ⟨rfl,Or.inl (fatals_report x.sqr _ _ Severity.noConfusion)⟩

theorem settles_sublist {q q' : UvmSequencer α} {gone : Nat → Prop}
    (h : Settles t gone q q') : List.Sublist q'.arbSequenceQ q.arbSequenceQ := by
  obtain ⟨p,ht,rfl | ⟨i,r,_,_,_,rfl⟩⟩ := h
  · exact ht.arb
  · exact (List.eraseIdx_sublist p.arbSequenceQ i).trans ht.arb

/-- A move that kills nobody queues requests of live processes only. -/
structure Spares (x y : System α) : Prop where
  killed : y.killed = x.killed
  queue : ∀ r ∈ y.sqr.arbSequenceQ, r ∈ x.sqr.arbSequenceQ ∨ x.killed r.sequencePtr = false

theorem spares_sublist {x y : System α} (hk : y.killed = x.killed)
    (hq : List.Sublist y.sqr.arbSequenceQ x.sqr.arbSequenceQ) : Spares x y :=
  ⟨hk,fun _ hr => Or.inl (hq.mem hr)⟩

theorem Spares.trans {x y z : System α} (h : Spares x y) (h' : Spares y z) : Spares x z := by
  refine ⟨h'.killed.trans h.killed,?_⟩
  intro r hr
  rcases h'.queue r hr with hr | hk
  · exact h.queue r hr
  · rw [h.killed] at hk
    exact Or.inr hk

theorem spares_exit (x : System α) (s : Nat) : Spares x (exitSequence t x s) :=
  spares_sublist (killed_setPhase x s .exited) (trimmed_exitQueues t x s).arb

theorem spares_waitForArbitration (x : System α) (type : SeqReqType) (s i : Nat) :
    Spares x (x.waitForArbitration type s i) := by
  rcases waitForArbitration_cases x type s i with ⟨_,he⟩ | ⟨_,he⟩ <;> rw [he]
  · exact spares_sublist (killed_pass x type s i) (List.Sublist.refl _)
  · exact spares_sublist (killed_setPhase x s _) (List.Sublist.refl _)

theorem spares_push {x : System α} {s i : Nat} (hk : x.killed s = false) {q : UvmSequencer α}
    {type : SeqReqType} {itemPriority : Int32}
    (hq : q.arbSequenceQ.Perm (x.sqr.request type itemPriority s i :: x.sqr.arbSequenceQ)) :
    Spares x { x with sqr := q } := by
  refine ⟨rfl,?_⟩
  intro r hr
  rcases List.mem_cons.mp (hq.mem_iff.mp hr) with rfl | hr
  · exact Or.inr hk
  · exact Or.inl hr

theorem spares_waitForGrant {x : System α} {s i : Nat} (hk : x.killed s = false)
    (hi : x.sqr.sqrSeqIds s = some i) (itemPriority : Int32) (lockRequest : Bool) :
    Spares x { x with sqr := (x.sqr.waitForGrant s itemPriority lockRequest).1 } := by
  cases lockRequest with
  | false =>
    rw [waitForGrant_plain hi]
    exact spares_push hk (List.perm_append_singleton _ _)
  | true =>
    have hl : Spares x { x with sqr := x.sqr.pushBack (x.sqr.request .lock 0 s i) } :=
      spares_push hk (List.perm_append_singleton _ _)
    rw [waitForGrant_lock hi,waitForGrant_plain (show
      (x.sqr.pushBack (x.sqr.request .lock 0 s i)).sqrSeqIds s = some i from hi)]
    exact hl.trans (spares_push
      (x := { x with sqr := x.sqr.pushBack (x.sqr.request .lock 0 s i) }) hk
      (List.perm_append_singleton _ _))

theorem spares_lockReq {x : System α} {s i : Nat} (hk : x.killed s = false)
    (hi : x.sqr.sqrSeqIds s = some i) (lock : Bool) :
    Spares x { x with sqr := (x.sqr.lockReq (x.sequences t) s lock).1 } := by
  rw [lockReq_eq hi]
  cases lock with
  | true =>
    have hl : Spares x { x with sqr := x.sqr.pushBack (x.sqr.request .lock 0 s i) } :=
      spares_push hk (List.perm_append_singleton _ _)
    exact hl.trans (spares_sublist rfl (grantQueuedLocks_sublist _ _))
  | false =>
    have hl : Spares x
        { x with sqr := (x.sqr.pushFront (x.sqr.request .lock 0 s i)).updateLists } :=
      spares_push hk (List.Perm.refl _)
    exact hl.trans (spares_sublist rfl (grantQueuedLocks_sublist _ _))

theorem spares_arbitrate {x y : System α} {relevant : Nat → Bool} {draw : Nat}
    (ha : arbitrate t x relevant draw = some y) : Spares x y := by
  obtain ⟨p,hs,ht⟩ := chooseNextRequest_settles x.sqr (x.sequences t) relevant draw
  obtain ⟨q,hq,hc⟩ := arbitrate_cases ha
  rw [hq] at ht
  have hsub := ht.arb.trans (settles_sublist hs)
  rcases hc with ⟨_,rfl⟩ | ⟨i,r,_,_,rfl⟩
  · exact spares_sublist rfl hsub
  · exact spares_sublist rfl ((List.eraseIdx_sublist q.arbSequenceQ i).trans hsub)

theorem spares_move {x y : System α} {a : Action} (hreg : Registered x) (m : Move t x a y)
    (hkill : ∀ s, a ≠ .kill s) (hstop : a ≠ .stopSequences) : Spares x y := by
  cases m with
  | @start s hk hp =>
    refine Spares.trans (y := { x with sqr := (x.sqr.registerSequence s).1 }) ?_
      (spares_sublist (killed_setPhase ..) (List.Sublist.refl _))
    refine spares_sublist rfl ?_
    unfold registerSequence
    split <;> exact List.Sublist.refl _
  | finish hk hp hb => exact spares_exit x _
  | @request s handle payload itemPriority lockRequest rest hk hp hb =>
    obtain ⟨i,hi⟩ := hreg.ident s (by rw [phase,hp]; rfl)
    exact (spares_waitForGrant hk hi itemPriority lockRequest).trans
      (spares_waitForArbitration _ _ _ _)
  | @lock s lock rest hk hp hb =>
    obtain ⟨i,hi⟩ := hreg.ident s (by rw [phase,hp]; rfl)
    exact (spares_lockReq hk hi lock).trans (spares_waitForArbitration _ _ _ _)
  | @unlock s rest hk hp hb =>
    refine spares_sublist (killed_advance ..) ?_
    change List.Sublist (x.sqr.unlockReq (x.sequences t) s).arbSequenceQ _
    unfold unlockReq
    split
    · exact grantQueuedLocks_sublist { x.sqr with lockList := x.sqr.lockList.erase s } _
    · exact List.Sublist.refl _
  | arbitrated hk hp hn => exact spares_waitForArbitration x _ _ _
  | @send s handle payload itemPriority lockRequest rest hk hp hb =>
    obtain ⟨fifo,messages,he⟩ := sendRequest_eq x.sqr (x.sequences t) (x.proc s) s handle payload
    have hsub := grantQueuedLocks_sublist { x.sqr with
      reqFifo := fifo, reports := messages, numReqsSent := x.sqr.numReqsSent+1 }
      (x.sequences t)
    rw [← he] at hsub
    exact spares_sublist (killed_finishItem ..) hsub
  | done hk hp hi => exact spares_sublist (killed_setPhase ..) (List.Sublist.refl _)
  | kill hr => exact absurd rfl (hkill _)
  | cleanup hk hr => exact spares_exit x _
  | stop => exact absurd rfl hstop
  | twice hn hg => exact spares_sublist rfl (List.Sublist.refl _)
  | select hn hg ha => exact spares_arbitrate ha
  | item hn hf =>
    rw [itemDone_eq hf]
    exact spares_sublist rfl (grantQueuedLocks_sublist { x.sqr with
      sequenceItemRequested := false
      getNextItemCalled := false
      reqFifo := _
      waitForItemSequenceId := _
      waitForItemTransactionId := _ } _)
  | @again relevant draw r y hn hf hk ha =>
    exact Spares.trans (y := x.forget r.requestId)
      (spares_sublist rfl (List.Sublist.refl _)) (spares_arbitrate ha)
  | blocked hn hf hk => exact spares_sublist rfl (List.Sublist.refl _)

theorem safeMode_move {x y : System α} {a : Action} (h : SafeMode x) (hreg : Registered x)
    (hs : SingleGrant x) (hw : Semaphores x) (m : Move t x a y)
    (hkill : x.sqr.arbitration.isFifo = true ∨ ∀ s, a ≠ .kill s) : SafeMode y := by
  unfold SafeMode
  rw [(move_fatals hs hw m).1]
  rcases hkill with hf | hkill
  · exact Or.inl hf
  · rcases h with hf | hall
    · exact Or.inl hf
    · right
      by_cases hstop : a = .stopSequences
      · subst hstop
        cases m
        have hi := stopSequences_idle (t := t) hreg
        rw [hi.requests]
        intro r hr
        cases hr
      · obtain ⟨hk,hq⟩ := spares_move hreg m hkill hstop
        intro r hr
        rw [hk]
        rcases hq r hr with hr | hr
        · exact hall r hr
        · exact hr

/-- Everything that holds between two moves. -/
structure SequencerInvariant (x : System α) : Prop where
  registered : Registered x
  requested : Requested x
  semaphores : Semaphores x
  singleGrant : SingleGrant x
  mode : SafeMode x
  fatals : ∀ m ∈ x.sqr.fatals, x.sqr.arbitration.isFifo = false ∧ m.id ∈ choiceIds

theorem registered_start (fullName : String) (arbitration : ArbMode)
    (bodies : Nat → List (SeqOp α)) : Registered (start fullName arbitration bodies) where
  pos := Nat.le_refl 1
  bound s i h := by cases h
  inj s s' i h := by cases h
  owner i s h := by cases h
  ident s h := by cases h
  live s i h := by cases h
  queued r h := by cases h
  locked l h := by cases h
  idle s _ := rfl

theorem requested_start (fullName : String) (arbitration : ArbMode)
    (bodies : Nat → List (SeqOp α)) : Requested (start fullName arbitration bodies) where
  nodup := List.nodup_nil
  fresh r h := by cases h
  completed i h := by cases h
  waiting s i h := by cases h
  owner r h := by cases h
  req r h := by cases h

/-- No sequence has a parent. -/
def flatTree : SequenceTree := ⟨fun _ => [],fun _ => 100,fun _ => "seq"⟩

/-- Two sequences of one item each, which share the sequencer. -/
def twoBodies (a b : α) : Nat → List (SeqOp α)
  | 0 => [.item 0 a (-1) false]
  | 1 => [.item 0 b (-1) false]
  | _ => []

def twoRun (a b : α) (as : List Action) : Option (System α) :=
  Transitions.exec (step flatTree) (start "sqr" .fifo (twoBodies a b)) as

def bothAsk : List Action := [.resume 0,.resume 1,.resume 0,.resume 1]

/-- A turn of the driver that `s` answers, and the return of its `finish_item`. -/
def turnOf (s : Nat) : List Action :=
  [.tryNextItem (fun _ => true) 0,.resume s,.resume s,.tryPeek (fun _ => true) 0,.resume s,
    .resume s]

/-- The invariants that need no assumption on the mode or on the run. -/
theorem identified_run {fullName : String} {arbitration : ArbMode}
    {bodies : Nat → List (SeqOp α)} {as : List Action} {x : System α}
    (h : Transitions.exec (step t) (start fullName arbitration bodies) as = some x) :
    Registered x ∧ Requested x := by
  refine Transitions.exec_invariant (step t) (P := fun x => Registered x ∧ Requested x)
    (A := fun _ => True) ?_ (fun _ _ => trivial) h
    ⟨registered_start fullName arbitration bodies,requested_start fullName arbitration bodies⟩
  rintro x a y _ hs ⟨hr,hq⟩
  obtain ⟨_,m⟩ := step_cases hs
  exact ⟨registered_move hr m,requested_move hq hr m⟩

/-- Every request in the queue and every lock belongs to a sequence that has started and not
exited, under the identifier that it alone has and is registered by; no request is in the
queue twice or after its grant, and a request for an item is the one that its process waits
for. -/
theorem queues_run {fullName : String} {arbitration : ArbMode} {bodies : Nat → List (SeqOp α)}
    {as : List Action} {x : System α}
    (h : Transitions.exec (step t) (start fullName arbitration bodies) as = some x) :
    (x.sqr.arbSequenceQ.map SequenceRequest.requestId).Nodup ∧
    (∀ r ∈ x.sqr.arbSequenceQ, (x.phase r.sequencePtr).running = true ∧
      x.sqr.sqrSeqIds r.sequencePtr = some r.sequenceId ∧
      x.sqr.regSequences r.sequenceId = some r.sequencePtr ∧ r.requestId ∉ x.sqr.arbCompleted ∧
      (r.request = .req → (x.phase r.sequencePtr).grantId = some r.requestId)) ∧
    (∀ l ∈ x.sqr.lockList, (x.phase l).running = true ∧
      ∃ i, x.sqr.sqrSeqIds l = some i ∧ x.sqr.regSequences i = some l) ∧
    ∀ s s' i, x.sqr.sqrSeqIds s = some i → x.sqr.sqrSeqIds s' = some i → s = s' := by
  obtain ⟨hr,hq⟩ := identified_run h
  have hrun : ∀ s i, x.sqr.sqrSeqIds s = some i → (x.phase s).running = true := by
    intro s i hi
    cases hs : (x.phase s).running with
    | true => rfl
    | false =>
      rw [hr.idle s hs] at hi
      cases hi
  refine ⟨hq.nodup,?_,?_,hr.inj⟩
  · intro r hmem
    obtain ⟨hi,hreg⟩ := hr.queued r hmem
    exact ⟨hrun _ _ hi,hi,hreg,fun hc => (hq.completed _ hc).2 r hmem rfl,hq.req r hmem⟩
  · intro l hl
    obtain ⟨i,hi,hreg⟩ := hr.locked l hl
    exact ⟨hrun l i hi,i,hi,hreg⟩

def bothAsked : System Nat := (twoRun 1 2 bothAsk).get (by decide)

theorem bothAsked_queues :
    (bothAsked.sqr.arbSequenceQ.map SequenceRequest.requestId).Nodup ∧
    ∀ r ∈ bothAsked.sqr.arbSequenceQ, (bothAsked.phase r.sequencePtr).running = true :=
  have h := queues_run (Option.some_get (show (twoRun 1 2 bothAsk).isSome by decide)).symm
  ⟨h.1,fun r hr => (h.2.1 r hr).1⟩

/-- `stop_sequences` kills every registered sequence, and brings every reachable state back to
an idle one. -/
theorem stop_run {fullName : String} {arbitration : ArbMode} {bodies : Nat → List (SeqOp α)}
    {as : List Action} {x y : System α}
    (h : Transitions.exec (step t) (start fullName arbitration bodies) as = some x)
    (hy : step t x .stopSequences = some y) :
    Idle y ∧ ∀ i s, x.sqr.regSequences i = some s → y.killed s = true ∧ y.phase s = .exited := by
  obtain ⟨_,m⟩ := step_cases hy
  cases m
  have hr := (identified_run h).1
  exact ⟨stopSequences_idle hr,fun i s hs => stopSequences_killed hr hs⟩

/-- Both sequences were registered. -/
theorem bothAsked_stopped : Idle (stopSequences flatTree bothAsked) ∧
    (stopSequences flatTree bothAsked).killed 0 = true ∧
    (stopSequences flatTree bothAsked).killed 1 = true :=
  have h := stop_run (Option.some_get (show (twoRun 1 2 bothAsk).isSome by decide)).symm rfl
  ⟨h.1,(h.2 1 0 rfl).1,(h.2 2 1 rfl).1⟩

theorem invariant_start (fullName : String) (arbitration : ArbMode)
    (bodies : Nat → List (SeqOp α)) : SequencerInvariant (start fullName arbitration bodies) where
  registered := registered_start fullName arbitration bodies
  requested := requested_start fullName arbitration bodies
  semaphores _ _ := rfl
  singleGrant := by
    refine Handshake.quiet ?_ false none
    rintro s ⟨_,h | ⟨i,h,_⟩⟩ <;> cases h
  mode := Or.inr (fun r h => by cases h)
  fatals m h := by cases h

theorem invariant_step {x y : System α} {a : Action} (h : SequencerInvariant x)
    (ha : x.sqr.arbitration.isFifo = true ∨ ∀ s, a ≠ .kill s) (hs : step t x a = some y) :
    SequencerInvariant y ∧ y.sqr.arbitration = x.sqr.arbitration := by
  obtain ⟨hf,m⟩ := step_cases hs
  have hnone := (fatal_eq_false_iff x.sqr).mp hf
  have hreg := registered_move h.registered m
  obtain ⟨hm,hfatal⟩ := move_fatals h.singleGrant h.semaphores m
  refine ⟨⟨hreg,requested_move h.requested h.registered m,semaphores_move h.semaphores m,
    singleGrant_move h.singleGrant h.registered h.requested h.semaphores h.mode m,
    safeMode_move h.mode h.registered h.singleGrant h.semaphores m ha,?_⟩,hm⟩
  intro message hmem
  rw [hm]
  rcases hfatal with hq | ⟨hn,hq | ⟨message',hid,hq⟩⟩
  · rw [hq,hnone] at hmem
    cases hmem
  · rw [hq,hnone] at hmem
    cases hmem
  · rw [hq,hnone,List.nil_append] at hmem
    rw [List.mem_singleton.mp hmem]
    exact ⟨hn,hid⟩

/-- What every move keeps where the invariant holds is kept by every run, and so is the
invariant. Outside FIFO mode the runs considered kill no sequence by itself. -/
theorem invariant_run {P : System α → Prop} {fullName : String} {arbitration : ArbMode}
    {bodies : Nat → List (SeqOp α)} (hstart : P (start fullName arbitration bodies))
    (hmove : ∀ x a y, SequencerInvariant x → P x → Move t x a y → P y) {as : List Action}
    {x : System α}
    (ha : arbitration.isFifo = true ∨ ∀ s, .kill s ∉ as)
    (h : Transitions.exec (step t) (start fullName arbitration bodies) as = some x) :
    (SequencerInvariant x ∧ x.sqr.arbitration = arbitration) ∧ P x := by
  refine Transitions.exec_invariant (step t)
    (P := fun x => (SequencerInvariant x ∧ x.sqr.arbitration = arbitration) ∧ P x)
    (A := fun a => arbitration.isFifo = true ∨ ∀ s, a ≠ .kill s) ?_ ?_ h
    ⟨⟨invariant_start fullName arbitration bodies,rfl⟩,hstart⟩
  · rintro x a y ha hs ⟨⟨hx,hm⟩,hp⟩
    rw [← hm] at ha
    obtain ⟨hy,hm'⟩ := invariant_step hx ha hs
    exact ⟨⟨hy,hm'.trans hm⟩,hmove x a y hx hp (step_cases hs).2⟩
  · intro a hmem
    rcases ha with hf | hk
    · exact Or.inl hf
    · right
      rintro s rfl
      exact hk s hmem

/-- One request at a time is answered: at most one live process holds a grant, none does
while an item waits in the request FIFO or before the driver asks, the FIFO never holds two
items, and no call of the handshake is ever fatal. -/
theorem handshake_run {fullName : String} {arbitration : ArbMode}
    {bodies : Nat → List (SeqOp α)} {as : List Action} {x : System α}
    (ha : arbitration.isFifo = true ∨ ∀ s, .kill s ∉ as)
    (h : Transitions.exec (step t) (start fullName arbitration bodies) as = some x) :
    x.sqr.reqFifo.length ≤ 1 ∧
    (∀ s s', x.HoldsGrant s → x.HoldsGrant s' → s = s') ∧
    (x.sqr.reqFifo ≠ [] → ∀ s, ¬ x.HoldsGrant s) ∧
    (x.sqr.getNextItemCalled = false → x.sqr.reqFifo = [] ∧ ∀ s, ¬ x.HoldsGrant s) ∧
    (arbitration.isFifo = true → x.sqr.fatal = false) ∧
    ∀ m ∈ x.sqr.fatals, m.id ∈ choiceIds := by
  obtain ⟨⟨hs,hm⟩,_⟩ :=
    invariant_run (P := fun _ => True) trivial (fun _ _ _ _ _ _ => trivial) ha h
  have hh := hs.singleGrant
  refine ⟨hh.single,hh.unique,hh.sent,hh.idle,?_,fun m hmem => (hs.fatals m hmem).2⟩
  intro hf
  rw [fatal_eq_false_iff,List.eq_nil_iff_forall_not_mem]
  intro m hmem
  have hn := (hs.fatals m hmem).1
  rw [hm,hf] at hn
  cases hn

/-- After the first turn the second request is granted. -/
theorem twoRun_handshake :
    let x := (twoRun 1 2 (bothAsk ++ (turnOf 0 ++ [.tryNextItem (fun _ => true) 0]))).get
      (by decide)
    x.HoldsGrant 1 ∧ ∀ s, x.HoldsGrant s → s = 1 :=
  have h := handshake_run (Or.inl rfl) (Option.some_get (show (twoRun 1 2
    (bothAsk ++ (turnOf 0 ++ [.tryNextItem (fun _ => true) 0]))).isSome by decide)).symm
  have hone : ((twoRun 1 2 (bothAsk ++ (turnOf 0 ++ [.tryNextItem (fun _ => true) 0]))).get
      (by decide)).HoldsGrant 1 := ⟨by decide,Or.inr ⟨1,by decide,by decide⟩⟩
  ⟨hone,fun s hs => h.2.1 s 1 hs hone⟩

end System

end MemoryController.Uvm
