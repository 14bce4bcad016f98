import MemoryController.Uvm.Safety

/-!
Waiting processes. `m_wait_for_arbitration_completed` looks again only after `m_update_lists`
has counted on, so a grant that came without it would be lost.
-/

set_option autoImplicit false

namespace MemoryController.Uvm
open UvmSequencer

namespace UvmSequencer

variable {α : Type} {t : SequenceTree} {gone : Nat → Prop}

/-- Whatever `q'` has granted and `q` has not, `q'` has counted. -/
structure Counted (q q' : UvmSequencer α) : Prop where
  size : q.lockArbSize ≤ q'.lockArbSize
  granted : ∀ i ∈ q'.arbCompleted, i ∈ q.arbCompleted ∨ q.lockArbSize < q'.lockArbSize

theorem counted_refl (q : UvmSequencer α) : Counted q q :=
  ⟨Int.le_refl _,fun _ hi => Or.inl hi⟩

theorem counted_register (q : UvmSequencer α) (s : Nat) :
    Counted q (q.registerSequence s).1 := by
  have hq := counted_refl q
  unfold registerSequence
  split <;> exact ⟨hq.size,hq.granted⟩

theorem Counted.trans {q q' q'' : UvmSequencer α} (h : Counted q q') (h' : Counted q' q'') :
    Counted q q'' := by
  have hs := h.size
  have hs' := h'.size
  refine ⟨Int.le_trans hs hs',?_⟩
  intro i hi
  rcases h'.granted i hi with hi | hlt
  · rcases h.granted i hi with hi | hlt
    · exact Or.inl hi
    · right
      omega
  · right
    omega

theorem counted_trimmed {q q' : UvmSequencer α} (h : Trimmed t gone q q') : Counted q q' := by
  refine ⟨h.size,?_⟩
  intro i hi
  rw [h.rest] at hi
  exact Or.inl hi

theorem counted_next {q q' : UvmSequencer α} (h : q'.lockArbSize = q.lockArbSize+1) :
    Counted q q' := by
  have hlt : q.lockArbSize < q'.lockArbSize := by omega
  exact ⟨Int.le_of_lt hlt,fun _ _ => Or.inr hlt⟩

theorem counted_settles {q q' : UvmSequencer α} (h : Settles t gone q q') : Counted q q' := by
  obtain ⟨p,ht,rfl | ⟨i,r,_,_,_,rfl⟩⟩ := h
  · exact counted_trimmed ht
  · exact (counted_trimmed ht).trans (counted_next rfl)

theorem counted_waitForGrant (q : UvmSequencer α) (s : Nat) (itemPriority : Int32)
    (lockRequest : Bool) : Counted q (q.waitForGrant s itemPriority lockRequest).1 := by
  have hr : (q.registerSequence s).1.lockArbSize = q.lockArbSize := by
    unfold registerSequence
    split <;> rfl
  refine counted_next ?_
  cases lockRequest <;> exact congrArg (· + 1) hr

theorem counted_lockReq (q : UvmSequencer α) (ss : Sequences) (s : Nat) (lock : Bool) :
    Counted q (q.lockReq ss s lock).1 := by
  have hr := counted_register q s
  unfold lockReq
  generalize q.registerSequence s = result at hr ⊢
  rcases result with ⟨p,i⟩
  cases lock with
  | true =>
    have hp : Counted q (p.pushBack (p.request .lock 0 s i)) := ⟨hr.size,hr.granted⟩
    exact hp.trans (counted_settles (settles_grantQueuedLocks _ ss))
  | false =>
    have hu : Counted p (p.pushFront (p.request .lock 0 s i)).updateLists := counted_next rfl
    exact (Counted.trans hr hu).trans (counted_settles (settles_grantQueuedLocks _ ss))

theorem counted_unlockReq (q : UvmSequencer α) (ss : Sequences) (s : Nat) :
    Counted q (q.unlockReq ss s) := by
  have hl := counted_settles (settles_grantQueuedLocks
    { q with lockList := q.lockList.erase s } ss)
  unfold unlockReq
  split
  · refine ⟨?_,?_⟩
    · have hs := hl.size
      change q.lockArbSize ≤ _ + 1
      exact Int.le_trans hs (by omega)
    · intro i hi
      rcases hl.granted i hi with hi | hlt
      · exact Or.inl hi
      · right
        exact Int.lt_trans hlt (Int.lt_succ _)
  · exact ⟨Int.le_refl _,fun _ hi => Or.inl hi⟩

end UvmSequencer

namespace System

variable {α : Type} {t : SequenceTree}

/-- The count that a waiting process has noted. -/
def noted : SeqPhase → Option (Nat × Int)
  | .waitArbitration _ i n => some (i,n)
  | _ => none

/-- A process that waits for a granted request has not seen the present count. -/
def Wakes (x : System α) : Prop :=
  ∀ s i n, noted (x.phase s) = some (i,n) →
    n ≤ x.sqr.lockArbSize ∧ (i ∈ x.sqr.arbCompleted → n < x.sqr.lockArbSize)

theorem Wakes.sqr {x : System α} (h : Wakes x) {q : UvmSequencer α} (hq : Counted x.sqr q) :
    Wakes { x with sqr := q } := by
  intro s i n hn
  obtain ⟨hle,hlt⟩ := h s i n hn
  have hs := hq.size
  refine ⟨Int.le_trans hle hs,?_⟩
  intro hi
  change n < q.lockArbSize
  rcases hq.granted i hi with hi | hg
  · have hlt := hlt hi
    omega
  · omega

/-- The process that moves does not wait any more, or notes the present count. -/
theorem Wakes.move {x y : System α} (h : Wakes x) {s : Nat} {new : SeqPhase}
    (hp : y.phase = Function.update x.phase s new) (hq : Counted x.sqr y.sqr)
    (hn : ∀ i n, noted new = some (i,n) →
      n = y.sqr.lockArbSize ∧ i ∉ y.sqr.arbCompleted) : Wakes y := by
  have hw : Wakes { x with sqr := y.sqr } := h.sqr hq
  intro s' i n hs'
  rw [hp] at hs'
  by_cases he : s' = s
  · rw [he,Function.update_self] at hs'
    obtain ⟨hi,hc⟩ := hn i n hs'
    exact ⟨Int.le_of_eq hi,fun hc' => absurd hc' hc⟩
  · rw [Function.update_of_ne he] at hs'
    exact hw s' i n hs'

theorem wakes_waitForArbitration {x : System α} (h : Wakes x) (type : SeqReqType) (s i : Nat) :
    Wakes (x.waitForArbitration type s i) := by
  rcases waitForArbitration_cases x type s i with ⟨_,he⟩ | ⟨hc,he⟩ <;> rw [he]
  · refine h.move (phase_pass ..)
      ⟨Int.le_refl _,fun j hj => Or.inl (List.mem_filter.mp hj).1⟩ ?_
    intro j n hn
    cases type <;> cases hn
  · refine h.move (phase_setPhase ..) (counted_refl x.sqr) ?_
    intro j n hn
    cases hn
    exact ⟨rfl,hc⟩

theorem wakes_exit {x : System α} (h : Wakes x) (s : Nat) : Wakes (exitSequence t x s) := by
  have hq := counted_trimmed (trimmed_exitQueues t x s)
  refine h.move (phase_setPhase x s .exited) ?_ (fun j n hn => by cases hn)
  exact ⟨hq.size,hq.granted⟩

theorem wakes_kill {x : System α} (h : Wakes x) (s : Nat) : Wakes (x.kill s) := by
  unfold Wakes
  rw [phase_kill]
  exact h

theorem wakes_stopLoop {turns : Nat} {x : System α} (h : Wakes x) :
    Wakes (stopLoop t turns x) := by
  induction turns generalizing x with
  | zero => exact h
  | succ turns ih =>
    unfold stopLoop
    split
    · exact ih (wakes_exit (wakes_kill h _) _)
    · exact h

theorem wakes_arbitrate {x y : System α} (h : Wakes x) {relevant : Nat → Bool} {draw : Nat}
    (ha : arbitrate t x relevant draw = some y) : Wakes y := by
  obtain ⟨p,hs,ht⟩ := chooseNextRequest_settles x.sqr (x.sequences t) relevant draw
  obtain ⟨q,hq,hc⟩ := arbitrate_cases ha
  rw [hq] at ht
  have hx := (counted_settles hs).trans (counted_trimmed ht)
  rcases hc with ⟨_,rfl⟩ | ⟨i,r,_,_,rfl⟩
  · exact h.sqr hx
  · have hg : Counted x.sqr (q.grantAt i r) := hx.trans (counted_next rfl)
    exact h.sqr (q := { q.grantAt i r with
      sequenceItemRequested := true, getNextItemCalled := true }) ⟨hg.size,hg.granted⟩

theorem wakes_move {x y : System α} {a : Action} (h : Wakes x) (m : Move t x a y) :
    Wakes y := by
  cases m with
  | @start s hk hp =>
    exact h.move (phase_setPhase ..) (counted_register x.sqr s) (fun j n hn => by cases hn)
  | finish hk hp hb => exact wakes_exit h _
  | request hk hp hb =>
    exact wakes_waitForArbitration (h.sqr (counted_waitForGrant x.sqr _ _ _)) _ _ _
  | lock lock hk hp hb =>
    exact wakes_waitForArbitration (h.sqr (counted_lockReq x.sqr _ _ lock)) _ _ _
  | unlock hk hp hb =>
    exact (h.sqr (counted_unlockReq x.sqr _ _)).move (phase_advance ..) (counted_refl _)
      (fun j n hn => by cases hn)
  | arbitrated hk hp hn => exact wakes_waitForArbitration h _ _ _
  | @send s handle payload itemPriority lockRequest rest hk hp hb =>
    obtain ⟨fifo,messages,he⟩ := sendRequest_eq x.sqr (x.sequences t) (x.proc s) s handle payload
    have hq := counted_settles (settles_grantQueuedLocks { x.sqr with
      reqFifo := fifo, reports := messages, numReqsSent := x.sqr.numReqsSent+1 }
      (x.sequences t))
    rw [← he] at hq
    exact h.move (phase_finishItem x s handle payload) ⟨hq.size,hq.granted⟩
      (fun j n hn => by cases hn)
  | done hk hp hi => exact h.move (phase_setPhase ..) (counted_refl _) (fun j n hn => by cases hn)
  | kill hr => exact wakes_kill h _
  | cleanup hk hr => exact wakes_exit h _
  | stop =>
    obtain ⟨messages,he,_⟩ := stopSequences_eq (t := t) x
    rw [he]
    exact wakes_stopLoop h
  | twice hn hg => exact h
  | select hn hg ha => exact wakes_arbitrate h ha
  | @item relevant draw r item rest hn hf =>
    rw [itemDone_eq hf]
    have hq := counted_settles (settles_grantQueuedLocks { x.sqr with
      sequenceItemRequested := false
      getNextItemCalled := false
      reqFifo := rest
      waitForItemSequenceId := item.sequenceId
      waitForItemTransactionId := item.transactionId } (x.sequences t))
    exact h.sqr ⟨hq.size,hq.granted⟩
  | @again relevant draw r y hn hf hk ha =>
    have hf : Counted x.sqr (x.sqr.forget r.requestId) :=
      ⟨Int.le_refl _,fun j hj => Or.inl (List.mem_filter.mp hj).1⟩
    exact wakes_arbitrate (h.sqr hf) ha
  | blocked hn hf hk => exact h

/-- No sequence is the child of another. -/
def Flat (t : SequenceTree) : Prop := ∀ s, t.parents s = []

theorem Flat.isChild (h : Flat t) (s s' : Nat) : t.isChild s s' = false := by
  unfold SequenceTree.isChild
  rw [h]
  rfl

/-- The request with identifier `i`, made by `s`, is granted or in the queue. -/
def Tracked (q : UvmSequencer α) (i s : Nat) : Prop :=
  i ∈ q.arbCompleted ∨ ∃ r ∈ q.arbSequenceQ, r.requestId = i ∧ r.sequencePtr = s

theorem tracked_trimmed {q q' : UvmSequencer α} {gone : Nat → Prop} {next : Nat}
    {phase : Nat → SeqPhase} {killed : Nat → Bool} (hflat : Flat t)
    (hr : Registry q.arbSequenceQ q.lockList q.regSequences q.sqrSeqIds next phase killed)
    (ht : Trimmed t gone q q') {i s : Nat} (hs : ¬ gone s) (h : Tracked q i s) :
    Tracked q' i s := by
  rcases h with hc | ⟨r,hmem,rfl,rfl⟩
  · left
    rw [ht.rest]
    exact hc
  · right
    by_cases hq : r ∈ q'.arbSequenceQ
    · exact ⟨r,hq,rfl,rfl⟩
    · obtain ⟨s,hg,hof⟩ := ht.dropped r hmem hq
      unfold ofSequence at hof
      rw [hflat.isChild,Bool.or_false,beq_iff_eq] at hof
      rw [hr.inj s r.sequencePtr _ hof (hr.queued r hmem).1] at hg
      exact absurd hg hs

theorem tracked_grant {q q' : UvmSequencer α} {j : Nat} {r : SequenceRequest}
    (hr : q.arbSequenceQ[j]? = some r) (ha : q'.arbSequenceQ = q.arbSequenceQ.eraseIdx j)
    (hc : q'.arbCompleted = r.requestId :: q.arbCompleted) {i s : Nat} (h : Tracked q i s) :
    Tracked q' i s := by
  unfold Tracked
  rw [ha,hc]
  rcases h with hmem | ⟨r',hmem,rfl,rfl⟩
  · exact Or.inl (List.mem_cons_of_mem _ hmem)
  · by_cases he : r'.requestId = r.requestId
    · left
      rw [he]
      exact List.mem_cons_self
    · right
      refine ⟨r',?_,rfl,rfl⟩
      obtain ⟨k,hk⟩ := List.mem_iff_getElem?.mp hmem
      refine List.mem_eraseIdx_iff_getElem?.mpr ⟨k,?_,hk⟩
      rintro rfl
      rw [hr] at hk
      cases hk
      exact he rfl

theorem tracked_settles {q q' : UvmSequencer α} {gone : Nat → Prop} {next : Nat}
    {phase : Nat → SeqPhase} {killed : Nat → Bool} (hflat : Flat t)
    (hr : Registry q.arbSequenceQ q.lockList q.regSequences q.sqrSeqIds next phase killed)
    (hs : Settles t gone q q') {i s : Nat} (hn : ¬ gone s) (h : Tracked q i s) :
    Tracked q' i s := by
  obtain ⟨p,ht,rfl | ⟨j,r,hget,_,_,rfl⟩⟩ := hs
  · exact tracked_trimmed hflat hr ht hn h
  · exact tracked_grant hget rfl rfl (tracked_trimmed hflat hr ht hn h)

/-- No request of a live process is lost, and the one that the driver waits for is its own. -/
structure Served (x : System α) : Prop where
  tracked : ∀ s i, x.killed s = false → (x.phase s).waitId = some i → Tracked x.sqr i s
  chosen : ∀ r, x.tryNext = some r → r.requestId < x.sqr.requestId ∧
    ∀ s, (x.phase s).waitId = some r.requestId → s = r.sequencePtr

theorem Served.sqr {x : System α} (h : Served x) {q : UvmSequencer α}
    (hid : x.sqr.requestId ≤ q.requestId)
    (ht : ∀ s i, x.killed s = false → Tracked x.sqr i s → Tracked q i s) :
    Served { x with sqr := q } :=
  ⟨fun s i hk hw => ht s i hk (h.tracked s i hk hw),
    fun r hr => ⟨Nat.lt_of_lt_of_le (h.chosen r hr).1 hid,(h.chosen r hr).2⟩⟩

/-- The process that moves has stopped waiting. -/
theorem Served.leave {x y : System α} (h : Served x) {s : Nat} {new : SeqPhase}
    (hp : y.phase = Function.update x.phase s new) (hn : new.waitId = none)
    (hk : ∀ s', s' ≠ s → y.killed s' = false → x.killed s' = false)
    (ht : ∀ s' i, s' ≠ s → x.killed s' = false → (x.phase s').waitId = some i →
      Tracked x.sqr i s' → Tracked y.sqr i s')
    (hr : y.tryNext = x.tryNext) (hid : x.sqr.requestId ≤ y.sqr.requestId) : Served y := by
  have hold : ∀ s' i, (y.phase s').waitId = some i → s' ≠ s ∧ (x.phase s').waitId = some i := by
    intro s' i hw
    rw [hp] at hw
    by_cases he : s' = s
    · rw [he,Function.update_self,hn] at hw
      cases hw
    · rw [Function.update_of_ne he] at hw
      exact ⟨he,hw⟩
  refine ⟨?_,?_⟩
  · intro s' i hk' hw
    obtain ⟨he,hw⟩ := hold s' i hw
    have hkx := hk s' he hk'
    exact ht s' i he hkx hw (h.tracked s' i hkx hw)
  · intro r hr'
    rw [hr] at hr'
    obtain ⟨hlt,hc⟩ := h.chosen r hr'
    exact ⟨Nat.lt_of_lt_of_le hlt hid,fun s' hw => hc s' (hold s' _ hw).2⟩

/-- The wait of `s` for its request `i`. -/
theorem Served.enter {x y : System α} (h : Served x) {s i : Nat} {new : SeqPhase}
    (hp : y.phase = Function.update x.phase s new) (hn : new.waitId = some i)
    (hk : y.killed = x.killed) (hq : y.sqr = x.sqr) (hr : y.tryNext = x.tryNext)
    (hi : Tracked x.sqr i s) (hc : ∀ r, x.tryNext = some r → r.requestId = i →
      s = r.sequencePtr) : Served y := by
  refine ⟨?_,?_⟩
  · intro s' j hk' hw
    rw [hk] at hk'
    rw [hp] at hw
    rw [hq]
    by_cases he : s' = s
    · rw [he,Function.update_self,hn] at hw
      cases hw
      rw [he]
      exact hi
    · rw [Function.update_of_ne he] at hw
      exact h.tracked s' j hk' hw
  · intro r hr'
    rw [hr] at hr'
    obtain ⟨hlt,hown⟩ := h.chosen r hr'
    rw [hq]
    refine ⟨hlt,?_⟩
    intro s' hw
    rw [hp] at hw
    by_cases he : s' = s
    · rw [he,Function.update_self,hn] at hw
      rw [he]
      exact hc r hr' (Option.some.inj hw).symm
    · rw [Function.update_of_ne he] at hw
      exact hown s' hw

/-- Forgetting a granted request of `s` loses none of the others. -/
theorem tracked_forget {q : UvmSequencer α} {i j s : Nat} (hij : j ≠ i) (h : Tracked q j s) :
    Tracked (q.forget i) j s := by
  rcases h with hc | hq
  · left
    refine List.mem_filter.mpr ⟨hc,?_⟩
    rw [decide_eq_true_iff]
    exact hij
  · exact Or.inr hq

theorem served_waitForArbitration {x : System α} (h : Served x) {type : SeqReqType}
    {s i : Nat} (hi : Tracked x.sqr i s) (hu : ∀ s', s' ≠ s → (x.phase s').waitId ≠ some i)
    (hc : ∀ r, x.tryNext = some r → r.requestId = i → s = r.sequencePtr) :
    Served (x.waitForArbitration type s i) := by
  rcases waitForArbitration_cases x type s i with ⟨_,he⟩ | ⟨_,he⟩ <;> rw [he]
  · refine h.leave (phase_pass ..) (by cases type <;> rfl) ?_ ?_ rfl (Nat.le_refl _)
    · intro s' _ hk
      rw [killed_pass] at hk
      exact hk
    · intro s' j hs' _ hw ht
      refine tracked_forget ?_ ht
      rintro rfl
      exact hu s' hs' hw
  · exact h.enter (phase_setPhase ..) rfl (killed_setPhase ..) rfl rfl hi hc

theorem served_exit {x : System α} (hflat : Flat t) (h : Served x) (hr : Registered x)
    (s : Nat) : Served (exitSequence t x s) := by
  have hid : (exitSequence t x s).sqr.requestId = x.sqr.requestId := by
    change (exitQueues t x s).requestId = _
    rw [(trimmed_exitQueues t x s).rest]
  refine h.leave (phase_setPhase x s .exited) rfl ?_ ?_ rfl (Nat.le_of_eq hid.symm)
  · intro s' _ hk
    have hk' : (exitSequence t x s).killed = x.killed := killed_setPhase x s .exited
    rw [hk'] at hk
    exact hk
  · intro s' i hs' _ _ ht
    exact tracked_trimmed hflat hr (trimmed_exitQueues t x s) hs' ht

theorem dead_of_alive {x : System α} {s : Nat} (hk : x.killed s = false) :
    ¬ Dead (x.sequences t) s := by
  intro hd
  change x.killed s = true at hd
  rw [hk] at hd
  cases hd

theorem served_arbitrate {x y : System α} (hflat : Flat t) (h : Served x)
    (hr : Registered x) (hq : Requested x) {relevant : Nat → Bool} {draw : Nat}
    (ha : arbitrate t x relevant draw = some y) : Served y := by
  obtain ⟨p,hs,ht⟩ := chooseNextRequest_settles x.sqr (x.sequences t) relevant draw
  obtain ⟨q,hch,hc⟩ := arbitrate_cases ha
  rw [hch] at ht
  have hp := Registered.settles hr hs (fun _ hd => hd)
  have hid : q.requestId = x.sqr.requestId := by
    rw [ht.rest]
    change p.requestId = _
    rw [hs.rest]
  have hkeep : ∀ s i, x.killed s = false → Tracked x.sqr i s → Tracked q i s :=
    fun s i hk hi => tracked_trimmed hflat hp ht (dead_of_alive hk)
      (tracked_settles hflat hr hs (dead_of_alive hk) hi)
  have hx := h.sqr (Nat.le_of_eq hid.symm) hkeep
  have hrq : Requests q.arbSequenceQ q.arbCompleted q.requestId x.phase :=
    Requested.trimmed (Requested.settles hq hs) ht
  rcases hc with ⟨_,rfl⟩ | ⟨j,r,_,hget,rfl⟩
  · exact ⟨hx.tracked,fun r hn => by cases hn⟩
  · refine ⟨?_,?_⟩
    · intro s i hk hw
      exact tracked_grant hget rfl rfl (hx.tracked s i hk hw)
    · rintro r' hr'
      cases hr'
      have hmem := List.mem_of_getElem? hget
      exact ⟨hrq.fresh r hmem,fun s hw => (hrq.owner r hmem s hw).1⟩

theorem served_queue {x : System α} (h : Served x) {q : UvmSequencer α}
    (hid : x.sqr.requestId ≤ q.requestId) (hc : q.arbCompleted = x.sqr.arbCompleted)
    (ha : ∀ r ∈ x.sqr.arbSequenceQ, r ∈ q.arbSequenceQ) : Served { x with sqr := q } := by
  refine h.sqr hid ?_
  rintro s i _ (hi | ⟨r,hr,he⟩)
  · left
    rw [hc]
    exact hi
  · exact Or.inr ⟨r,ha r hr,he⟩

/-- The wait for a request that has just been queued. -/
theorem fresh_request {x : System α} (h : Served x) (hq : Requested x) (s : Nat) :
    (∀ s', s' ≠ s → (x.phase s').waitId ≠ some x.sqr.requestId) ∧
      ∀ r, x.tryNext = some r → r.requestId = x.sqr.requestId → s = r.sequencePtr := by
  refine ⟨fun s' _ hw => absurd (hq.waiting s' _ hw).1 (Nat.lt_irrefl _),?_⟩
  intro r hr he
  have hlt := (h.chosen r hr).1
  omega

theorem served_waitForGrant {x : System α} (h : Served x) (hq : Requested x) {s i : Nat}
    (hi : x.sqr.sqrSeqIds s = some i) (itemPriority : Int32) :
    Served ({ x with sqr := (x.sqr.waitForGrant s itemPriority false).1 }.waitForArbitration
      .req s (x.sqr.waitForGrant s itemPriority false).2) := by
  obtain ⟨hu,hc⟩ := fresh_request h hq s
  rw [waitForGrant_plain hi]
  have hx := served_queue h (q :=
    (x.sqr.pushBack (x.sqr.request .req itemPriority s i)).updateLists)
    (Nat.le_succ _) rfl (fun r hr => List.mem_append_left _ hr)
  exact served_waitForArbitration hx
    (Or.inr ⟨_,List.mem_append_right _ List.mem_cons_self,rfl,rfl⟩) hu hc

theorem served_lock {x : System α} (hflat : Flat t) (h : Served x) (hr : Registered x)
    (hq : Requested x) {s : Nat} (hrun : (x.phase s).running = true)
    (hk : x.killed s = false) (lock : Bool) :
    Served ({ x with sqr := (x.sqr.lockReq (x.sequences t) s lock).1 }.waitForArbitration
      .lock s (x.sqr.lockReq (x.sequences t) s lock).2) := by
  obtain ⟨hu,hc⟩ := fresh_request h hq s
  obtain ⟨i,hi⟩ := hr.ident s hrun
  rw [lockReq_eq hi]
  have hpush : ∃ p : UvmSequencer α,
      (if lock then x.sqr.pushBack (x.sqr.request .lock 0 s i)
        else (x.sqr.pushFront (x.sqr.request .lock 0 s i)).updateLists) = p ∧
      p.arbSequenceQ.Perm (x.sqr.request .lock 0 s i :: x.sqr.arbSequenceQ) ∧
      p.arbCompleted = x.sqr.arbCompleted ∧ p.requestId = x.sqr.requestId+1 ∧
      p.lockList = x.sqr.lockList ∧ p.regSequences = x.sqr.regSequences ∧
      p.sqrSeqIds = x.sqr.sqrSeqIds ∧ p.nextSequenceId = x.sqr.nextSequenceId := by
    cases lock with
    | true => exact ⟨_,rfl,List.perm_append_singleton _ _,rfl,rfl,rfl,rfl,rfl,rfl⟩
    | false => exact ⟨_,rfl,List.Perm.refl _,rfl,rfl,rfl,rfl,rfl,rfl⟩
  obtain ⟨p,he,hperm,hcomp,hid,hl,hreg,hids,hnext⟩ := hpush
  have hp : Registry p.arbSequenceQ p.lockList p.regSequences p.sqrSeqIds p.nextSequenceId
      x.phase x.killed := by
    rw [hl,hreg,hids,hnext]
    exact registered_queue hr hrun hk hi rfl rfl hperm
  have hs := settles_grantQueuedLocks p (x.sequences t)
  have hx := (served_queue h (q := p) (by omega) hcomp
    (fun r hr => hperm.mem_iff.mpr (List.mem_cons_of_mem _ hr))).sqr
    (q := p.grantQueuedLocks (x.sequences t)) (by rw [hs.rest])
    (fun s i hk hi => tracked_settles hflat hp hs (dead_of_alive hk) hi)
  have hi : Tracked (p.grantQueuedLocks (x.sequences t)) x.sqr.requestId s :=
    tracked_settles hflat hp hs (dead_of_alive hk)
      (Or.inr ⟨_,hperm.mem_iff.mpr List.mem_cons_self,rfl,rfl⟩)
  simp only [he]
  exact served_waitForArbitration hx hi hu hc

theorem served_move {x y : System α} {a : Action} (hflat : Flat t) (h : Served x)
    (hr : Registered x) (hq : Requested x) (m : Move t x a y) : Served y := by
  cases m with
  | @start s hk hp =>
    refine h.leave (phase_setPhase ..) rfl (fun s' _ hk => ?_) ?_ rfl ?_
    · rw [killed_setPhase] at hk
      exact hk
    · intro s' i _ _ _ hi
      unfold registerSequence
      split <;> exact hi
    · change x.sqr.requestId ≤ (x.sqr.registerSequence s).1.requestId
      unfold registerSequence
      split <;> exact Nat.le_refl _
  | finish hk hp hb => exact served_exit hflat h hr _
  | @request s handle payload itemPriority lockRequest rest hk hp hb =>
    obtain ⟨i,hi⟩ := hr.ident s (by rw [phase,hp]; rfl)
    cases lockRequest with
    | false => exact served_waitForGrant h hq hi itemPriority
    | true =>
      rw [waitForGrant_lock hi]
      have hl : Requested { x with sqr := x.sqr.pushBack (x.sqr.request .lock 0 s i) } :=
        requested_push hq (List.perm_append_singleton _ _) rfl rfl
      exact served_waitForGrant (served_queue h
        (q := x.sqr.pushBack (x.sqr.request .lock 0 s i)) (Nat.le_succ _) rfl
        (fun r hr => List.mem_append_left _ hr)) hl hi itemPriority
  | @lock s lock rest hk hp hb =>
    exact served_lock hflat h hr hq (by rw [phase,hp]; rfl) hk lock
  | @unlock s rest hk hp hb =>
    have hs := settles_grantQueuedLocks { x.sqr with lockList := x.sqr.lockList.erase s }
      (x.sequences t)
    have hreg := Registry.unlock hr (List.erase_sublist (a := s) (l := x.sqr.lockList))
    have hx : Served { x with sqr := x.sqr.unlockReq (x.sequences t) s } := by
      unfold unlockReq
      split
      · refine h.sqr ?_ ?_
        · change x.sqr.requestId ≤ (UvmSequencer.grantQueuedLocks _ _).requestId
          rw [hs.rest]
        · intro s' i hk' hi
          exact tracked_settles (q := { x.sqr with lockList := x.sqr.lockList.erase s })
            hflat hreg hs (dead_of_alive hk') hi
      · exact h.sqr (Nat.le_refl _) (fun _ _ _ hi => hi)
    refine hx.leave (phase_advance ..) rfl ?_ (fun _ _ _ _ _ hi => hi) rfl (Nat.le_refl _)
    intro s' _ hk'
    have hke := killed_advance { x with sqr := x.sqr.unlockReq (x.sequences t) s } s
    rw [hke] at hk'
    exact hk'
  | @arbitrated type s i n hk hp hn =>
    have hw : (x.phase s).waitId = some i := by rw [phase,hp]; rfl
    refine served_waitForArbitration h (h.tracked s i hk hw) ?_ ?_
    · exact fun s' hs' hw' => hs' ((hq.waiting s i hw).2 s' hw')
    · rintro r hr rfl
      exact (h.chosen r hr).2 s hw
  | @send s handle payload itemPriority lockRequest rest hk hp hb =>
    obtain ⟨fifo,messages,he⟩ := sendRequest_eq x.sqr (x.sequences t) (x.proc s) s handle payload
    have hs := settles_grantQueuedLocks { x.sqr with
      reqFifo := fifo, reports := messages, numReqsSent := x.sqr.numReqsSent+1 }
      (x.sequences t)
    rw [← he] at hs
    refine h.leave (phase_finishItem x s handle payload) rfl ?_ ?_ rfl ?_
    · intro s' _ hk'
      rw [killed_finishItem] at hk'
      exact hk'
    · intro s' i _ hk' _ hi
      exact tracked_settles (q := { x.sqr with
        reqFifo := fifo, reports := messages, numReqsSent := x.sqr.numReqsSent+1 })
        hflat hr hs (dead_of_alive hk') hi
    · change x.sqr.requestId ≤
        (x.sqr.sendRequest (x.sequences t) (x.proc s) s handle payload).1.requestId
      rw [hs.rest]
  | done hk hp hi =>
    refine h.leave (phase_setPhase ..) rfl ?_ (fun _ _ _ _ _ hi => hi) rfl (Nat.le_refl _)
    intro s' _ hk'
    rw [killed_setPhase] at hk'
    exact hk'
  | @kill s hrun =>
    refine ⟨?_,?_⟩
    · intro s' i hk' hw
      rw [phase_kill] at hw
      refine h.tracked s' i ?_ hw
      rw [killed_kill] at hk'
      by_cases he : s' = s
      · rw [he,Function.update_self] at hk'
        cases hk'
      · rw [Function.update_of_ne he] at hk'
        exact hk'
    · intro r hr'
      rw [phase_kill]
      exact h.chosen r hr'
  | cleanup hk hrun => exact served_exit hflat h hr _
  | stop =>
    have hi := stopSequences_idle (t := t) hr
    obtain ⟨messages,he,_⟩ := stopSequences_eq (t := t) x
    refine ⟨?_,?_⟩
    · intro s i hk hw
      have hs := hi.stopped s hk
      cases hp : (stopSequences t x).phase s with
      | waitArbitration type j n =>
        rw [hp] at hs
        cases hs
      | _ =>
        rw [hp] at hw
        cases hw
    · rw [he]
      intro r hn
      obtain ⟨hn',_,hid⟩ := stopLoop_driver (t := t) (x := x)
      obtain ⟨hlt,hown⟩ := h.chosen r (hn'.symm.trans hn)
      refine ⟨Nat.lt_of_lt_of_le hlt (Nat.le_of_eq hid.symm),?_⟩
      intro s hw
      unfold phase at hw
      rcases stopLoop_proc (t := t) (x := x) _ s with hp | ⟨_,hp⟩
      · rw [hp] at hw
        exact hown s hw
      · rw [hp] at hw
        cases hw
  | twice hn hg => exact ⟨h.tracked,fun r hr => by cases hr⟩
  | select hn hg ha => exact served_arbitrate hflat h hr hq ha
  | @item relevant draw r item rest hn hf =>
    rw [itemDone_eq hf]
    have hs := settles_grantQueuedLocks { x.sqr with
      sequenceItemRequested := false
      getNextItemCalled := false
      reqFifo := rest
      waitForItemSequenceId := item.sequenceId
      waitForItemTransactionId := item.transactionId } (x.sequences t)
    have hx := h.sqr (by rw [hs.rest]) (fun s i hk hi => tracked_settles (q := { x.sqr with
      sequenceItemRequested := false
      getNextItemCalled := false
      reqFifo := rest
      waitForItemSequenceId := item.sequenceId
      waitForItemTransactionId := item.transactionId }) hflat hr hs (dead_of_alive hk) hi)
    exact ⟨hx.tracked,fun r hr => by cases hr⟩
  | @again relevant draw r y hn hf hk ha =>
    have hx : Served (x.forget r.requestId) := by
      refine ⟨?_,h.chosen⟩
      intro s i hs hw
      refine tracked_forget ?_ (h.tracked s i hs hw)
      rintro rfl
      have hs' : x.killed s = false := hs
      rw [(h.chosen r hn).2 s hw,killed,hk] at hs'
      cases hs'
    exact served_arbitrate (x := x.forget r.requestId) hflat hx hr (requested_forget hq _) ha
  | blocked hn hf hk => exact ⟨h.tracked,fun r hr => by cases hr⟩

theorem wakes_start (fullName : String) (arbitration : ArbMode)
    (bodies : Nat → List (SeqOp α)) : Wakes (start fullName arbitration bodies) :=
  fun s i n hn => by cases hn

theorem served_start (fullName : String) (arbitration : ArbMode)
    (bodies : Nat → List (SeqOp α)) : Served (start fullName arbitration bodies) where
  tracked s i _ hw := by cases hw
  chosen r hr := by cases hr

/-- In every run without parent sequences the request of a live process that waits is in the
queue, or it is granted and the process can go on at once. -/
theorem wakeup_run {fullName : String} {arbitration : ArbMode} {bodies : Nat → List (SeqOp α)}
    {as : List Action} {x : System α} (hflat : Flat t)
    (h : Transitions.exec (step t) (start fullName arbitration bodies) as = some x)
    {s i : Nat} (hk : x.killed s = false) (hw : (x.phase s).waitId = some i) :
    (∃ r ∈ x.sqr.arbSequenceQ, r.requestId = i ∧ r.sequencePtr = s) ∨
      i ∈ x.sqr.arbCompleted ∧ (resume t x s).isSome = true := by
  have hall : (Registered x ∧ Requested x) ∧ Wakes x ∧ Served x := by
    refine Transitions.exec_invariant (step t)
      (P := fun x => (Registered x ∧ Requested x) ∧ Wakes x ∧ Served x)
      (A := fun _ => True) ?_ (fun _ _ => trivial) h
      ⟨⟨registered_start ..,requested_start ..⟩,wakes_start fullName arbitration bodies,
        served_start ..⟩
    rintro x a y _ hs ⟨⟨hr,hq⟩,hw,hv⟩
    obtain ⟨_,m⟩ := step_cases hs
    exact ⟨⟨registered_move hr m,requested_move hq hr m⟩,wakes_move hw m,
      served_move hflat hv hr hq m⟩
  obtain ⟨_,hwakes,hserved⟩ := hall
  rcases hserved.tracked s i hk hw with hc | hq
  · right
    refine ⟨hc,?_⟩
    unfold killed at hk
    unfold resume
    rw [hk]
    cases hp : (x.proc s).phase with
    | waitArbitration type j n =>
      rw [phase,hp] at hw
      cases hw
      have hlt := (hwakes s i n (by rw [phase,hp]; rfl)).2 hc
      have hne : ¬ x.sqr.lockArbSize = n := by omega
      simp [hne]
    | _ =>
      rw [phase,hp] at hw
      cases hw
  · exact Or.inl hq

/-- The driver has taken the request of the first sequence, and the second one has looked. -/
def firstChosen : System Nat :=
  (twoRun 1 2 (bothAsk ++ [.tryNextItem (fun _ => true) 0,.resume 1])).get (by decide)

theorem firstChosen_wakeup :
    0 ∈ firstChosen.sqr.arbCompleted ∧ (resume flatTree firstChosen 0).isSome = true := by
  have h := wakeup_run (s := 0) (i := 0) (fun _ => rfl) (Option.some_get (show (twoRun 1 2
    (bothAsk ++ [.tryNextItem (fun _ => true) 0,.resume 1])).isSome by decide)).symm rfl rfl
  rcases h with ⟨r,hr,hi,_⟩ | h
  · rw [List.mem_singleton.mp hr] at hi
    cases hi
  · exact h

end System

end MemoryController.Uvm
