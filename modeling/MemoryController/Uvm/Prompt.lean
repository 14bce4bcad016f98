import MemoryController.Uvm.Items
import MemoryController.Uvm.Blocked
import MemoryController.Uvm.Wakeups

/-!
Runs as the tests of this repository make them: FIFO arbitration, sequences that only send
items, and a driver that looks at the sequencer when every process has come to its next wait.
The items are then driven in the order of their requests, and no turn is wasted.
-/

set_option autoImplicit false

namespace MemoryController.Uvm
open UvmSequencer

namespace System

variable {α : Type} {t : SequenceTree}

def PlainBody (body : List (SeqOp α)) : Prop :=
  ∀ op ∈ body, ∃ handle payload itemPriority, op = .item handle payload itemPriority false

/-- Every process that has been started waits for something. -/
def Settled (t : SequenceTree) (x : System α) : Prop :=
  ∀ s, x.phase s = .created ∨ resume t x s = none

/-- The driver acts in settled states only, all sequences are relevant, and none is killed or
stopped. -/
def Prompt (t : SequenceTree) (x : System α) : Action → Prop
  | .resume _ => True
  | .tryNextItem relevant _ => Settled t x ∧ ∀ s, relevant s = true
  | .tryPeek relevant _ => Settled t x ∧ ∀ s, relevant s = true
  | _ => False

/-- The items that the driver has driven. -/
def items (x : System α) : List (SequenceItem α) := x.driven.filterMap id

/-- How many requests have been granted. -/
def served (x : System α) : Nat := x.items.length + (if x.tryNext.isSome then 1 else 0)

/-- The queue holds the requests that are not served yet, by their numbers. -/
structure Orderly (x : System α) : Prop where
  alive : ∀ s, x.killed s = false
  plain : ∀ s, PlainBody (x.proc s).body
  unlocked : x.sqr.lockList = []
  requests : ∀ r ∈ x.sqr.arbSequenceQ, r.request = .req
  ids : x.sqr.arbSequenceQ.map SequenceRequest.requestId =
    List.range' x.served x.sqr.arbSequenceQ.length
  next : x.sqr.requestId = x.served + x.sqr.arbSequenceQ.length
  free : x.tryNext = none → x.sqr.getNextItemCalled = false ∧ x.sqr.reqFifo = []
  asked : ∀ r, x.tryNext = some r → r.requestId = x.items.length ∧
    (x.sqr.reqFifo = [] ∧ x.HoldsGrant r.sequencePtr ∨
      ∃ item, x.sqr.reqFifo = [item] ∧ item.parentSequence = r.sequencePtr)
  woken : ∀ s i, x.phase s = .waitItemDone i →
    (∃ item ∈ x.sqr.reqFifo, item.parentSequence = s ∧ item.sequenceId = i) ∨
      x.sqr.waitForItemSequenceId = i ∧ x.tryNext = none
  reports : x.sqr.reports = []

/-- With no lock request in the queue there is nothing to settle. -/
theorem grantQueuedLocks_plain {q : UvmSequencer α} (ss : Sequences)
    (h : ∀ r ∈ q.arbSequenceQ, r.request = .req) : q.grantQueuedLocks ss = q := by
  have hz : q.arbSequenceQ.filter (lockZombie ss) = [] := by
    rw [List.filter_eq_nil_iff]
    intro r hr
    simp [lockZombie,h r hr]
  have hl : q.arbSequenceQ.findIdx? (q.lockable ss.toSequenceTree) = none := by
    rw [List.findIdx?_eq_none_iff]
    intro r hr
    simp [lockable,h r hr]
  unfold grantQueuedLocks
  rw [hz]
  simp only [List.foldl_nil,hl]

/-- With no locks and every sequence relevant the head of the queue is chosen. -/
theorem chooseNextRequest_head {q : UvmSequencer α} (ss : Sequences) {relevant : Nat → Bool}
    (hf : q.arbitration = .fifo) (h : ∀ r ∈ q.arbSequenceQ, r.request = .req)
    (hk : ∀ s, ss.killed s = false) (hl : q.lockList = []) (hv : ∀ s, relevant s = true)
    (draw : Nat) : q.chooseNextRequest ss relevant draw =
      (q,if q.arbSequenceQ = [] then none else some 0) := by
  have he := grantQueuedLocks_plain ss h
  have ha : (q.grantQueuedLocks ss).AllAlive ss := fun r _ => hk r.sequencePtr
  have hm : q.arbitration.isFifo = true := by rw [hf]; rfl
  rw [chooseNextRequest_alive ha,he]
  simp only [hm,true_or,if_true,Prod.mk.injEq,true_and]
  have hall : ∀ r ∈ q.arbSequenceQ, q.eligible ss.toSequenceTree relevant r = true := by
    intro r hr
    rw [eligible_iff]
    refine ⟨h r hr,?_,hv r.sequencePtr⟩
    unfold isBlocked
    rw [hl]
    rfl
  unfold available
  cases hq : q.arbSequenceQ with
  | nil => rfl
  | cons r rest =>
    have h0 : q.eligibleAt ss.toSequenceTree relevant 0 = true := by
      unfold eligibleAt
      rw [hq]
      exact hall r (by rw [hq]; exact List.mem_cons_self)
    rw [List.length_cons,List.range_succ_eq_map,List.filter_cons,h0]
    rfl

/-- The exit of a sequence that has nothing in the queue, no lock and no children. -/
theorem exitQueues_plain {x : System α} (hflat : Flat t) (hr : Registered x)
    (hq : Requested x) (ho : Orderly x) {s : Nat} (hp : x.phase s = .ready) :
    (exitQueues t x s).arbSequenceQ = x.sqr.arbSequenceQ ∧
      (exitQueues t x s).lockList = [] ∧ (exitQueues t x s).reports = x.sqr.reports := by
  have hnone := Requested.no_request hq (s := s) (by rw [hp]; rfl)
  have hmine : ∀ r ∈ x.sqr.arbSequenceQ, x.sqr.ofSequence t s r = false := by
    intro r hmem
    unfold ofSequence
    rw [hflat.isChild,Bool.or_false,beq_eq_false_iff_ne]
    intro he
    exact hnone r hmem (ho.requests r hmem) (hr.inj _ _ _ (hr.queued r hmem).1 he)
  have hkeep : x.sqr.arbSequenceQ.filter (fun r => !x.sqr.ofSequence t s r) =
      x.sqr.arbSequenceQ := by
    rw [List.filter_eq_self]
    intro r hmem
    rw [hmine r hmem]
    rfl
  have hgone : x.sqr.arbSequenceQ.filter (x.sqr.ofSequence t s) = [] := by
    rw [List.filter_eq_nil_iff]
    intro r hmem
    rw [hmine r hmem]
    exact Bool.false_ne_true
  have hu : ∀ (p : UvmSequencer α) i, (p.unregisterSequence i).arbSequenceQ = p.arbSequenceQ ∧
      (p.unregisterSequence i).lockList = p.lockList ∧
      (p.unregisterSequence i).reports = p.reports := by
    intro p i
    cases i <;> exact ⟨rfl,rfl,rfl⟩
  unfold exitQueues removeSequenceFromQueues
  refine ⟨?_,?_,?_⟩
  · rw [(hu _ _).1]
    exact hkeep
  · rw [(hu _ _).2.1]
    change x.sqr.lockList.filter _ = []
    rw [ho.unlocked]
    rfl
  · rw [(hu _ _).2.2]
    change x.sqr.reports ++ (if _ then (x.sqr.arbSequenceQ.filter (x.sqr.ofSequence t s)).map _ ++
      (x.sqr.lockList.filter _).map _ else []) = _
    rw [hgone,ho.unlocked]
    simp

/-- Nothing that the order of service depends on has changed. -/
structure Still (x y : System α) : Prop where
  queue : y.sqr.arbSequenceQ = x.sqr.arbSequenceQ
  locks : y.sqr.lockList = x.sqr.lockList
  next : y.sqr.requestId = x.sqr.requestId
  asked : y.sqr.getNextItemCalled = x.sqr.getNextItemCalled
  fifo : y.sqr.reqFifo = x.sqr.reqFifo
  item : y.sqr.waitForItemSequenceId = x.sqr.waitForItemSequenceId
  reports : y.sqr.reports = x.sqr.reports
  tryNext : y.tryNext = x.tryNext
  driven : y.driven = x.driven
  killed : y.killed = x.killed

theorem Orderly.still {x y : System α} (h : Orderly x) (hs : Still x y)
    (hb : ∀ s, PlainBody (y.proc s).body) (hh : ∀ s, x.HoldsGrant s → y.HoldsGrant s)
    (hw : ∀ s i, y.phase s = .waitItemDone i → x.phase s = .waitItemDone i) : Orderly y := by
  have hi : y.items = x.items := by
    unfold items
    rw [hs.driven]
  have hn : y.served = x.served := by
    unfold served
    rw [hi,hs.tryNext]
  refine ⟨?_,hb,?_,?_,?_,?_,?_,?_,?_,?_⟩
  · rw [hs.killed]
    exact h.alive
  · rw [hs.locks]
    exact h.unlocked
  · rw [hs.queue]
    exact h.requests
  · rw [hs.queue,hn]
    exact h.ids
  · rw [hs.queue,hs.next,hn]
    exact h.next
  · rw [hs.tryNext,hs.asked,hs.fifo]
    exact h.free
  · intro r hr
    rw [hs.tryNext] at hr
    obtain ⟨hid,hcase⟩ := h.asked r hr
    rw [hi,hs.fifo]
    refine ⟨hid,?_⟩
    rcases hcase with ⟨hf,hg⟩ | hitem
    · exact Or.inl ⟨hf,hh _ hg⟩
    · exact Or.inr hitem
  · intro s i hp
    rw [hs.fifo,hs.item,hs.tryNext]
    exact h.woken s i (hw s i hp)
  · rw [hs.reports]
    exact h.reports

theorem plainBody_tail {body : List (SeqOp α)} (h : PlainBody body) : PlainBody body.tail :=
  fun op hop => h op (List.mem_of_mem_tail hop)

/-- A process that holds no grant goes to a phase without one. -/
theorem Orderly.rephase {x y : System α} (h : Orderly x) (hs : Still x y)
    (hc : y.sqr.arbCompleted = x.sqr.arbCompleted) {s : Nat} {p : SeqProcess α}
    (hy : y.proc = Function.update x.proc s p) (hb : PlainBody p.body)
    (hn : ¬ x.HoldsGrant s) (hp : ∀ i, p.phase ≠ .waitItemDone i) : Orderly y := by
  have hphase : ∀ s', s' ≠ s → y.phase s' = x.phase s' := by
    intro s' he
    unfold phase
    rw [hy,Function.update_of_ne he]
  refine h.still hs ?_ ?_ ?_
  · rw [hy]
    exact (Function.forall_update_iff x.proc (fun _ p => PlainBody p.body)).mpr
      ⟨hb,fun s' _ => h.plain s'⟩
  · intro s' hg
    have he : s' ≠ s := by
      rintro rfl
      exact hn hg
    unfold HoldsGrant Holds at hg ⊢
    rw [hs.killed,hphase s' he,hc]
    exact hg
  · intro s' i hw
    by_cases he : s' = s
    · unfold phase at hw
      rw [he,hy,Function.update_self] at hw
      exact absurd hw (hp i)
    · rw [hphase s' he] at hw
      exact hw

/-- All that is known of a state of such a run. -/
structure PromptInvariant (x : System α) : Prop where
  invariant : SequencerInvariant x
  mode : x.sqr.arbitration = .fifo
  heads : Heads x
  wakes : Wakes x
  tracked : Served x
  orderly : Orderly x

theorem still_register {x : System α} (s : Nat) (p : SeqProcess α)
    (hk : p.killed = (x.proc s).killed) :
    Still x ({ x with sqr := (x.sqr.registerSequence s).1 }.setProc s p) ∧
      (x.sqr.registerSequence s).1.arbCompleted = x.sqr.arbCompleted := by
  have hkilled : ∀ q : UvmSequencer α,
      ({ x with sqr := q }.setProc s p).killed = x.killed := by
    intro q
    rw [killed_setProc,hk]
    exact Function.update_eq_self s x.killed
  unfold registerSequence
  split <;> exact ⟨⟨rfl,rfl,rfl,rfl,rfl,rfl,rfl,rfl,rfl,hkilled _⟩,rfl⟩

theorem orderly_start {x : System α} (h : Orderly x) {s : Nat} (hp : x.phase s = .created) :
    Orderly ({ x with sqr := (x.sqr.registerSequence s).1 }.setPhase s .ready) := by
  obtain ⟨hs,hc⟩ := still_register (x := x) s { x.proc s with phase := .ready } rfl
  exact h.rephase hs hc rfl (h.plain s) (not_holds (by rw [hp]; exact SeqPhase.noConfusion)
    (by rw [hp]; rfl) _) (fun i => SeqPhase.noConfusion)

theorem orderly_finish {x : System α} (hflat : Flat t) (h : PromptInvariant x) {s : Nat}
    (hp : x.phase s = .ready) : Orderly (exitSequence t x s) := by
  obtain ⟨ha,hl,hm⟩ := exitQueues_plain hflat h.invariant.registered h.invariant.requested
    h.orderly hp
  have hrest := (trimmed_exitQueues t x s).rest
  have hs : Still x (exitSequence t x s) := by
    refine ⟨ha,?_,?_,?_,?_,?_,hm,rfl,rfl,killed_setPhase x s .exited⟩
    · rw [h.orderly.unlocked]
      exact hl
    · change (exitQueues t x s).requestId = _
      rw [hrest]
    · change (exitQueues t x s).getNextItemCalled = _
      rw [hrest]
    · change (exitQueues t x s).reqFifo = _
      rw [hrest]
    · change (exitQueues t x s).waitForItemSequenceId = _
      rw [hrest]
  have hc : (exitSequence t x s).sqr.arbCompleted = x.sqr.arbCompleted := by
    change (exitQueues t x s).arbCompleted = _
    rw [hrest]
  exact h.orderly.rephase hs hc rfl (h.orderly.plain s)
    (not_holds (by rw [hp]; exact SeqPhase.noConfusion) (by rw [hp]; rfl) _)
    (fun i => SeqPhase.noConfusion)

/-- The request of a sequence gets the next number, and the last place. -/
theorem orderly_request {x : System α} (h : PromptInvariant x) {s : Nat} (hp : x.phase s = .ready)
    (itemPriority : Int32) :
    Orderly ({ x with sqr := (x.sqr.waitForGrant s itemPriority false).1 }.waitForArbitration
      .req s (x.sqr.waitForGrant s itemPriority false).2) := by
  obtain ⟨i,hi⟩ := h.invariant.registered.ident s (by rw [hp]; rfl)
  rw [waitForGrant_plain hi]
  rcases waitForArbitration_cases { x with
      sqr := (x.sqr.pushBack (x.sqr.request .req itemPriority s i)).updateLists } .req s
      x.sqr.requestId with ⟨hc,_⟩ | ⟨hc,he⟩
  · exact absurd (h.invariant.requested.completed x.sqr.requestId hc).1 (Nat.lt_irrefl _)
  simp only at he ⊢
  rw [he]
  have ho := h.orderly
  have hn := not_holds (x := x) (s := s) (by rw [hp]; exact SeqPhase.noConfusion)
    (by rw [hp]; rfl) x.sqr.arbCompleted
  have hhold : ∀ s', x.HoldsGrant s' → Holds x.killed
      (Function.update x.phase s
        (.waitArbitration .req x.sqr.requestId (x.sqr.lockArbSize+1)))
      x.sqr.arbCompleted s' := by
    intro s' hg
    rw [holds_update]
    left
    refine ⟨?_,hg⟩
    rintro rfl
    exact hn hg
  refine ⟨?_,?_,ho.unlocked,?_,?_,?_,ho.free,?_,?_,ho.reports⟩
  · rw [killed_setPhase]
    exact ho.alive
  · change ∀ s', PlainBody (Function.update x.proc s _ s').body
    exact (Function.forall_update_iff x.proc (fun _ p => PlainBody p.body)).mpr
      ⟨ho.plain s,fun s' _ => ho.plain s'⟩
  · intro r hr
    rcases List.mem_append.mp hr with hr | hr
    · exact ho.requests r hr
    · rw [List.mem_singleton.mp hr]
      rfl
  · change (x.sqr.arbSequenceQ ++ [_]).map SequenceRequest.requestId =
      List.range' x.served (x.sqr.arbSequenceQ ++ [_]).length
    rw [List.map_append,ho.ids,List.length_append,List.length_singleton,List.range'_concat]
    simp [UvmSequencer.request,ho.next]
  · change x.sqr.requestId+1 = x.served + (x.sqr.arbSequenceQ ++ [_]).length
    have hnext := ho.next
    rw [List.length_append,List.length_singleton]
    omega
  · intro r hr
    obtain ⟨hid,hcase⟩ := ho.asked r hr
    refine ⟨hid,?_⟩
    rcases hcase with ⟨hf,hg⟩ | hitem
    · left
      refine ⟨hf,?_⟩
      unfold HoldsGrant
      rw [phase_setPhase,killed_setPhase]
      exact hhold _ hg
    · exact Or.inr hitem
  · intro s' j hw
    rw [phase_setPhase] at hw
    by_cases he : s' = s
    · rw [he,Function.update_self] at hw
      cases hw
    · rw [Function.update_of_ne he] at hw
      exact ho.woken s' j hw

theorem orderly_grant {x : System α} (h : PromptInvariant x) {s i : Nat} {n : Int}
    (hp : x.phase s = .waitArbitration .req i n) :
    Orderly (x.waitForArbitration .req s i) := by
  have hg : (x.phase s).grantId = some i := by rw [hp]; rfl
  rcases waitForArbitration_cases x .req s i with ⟨hc,he⟩ | ⟨hc,he⟩ <;> rw [he]
  · have hs : x.HoldsGrant s := ⟨h.orderly.alive s,Or.inr ⟨i,hg,hc⟩⟩
    refine h.orderly.still
      ⟨rfl,rfl,rfl,rfl,rfl,rfl,rfl,rfl,rfl,killed_pass x .req s i⟩ ?_ ?_ ?_
    · change ∀ s', PlainBody (Function.update x.proc s _ s').body
      exact (Function.forall_update_iff x.proc (fun _ p => PlainBody p.body)).mpr
        ⟨h.orderly.plain s,fun s' _ => h.orderly.plain s'⟩
    · intro s' hs'
      rw [h.invariant.singleGrant.unique s' s hs' hs]
      unfold HoldsGrant
      rw [phase_pass,killed_pass]
      exact ⟨h.orderly.alive s,Or.inl (Function.update_self ..)⟩
    · intro s' j hw
      rw [phase_pass] at hw
      by_cases hs' : s' = s
      · rw [hs',Function.update_self] at hw
        cases hw
      · rw [Function.update_of_ne hs'] at hw
        exact hw
  · refine h.orderly.rephase
      ⟨rfl,rfl,rfl,rfl,rfl,rfl,rfl,rfl,rfl,killed_setPhase x s _⟩ rfl rfl
      (h.orderly.plain s) ?_ (fun j => SeqPhase.noConfusion)
    rintro ⟨_,hh | ⟨j,hj,hm⟩⟩
    · rw [hp] at hh
      cases hh
    · rw [hg] at hj
      cases hj
      exact hc hm

/-- Only the process that the driver has chosen can send. -/
theorem chosen_holds {x : System α} (h : PromptInvariant x) {s : Nat} (hs : x.HoldsGrant s) :
    ∃ r, x.tryNext = some r ∧ r.sequencePtr = s ∧ r.requestId = x.items.length := by
  cases hn : x.tryNext with
  | none =>
    have hidle := h.invariant.singleGrant.idle (h.orderly.free hn).1
    exact absurd hs (hidle.2 s)
  | some r =>
    exact ⟨r,rfl,(h.invariant.singleGrant.expected r hn s hs).symm,(h.orderly.asked r hn).1⟩

theorem orderly_send {x : System α} (h : PromptInvariant x) {s : Nat} (hp : x.phase s = .granted)
    (handle : Nat) (payload : α) : Orderly (finishItem t x s handle payload) := by
  have ho := h.orderly
  have hs : x.HoldsGrant s := ⟨ho.alive s,Or.inl hp⟩
  obtain ⟨r,hr,hptr,hid⟩ := chosen_holds h hs
  have hempty := Handshake.fifo_empty h.invariant.singleGrant hs
  have hsqr := sqr_finishItem (t := t) h.invariant.singleGrant h.invariant.semaphores
    (ho.alive s) hp handle payload
  rw [grantQueuedLocks_plain (x.sequences t) (q := { x.sqr with
    reqFifo := [x.sqr.sentItem (x.proc s) s handle payload]
    numReqsSent := x.sqr.numReqsSent+1 }) ho.requests] at hsqr
  have hproc := proc_finishItem (t := t) x s handle payload
  have hkilled := killed_finishItem (t := t) x s handle payload
  refine ⟨?_,?_,?_,?_,?_,?_,?_,?_,?_,?_⟩
  · rw [hkilled]
    exact ho.alive
  · rw [hproc]
    exact (Function.forall_update_iff x.proc (fun _ p => PlainBody p.body)).mpr
      ⟨plainBody_tail (ho.plain s),fun s' _ => ho.plain s'⟩
  · rw [hsqr]
    exact ho.unlocked
  · rw [hsqr]
    exact ho.requests
  · rw [hsqr]
    exact ho.ids
  · rw [hsqr]
    exact ho.next
  · intro hn
    rw [show (finishItem t x s handle payload).tryNext = x.tryNext from rfl,hr] at hn
    cases hn
  · intro r' hr'
    rw [show (finishItem t x s handle payload).tryNext = x.tryNext from rfl,hr] at hr'
    cases hr'
    refine ⟨hid,Or.inr ?_⟩
    rw [hsqr]
    exact ⟨_,rfl,hptr.symm⟩
  · intro s' i hw
    left
    rw [hsqr]
    unfold phase at hw
    rw [hproc] at hw
    by_cases hs' : s' = s
    · rw [hs',Function.update_self] at hw
      cases hw
      exact ⟨_,List.mem_singleton.mpr rfl,hs'.symm,rfl⟩
    · rw [Function.update_of_ne hs'] at hw
      rcases ho.woken s' i hw with ⟨item,hitem,_⟩ | ⟨_,hn⟩
      · rw [hempty] at hitem
        cases hitem
      · rw [hr] at hn
        cases hn
  · rw [hsqr]
    exact ho.reports

/-- The driver takes the head of the queue, or there is none to take. -/
theorem prompt_arbitrate {x y : System α} (h : PromptInvariant x) {relevant : Nat → Bool}
    {draw : Nat} (hv : ∀ s, relevant s = true) (ha : arbitrate t x relevant draw = some y) :
    x.sqr.arbSequenceQ = [] ∧ y = x.returnItem none ∨
    ∃ r rest, x.sqr.arbSequenceQ = r :: rest ∧ y = { x with
      sqr := { x.sqr.grantAt 0 r with sequenceItemRequested := true, getNextItemCalled := true }
      tryNext := some r } := by
  have ho := h.orderly
  have hc := chooseNextRequest_head (x.sequences t) h.mode ho.requests ho.alive
    ho.unlocked hv draw
  obtain ⟨q,hq,hcase⟩ := arbitrate_cases ha
  rw [hc] at hq hcase
  simp only at hq
  subst hq
  cases harb : x.sqr.arbSequenceQ with
  | nil =>
    left
    rcases hcase with ⟨_,hy⟩ | ⟨i,r,hi,_,_⟩
    · exact ⟨rfl,hy⟩
    · rw [if_pos harb] at hi
      cases hi
  | cons r rest =>
    right
    have hne : ¬ x.sqr.arbSequenceQ = [] := by
      rw [harb]
      exact List.cons_ne_nil r rest
    simp only [if_neg hne] at hcase
    rcases hcase with ⟨hi,_⟩ | ⟨i,r',hi,hget,hy⟩
    · cases hi
    · cases hi
      rw [harb,List.getElem?_cons_zero] at hget
      cases hget
      exact ⟨r,rest,rfl,hy⟩

/-- Before a turn nobody waits for an item to be done. -/
theorem settled_idle {x : System α} (h : PromptInvariant x) (hs : Settled t x)
    (hn : x.tryNext = none) (s : Nat) (i : Int) : x.phase s ≠ .waitItemDone i := by
  intro hp
  have hempty := (h.orderly.free hn).2
  rcases h.orderly.woken s i hp with ⟨item,hitem,_⟩ | ⟨hi,_⟩
  · rw [hempty] at hitem
    cases hitem
  · have hk := h.orderly.alive s
    unfold phase at hp
    unfold killed at hk
    rcases hs s with hc | hr
    · rw [phase,hp] at hc
      cases hc
    · unfold resume at hr
      simp [hk,hp,hi] at hr

theorem orderly_select {x y : System α} (h : PromptInvariant x) (hs : Settled t x)
    {relevant : Nat → Bool} {draw : Nat} (hv : ∀ s, relevant s = true)
    (hn : x.tryNext = none) (ha : arbitrate t x relevant draw = some y) : Orderly y := by
  have ho := h.orderly
  rcases prompt_arbitrate h hv ha with ⟨_,rfl⟩ | ⟨r,rest,hq,rfl⟩
  · have hi : (x.returnItem none).items = x.items := by
      unfold items returnItem
      simp
    have hserved : (x.returnItem none).served = x.served := by
      unfold served
      rw [hi,hn]
      rfl
    refine ⟨ho.alive,ho.plain,ho.unlocked,ho.requests,?_,?_,fun _ => ho.free hn,?_,?_,ho.reports⟩
    · rw [hserved]
      exact ho.ids
    · rw [hserved]
      exact ho.next
    · intro r hr
      cases hr
    · intro s i hw
      exact absurd hw (settled_idle h hs hn s i)
  · have hserved : x.served = x.items.length := by
      unfold served
      rw [hn]
      rfl
    have hids := ho.ids
    have hnext := ho.next
    rw [hq,hserved,List.map_cons,List.length_cons,List.range'_succ] at hids
    injection hids with hid hids
    rw [hq,hserved,List.length_cons] at hnext
    have hmem : r ∈ x.sqr.arbSequenceQ := by
      rw [hq]
      exact List.mem_cons_self
    have herase : x.sqr.arbSequenceQ.eraseIdx 0 = rest := by
      rw [hq]
      rfl
    refine ⟨ho.alive,ho.plain,ho.unlocked,?_,?_,?_,?_,?_,?_,ho.reports⟩
    · intro r' hr'
      exact ho.requests r' (List.mem_of_mem_eraseIdx hr')
    · change (x.sqr.arbSequenceQ.eraseIdx 0).map SequenceRequest.requestId =
        List.range' (x.items.length+1) (x.sqr.arbSequenceQ.eraseIdx 0).length
      rw [herase]
      exact hids
    · change x.sqr.requestId = x.items.length+1 + (x.sqr.arbSequenceQ.eraseIdx 0).length
      rw [herase]
      omega
    · intro hn'
      cases hn'
    · rintro r' hr'
      cases hr'
      refine ⟨hid,Or.inl ⟨(ho.free hn).2,ho.alive _,Or.inr ⟨r.requestId,?_,List.mem_cons_self⟩⟩⟩
      exact h.invariant.requested.req r hmem (ho.requests r hmem)
    · intro s i hw
      exact absurd hw (settled_idle h hs hn s i)

theorem orderly_item {x : System α} (h : PromptInvariant x) {r : SequenceRequest}
    (hn : x.tryNext = some r) {item : SequenceItem α} {rest : List (SequenceItem α)}
    (hf : x.sqr.reqFifo = item :: rest) :
    Orderly ({ x with sqr := x.sqr.itemDone (x.sequences t) }.returnItem (some item)) := by
  have ho := h.orderly
  have hrest : rest = [] := by
    have hsingle := h.invariant.singleGrant.single
    rw [hf,List.length_cons] at hsingle
    exact List.eq_nil_of_length_eq_zero (by omega)
  have hi : ({ x with sqr := x.sqr.itemDone (x.sequences t) }.returnItem (some item)).items =
      x.items ++ [item] := by
    unfold items returnItem
    rw [List.filterMap_append]
    rfl
  have hserved : ({ x with sqr := x.sqr.itemDone (x.sequences t) }.returnItem
      (some item)).served = x.served := by
    unfold served
    rw [hi,hn,List.length_append]
    rfl
  have hsqr := itemDone_eq hf (x.sequences t)
  rw [grantQueuedLocks_plain (x.sequences t) (q := { x.sqr with
    sequenceItemRequested := false
    getNextItemCalled := false
    reqFifo := rest
    waitForItemSequenceId := item.sequenceId
    waitForItemTransactionId := item.transactionId }) ho.requests] at hsqr
  rw [hrest] at hsqr
  refine ⟨ho.alive,ho.plain,?_,?_,?_,?_,?_,?_,?_,?_⟩
  · change (x.sqr.itemDone (x.sequences t)).lockList = []
    rw [hsqr]
    exact ho.unlocked
  · change ∀ r ∈ (x.sqr.itemDone (x.sequences t)).arbSequenceQ, _
    rw [hsqr]
    exact ho.requests
  · rw [hserved]
    change (x.sqr.itemDone (x.sequences t)).arbSequenceQ.map _ =
      List.range' x.served (x.sqr.itemDone (x.sequences t)).arbSequenceQ.length
    rw [hsqr]
    exact ho.ids
  · rw [hserved]
    change (x.sqr.itemDone (x.sequences t)).requestId =
      x.served + (x.sqr.itemDone (x.sequences t)).arbSequenceQ.length
    rw [hsqr]
    exact ho.next
  · intro _
    change (x.sqr.itemDone (x.sequences t)).getNextItemCalled = false ∧
      (x.sqr.itemDone (x.sequences t)).reqFifo = []
    rw [hsqr]
    exact ⟨rfl,rfl⟩
  · intro r' hr'
    cases hr'
  · intro s i hw
    right
    refine ⟨?_,rfl⟩
    change (x.sqr.itemDone (x.sequences t)).waitForItemSequenceId = i
    rw [hsqr]
    rcases ho.woken s i hw with ⟨item',hitem,_,hid⟩ | ⟨_,hn'⟩
    · rw [hf,hrest] at hitem
      rw [← List.mem_singleton.mp hitem]
      exact hid
    · rw [hn] at hn'
      cases hn'
  · change (x.sqr.itemDone (x.sequences t)).reports = []
    rw [hsqr]
    exact ho.reports

/-- A granted process that has come to its next wait has sent its item. -/
theorem settled_item {x : System α} (h : PromptInvariant x) (hs : Settled t x)
    {r : SequenceRequest} (hn : x.tryNext = some r) :
    ∃ item, x.sqr.reqFifo = [item] ∧ item.parentSequence = r.sequencePtr := by
  rcases (h.orderly.asked r hn).2 with ⟨_,hk,hh⟩ | hitem
  · exfalso
    have hk' : (x.proc r.sequencePtr).killed = false := hk
    rcases hh with hp | ⟨i,hi,hc⟩
    · rcases hs r.sequencePtr with hcr | hr
      · rw [hp] at hcr
        cases hcr
      · have hhead := h.heads r.sequencePtr
        unfold phase at hp
        simp only [HeadOk,hp] at hhead
        obtain ⟨_,_,_,_,_,hb⟩ := hhead
        simp [resume,hk',hp,hb] at hr
    · cases hp : x.phase r.sequencePtr with
      | waitArbitration type j n =>
        rw [hp] at hi
        cases SeqPhase.waitId_of_grantId hi
        have hlt := (h.wakes r.sequencePtr i n (by rw [hp]; rfl)).2 hc
        have hne : ¬ x.sqr.lockArbSize = n := by omega
        rcases hs r.sequencePtr with hcr | hr
        · rw [hp] at hcr
          cases hcr
        · unfold phase at hp
          simp [resume,hk',hp,hne] at hr
      | _ =>
        rw [hp] at hi
        cases hi
  · exact hitem

/-- A process of a plain body never waits for a lock. -/
theorem plain_type {x : System α} (h : PromptInvariant x) {type : SeqReqType} {s i : Nat}
    {n : Int} (hp : (x.proc s).phase = .waitArbitration type i n) : type = .req := by
  cases type with
  | req => rfl
  | lock =>
    have hhead := h.heads s
    simp only [HeadOk,hp] at hhead
    obtain ⟨rest,hb | hb⟩ := hhead
    all_goals
      obtain ⟨_,_,_,he⟩ := h.orderly.plain s _ (by rw [hb]; exact List.mem_cons_self)
      cases he

theorem orderly_move {x y : System α} {a : Action} (hflat : Flat t) (h : PromptInvariant x)
    (hok : Prompt t x a) (m : Move t x a y) : Orderly y := by
  have ho := h.orderly
  cases m with
  | start hk hp => exact orderly_start ho hp
  | finish hk hp hb => exact orderly_finish hflat h hp
  | @request s handle payload itemPriority lockRequest rest hk hp hb =>
    obtain ⟨_,_,_,he⟩ := ho.plain s _ (by rw [hb]; exact List.mem_cons_self)
    cases he
    exact orderly_request h hp itemPriority
  | @lock s lock rest hk hp hb =>
    obtain ⟨_,_,_,he⟩ := ho.plain s _ (by rw [hb]; exact List.mem_cons_self)
    cases lock <;> cases he
  | @unlock s rest hk hp hb =>
    obtain ⟨_,_,_,he⟩ := ho.plain s _ (by rw [hb]; exact List.mem_cons_self)
    cases he
  | @arbitrated type s i n hk hp hn =>
    cases plain_type h hp
    exact orderly_grant h hp
  | send hk hp hb => exact orderly_send h hp _ _
  | @done s i hk hp hi =>
    exact ho.rephase ⟨rfl,rfl,rfl,rfl,rfl,rfl,rfl,rfl,rfl,killed_setPhase x s .ready⟩ rfl rfl
      (ho.plain s) (not_holds (by rw [phase,hp]; exact SeqPhase.noConfusion)
        (by rw [phase,hp]; rfl) _) (fun j => SeqPhase.noConfusion)
  | kill hr => exact hok.elim
  | cleanup hk hr => exact hok.elim
  | stop => exact hok.elim
  | twice hn hg =>
    rw [(ho.free hn).1] at hg
    cases hg
  | select hn hg ha => exact orderly_select h hok.1 hok.2 hn ha
  | item hn hf => exact orderly_item h hn hf
  | again hn hf hk ha =>
    have hd := ho.alive
    unfold killed at hd
    rw [hd] at hk
    cases hk
  | blocked hn hf hk =>
    obtain ⟨item,hitem,_⟩ := settled_item h hok.1 hn
    rw [hitem] at hf
    cases hf

theorem prompt_step {x y : System α} {a : Action} (hflat : Flat t) (h : PromptInvariant x)
    (hok : Prompt t x a) (hs : step t x a = some y) : PromptInvariant y := by
  obtain ⟨_,m⟩ := step_cases hs
  obtain ⟨hinv,hmode⟩ := invariant_step h.invariant (Or.inl (by rw [h.mode]; rfl)) hs
  exact ⟨hinv,hmode.trans h.mode,heads_move h.heads m,wakes_move h.wakes m,
    served_move hflat h.tracked h.invariant.registered h.invariant.requested m,
    orderly_move hflat h hok m⟩

theorem prompt_start {fullName : String} {bodies : Nat → List (SeqOp α)}
    (hb : ∀ s, PlainBody (bodies s)) : PromptInvariant (start fullName .fifo bodies) where
  invariant := invariant_start fullName .fifo bodies
  mode := rfl
  heads _ := trivial
  wakes := wakes_start fullName .fifo bodies
  tracked := served_start fullName .fifo bodies
  orderly :=
    { alive _ := rfl
      plain := hb
      unlocked := rfl
      requests r hr := by cases hr
      ids := rfl
      next := rfl
      free _ := ⟨rfl,rfl⟩
      asked r hr := by cases hr
      woken s i hw := by cases hw
      reports := rfl }

/-- Request number `k` was made by `s`. -/
def Asked (x : System α) (k s : Nat) : Prop :=
  (∃ r ∈ x.sqr.arbSequenceQ, r.requestId = k ∧ r.sequencePtr = s) ∨
    (∃ r, x.tryNext = some r ∧ r.requestId = k ∧ r.sequencePtr = s) ∨
    (x.items[k]?).map SequenceItem.parentSequence = some s

/-- The processes add requests to the queue and take none away. -/
theorem queue_resume {x y : System α} {s : Nat} (hflat : Flat t) (h : PromptInvariant x)
    (m : Move t x (.resume s) y) {r : SequenceRequest} (hr : r ∈ x.sqr.arbSequenceQ) :
    r ∈ y.sqr.arbSequenceQ := by
  have ho := h.orderly
  have hplain : ∀ {op rest}, (x.proc s).body = op :: rest → ∃ handle payload itemPriority,
      op = .item handle payload itemPriority false :=
    fun hb => ho.plain s _ (by rw [hb]; exact List.mem_cons_self)
  cases m with
  | start hk hp =>
    obtain ⟨hs,_⟩ := still_register (x := x) s { x.proc s with phase := .ready } rfl
    change r ∈ (({ x with sqr := (x.sqr.registerSequence s).1 } : System α).setPhase s
      .ready).sqr.arbSequenceQ
    rw [show (({ x with sqr := (x.sqr.registerSequence s).1 } : System α).setPhase s
      .ready).sqr.arbSequenceQ = x.sqr.arbSequenceQ from hs.queue]
    exact hr
  | finish hk hp hb =>
    change r ∈ (exitQueues t x s).arbSequenceQ
    rw [(exitQueues_plain hflat h.invariant.registered h.invariant.requested ho hp).1]
    exact hr
  | @request s handle payload itemPriority lockRequest rest hk hp hb =>
    obtain ⟨_,_,_,he⟩ := hplain hb
    cases he
    obtain ⟨i,hi⟩ := h.invariant.registered.ident s (by rw [phase,hp]; rfl)
    obtain ⟨completed,ha⟩ := sqr_waitForArbitration { x with
      sqr := (x.sqr.waitForGrant s itemPriority false).1 } .req s
      (x.sqr.waitForGrant s itemPriority false).2
    rw [ha,waitForGrant_plain hi]
    exact List.mem_append_left _ hr
  | lock lock hk hp hb =>
    obtain ⟨_,_,_,he⟩ := hplain hb
    cases lock <;> cases he
  | unlock hk hp hb =>
    obtain ⟨_,_,_,he⟩ := hplain hb
    cases he
  | @arbitrated type s i n hk hp hn =>
    obtain ⟨completed,ha⟩ := sqr_waitForArbitration x type s i
    rw [ha]
    exact hr
  | @send s handle payload itemPriority lockRequest rest hk hp hb =>
    rw [sqr_finishItem h.invariant.singleGrant h.invariant.semaphores (ho.alive s) hp,
      grantQueuedLocks_plain (x.sequences t) (q := { x.sqr with
        reqFifo := [x.sqr.sentItem (x.proc s) s handle payload]
        numReqsSent := x.sqr.numReqsSent+1 }) ho.requests]
    exact hr
  | done hk hp hi => exact hr

theorem asked_kept {x y : System α} (hq : ∀ r ∈ x.sqr.arbSequenceQ, r ∈ y.sqr.arbSequenceQ)
    (hn : y.tryNext = x.tryNext) (hd : y.driven = x.driven) {k s : Nat} (h : Asked x k s) :
    Asked y k s := by
  rcases h with ⟨r,hr,he⟩ | ⟨r,hr,he⟩ | hi
  · exact Or.inl ⟨r,hq r hr,he⟩
  · exact Or.inr (Or.inl ⟨r,hn.trans hr,he⟩)
  · right
    right
    unfold items at hi ⊢
    rw [hd]
    exact hi

/-- No request is dropped, and each ends at its own place among the driven items. -/
theorem asked_step {x y : System α} {a : Action} (hflat : Flat t) (h : PromptInvariant x)
    (hok : Prompt t x a) (hs : step t x a = some y) {k s : Nat} (hk : Asked x k s) :
    Asked y k s := by
  have ho := h.orderly
  obtain ⟨_,m⟩ := step_cases hs
  cases a with
  | resume s' =>
    have hd := driverKept_resume m
    exact asked_kept (fun r hr => queue_resume hflat h m hr) hd.tryNext hd.driven hk
  | kill s' => exact hok.elim
  | exit s' => exact hok.elim
  | stopSequences => exact hok.elim
  | tryNextItem relevant draw =>
    cases m with
    | twice hn hg =>
      rw [(ho.free hn).1] at hg
      cases hg
    | select hn hg ha =>
      rcases prompt_arbitrate h hok.2 ha with ⟨hq,rfl⟩ | ⟨r,rest,hq,rfl⟩
      · rcases hk with ⟨r,hr,_⟩ | ⟨r,hr,_⟩ | hi
        · rw [hq] at hr
          cases hr
        · rw [hn] at hr
          cases hr
        · right
          right
          unfold items at hi ⊢
          simpa [returnItem] using hi
      · rcases hk with ⟨r',hr',he⟩ | ⟨r',hr',_⟩ | hi
        · rw [hq] at hr'
          rcases List.mem_cons.mp hr' with rfl | hr'
          · exact Or.inr (Or.inl ⟨r',rfl,he⟩)
          · left
            refine ⟨r',?_,he⟩
            change r' ∈ x.sqr.arbSequenceQ.eraseIdx 0
            rw [hq]
            exact hr'
        · rw [hn] at hr'
          cases hr'
        · exact Or.inr (Or.inr hi)
  | tryPeek relevant draw =>
    cases m with
    | @item relevant draw r item rest hn hf =>
      obtain ⟨item',hitem,hptr⟩ := settled_item h hok.1 hn
      rw [hf] at hitem
      injection hitem with hitem _
      have hid := (ho.asked r hn).1
      have hsqr : (x.sqr.itemDone (x.sequences t)).arbSequenceQ = x.sqr.arbSequenceQ := by
        rw [itemDone_eq hf,grantQueuedLocks_plain (x.sequences t) (q := { x.sqr with
          sequenceItemRequested := false
          getNextItemCalled := false
          reqFifo := rest
          waitForItemSequenceId := item.sequenceId
          waitForItemTransactionId := item.transactionId }) ho.requests]
      have hitems : ({ x with sqr := x.sqr.itemDone (x.sequences t) }.returnItem
          (some item)).items = x.items ++ [item] := by
        unfold items returnItem
        rw [List.filterMap_append]
        rfl
      rcases hk with ⟨r',hr',he⟩ | ⟨r',hr',he⟩ | hi
      · left
        refine ⟨r',?_,he⟩
        change r' ∈ (x.sqr.itemDone (x.sequences t)).arbSequenceQ
        rw [hsqr]
        exact hr'
      · right
        right
        rw [hn] at hr'
        cases hr'
        obtain ⟨rfl,rfl⟩ := he
        rw [hitems,hid,List.getElem?_concat_length,hitem]
        exact congrArg some hptr
      · right
        right
        rw [hitems,List.getElem?_append_left]
        · exact hi
        · obtain ⟨item'',hi',_⟩ := Option.map_eq_some_iff.mp hi
          exact (List.getElem?_eq_some_iff.mp hi').1
    | again hn hf hd ha =>
      have hal := ho.alive
      unfold killed at hal
      rw [hal] at hd
      cases hd
    | blocked hn hf hd =>
      obtain ⟨item,hitem,_⟩ := settled_item h hok.1 hn
      rw [hitem] at hf
      cases hf

theorem asked_waits {x : System α} (h : Orderly x) {k s : Nat} (hk : Asked x k s) :
    (∃ item, x.items[k]? = some item ∧ item.parentSequence = s) ∨
      x.items.length ≤ k ∧ ((∃ r ∈ x.sqr.arbSequenceQ, r.requestId = k ∧ r.sequencePtr = s) ∨
        ∃ r, x.tryNext = some r ∧ r.requestId = k ∧ r.sequencePtr = s) := by
  rcases hk with ⟨r,hr,hid,hptr⟩ | ⟨r,hr,hid,hptr⟩ | hi
  · right
    have hmem : k ∈ List.range' x.served x.sqr.arbSequenceQ.length := by
      rw [← h.ids,← hid]
      exact List.mem_map_of_mem hr
    have hle : x.items.length ≤ x.served := Nat.le_add_right _ _
    have hge := (List.mem_range'_1.mp hmem).1
    exact ⟨by omega,Or.inl ⟨r,hr,hid,hptr⟩⟩
  · right
    have he := (h.asked r hr).1
    exact ⟨by omega,Or.inr ⟨r,hr,hid,hptr⟩⟩
  · obtain ⟨item,hget,hptr⟩ := Option.map_eq_some_iff.mp hi
    exact Or.inl ⟨item,hget,hptr⟩

section Runs

variable {fullName : String} {bodies : Nat → List (SeqOp α)} {as bs : List Action}
  {x y : System α}

theorem prompt_run (hflat : Flat t) (hb : ∀ s, PlainBody (bodies s))
    (h : Transitions.guarded (step t) (Prompt t) (start fullName .fifo bodies) as x) :
    PromptInvariant x :=
  Transitions.guarded_invariant (step t)
    (fun _ _ _ hok hs hx => prompt_step hflat hx hok hs) h (prompt_start hb)

/-- The numbers in the queue go on from the number of the requests served. -/
theorem PromptInvariant.number (h : PromptInvariant x) {k : Nat} {r : SequenceRequest}
    (hr : x.sqr.arbSequenceQ[k]? = some r) : r.requestId = x.served+k := by
  have hget : (x.sqr.arbSequenceQ.map SequenceRequest.requestId)[k]? = some r.requestId := by
    rw [List.getElem?_map,hr]
    rfl
  rw [h.orderly.ids,List.getElem?_range' (List.getElem?_eq_some_iff.mp hr).1,Nat.one_mul]
    at hget
  exact (Option.some.inj hget).symm

/-- A request keeps its number until the driver drives the item of that number for it. -/
theorem asked_prompt (hflat : Flat t) (hx : PromptInvariant x)
    (hy : Transitions.guarded (step t) (Prompt t) x bs y) {k s : Nat} (hk : Asked x k s) :
    Asked y k s :=
  Transitions.guarded_relation (step t) (P := PromptInvariant)
    (R := fun x y => ∀ k s, Asked x k s → Asked y k s) (fun _ _ _ h => h)
    (fun _ _ _ h h' k s hk => h' k s (h k s hk))
    (fun _ _ _ hok hs hx => ⟨prompt_step hflat hx hok hs,
      fun _ _ hk => asked_step hflat hx hok hs hk⟩) hy hx k s hk

/-- First come, first served. When `k` other requests stand before one in the queue, the item
for it is the one that the driver drives after `k` others, whatever the processes do
meanwhile and in whatever order they run; until then the request is waiting. -/
theorem fifo_service (hflat : Flat t) (hb : ∀ s, PlainBody (bodies s))
    (hx : Transitions.guarded (step t) (Prompt t) (start fullName .fifo bodies) as x)
    (hy : Transitions.guarded (step t) (Prompt t) x bs y) {k : Nat} {r : SequenceRequest}
    (hr : x.sqr.arbSequenceQ[k]? = some r) :
    (∃ item, y.items[x.served+k]? = some item ∧ item.parentSequence = r.sequencePtr) ∨
      y.items.length ≤ x.served+k ∧
        ((∃ r' ∈ y.sqr.arbSequenceQ, r'.requestId = r.requestId ∧
          r'.sequencePtr = r.sequencePtr) ∨
        ∃ r', y.tryNext = some r' ∧ r'.requestId = r.requestId ∧
          r'.sequencePtr = r.sequencePtr) := by
  have hgx := prompt_run hflat hb hx
  have hgy := prompt_run hflat hb (Transitions.guarded_append (step t) hx hy)
  rw [← hgx.number hr]
  exact asked_waits hgy.orderly (asked_prompt hflat hgx hy
    (Or.inl ⟨r,List.mem_of_getElem? hr,rfl,rfl⟩))

end Runs

theorem flat_flatTree : Flat flatTree := fun _ => rfl

theorem plain_twoBodies (a b : α) : ∀ s, PlainBody (twoBodies a b s) := by
  intro s op hop
  rcases s with _ | _ | s
  · exact ⟨_,_,_,List.mem_singleton.mp hop⟩
  · exact ⟨_,_,_,List.mem_singleton.mp hop⟩
  · cases hop

/-- Both have asked, and the first has looked again in vain. -/
def bothWait : System Nat := (twoRun 1 2 (bothAsk ++ [.resume 0])).get (by decide)

theorem settled_bothWait : Settled flatTree bothWait := by
  intro s
  rcases s with _ | _ | s
  · exact Or.inr rfl
  · exact Or.inr rfl
  · exact Or.inl rfl

def promptAnswer : List Action :=
  [.tryNextItem (fun _ => true) 0,.resume 0,.resume 0,.resume 1]

def answered : System Nat :=
  (Transitions.exec (step flatTree) bothWait promptAnswer).get (by decide)

theorem settled_answered : Settled flatTree answered := by
  intro s
  rcases s with _ | _ | s
  · exact Or.inr rfl
  · exact Or.inr rfl
  · exact Or.inl rfl

def oneDriven : System Nat :=
  (step flatTree answered (.tryPeek (fun _ => true) 0)).get (by decide)

/-- One item has been driven, and the second request has moved to the front. -/
theorem oneDriven_service :
    oneDriven.items.length ≤ bothWait.served+1 ∧
      ∃ r' ∈ oneDriven.sqr.arbSequenceQ, r'.requestId = 1 ∧ r'.sequencePtr = 1 := by
  have h := fifo_service (k := 1) flat_flatTree (plain_twoBodies 1 2)
    (show Transitions.guarded (step flatTree) (Prompt flatTree) _
        (bothAsk ++ [.resume 0]) bothWait from
      ⟨trivial,_,rfl,trivial,_,rfl,trivial,_,rfl,trivial,_,rfl,trivial,_,rfl,rfl⟩)
    (show Transitions.guarded (step flatTree) (Prompt flatTree) bothWait
        (promptAnswer ++ [.tryPeek (fun _ => true) 0]) oneDriven from
      ⟨⟨settled_bothWait,fun _ => rfl⟩,_,rfl,trivial,_,rfl,trivial,_,rfl,trivial,_,rfl,
        ⟨settled_answered,fun _ => rfl⟩,_,rfl,rfl⟩)
    (show bothWait.sqr.arbSequenceQ[1]? = some ⟨2,1,-1,.req,1⟩ by decide)
  rcases h with ⟨item,hi,_⟩ | ⟨hle,hq | ⟨r',hr,_⟩⟩
  · cases hi
  · exact ⟨hle,hq⟩
  · cases hr

/-- A settled process that runs has a request in the queue. -/
theorem settled_queued {x : System α} (h : PromptInvariant x) (hs : Settled t x)
    (hn : x.tryNext = none) {s : Nat} (hr : (x.phase s).running = true) :
    x.sqr.arbSequenceQ ≠ [] := by
  have hk := h.orderly.alive s
  have hk' : (x.proc s).killed = false := hk
  have hnone : resume t x s = none := by
    rcases hs s with hc | hnone
    · rw [hc] at hr
      cases hr
    · exact hnone
  have hhead := h.heads s
  unfold resume at hnone
  cases hp : (x.proc s).phase with
  | created =>
    rw [phase,hp] at hr
    cases hr
  | ready => simp [hk',hp] at hnone
  | waitArbitration type i n =>
    rcases h.tracked.tracked s i hk (by rw [phase,hp]; rfl) with hc | ⟨r,hmem,_⟩
    · have hlt := (h.wakes s i n (by rw [phase,hp]; rfl)).2 hc
      have hne : ¬ x.sqr.lockArbSize = n := by omega
      simp [hk',hp,hne] at hnone
    · exact List.ne_nil_of_mem hmem
  | granted =>
    simp only [HeadOk,hp] at hhead
    obtain ⟨_,_,_,_,_,hb⟩ := hhead
    simp [hk',hp,hb] at hnone
  | waitItemDone i => exact absurd hp (settled_idle h hs hn s i)
  | exited =>
    rw [phase,hp] at hr
    cases hr

/-- The driver looks for an item only while some sequence is running. -/
def Busy (t : SequenceTree) (x : System α) (a : Action) : Prop :=
  Prompt t x a ∧ ∀ relevant draw, a = .tryNextItem relevant draw →
    ∃ s, (x.phase s).running = true

theorem busy_step {x y : System α} {a : Action} (h : PromptInvariant x)
    (hok : Busy t x a) (hs : step t x a = some y) (hd : none ∉ x.driven) :
    none ∉ y.driven := by
  have ho := h.orderly
  obtain ⟨_,m⟩ := step_cases hs
  cases a with
  | resume s =>
    rw [(driverKept_resume m).driven]
    exact hd
  | kill s => exact hok.1.elim
  | exit s => exact hok.1.elim
  | stopSequences => exact hok.1.elim
  | tryNextItem relevant draw =>
    cases m with
    | twice hn hg =>
      rw [(ho.free hn).1] at hg
      cases hg
    | select hn hg ha =>
      obtain ⟨s,hr⟩ := hok.2 relevant draw rfl
      rcases prompt_arbitrate h hok.1.2 ha with ⟨hq,_⟩ | ⟨r,rest,hq,rfl⟩
      · exact absurd hq (settled_queued h hok.1.1 hn hr)
      · exact hd
  | tryPeek relevant draw =>
    cases m with
    | item hn hf =>
      intro hmem
      rcases List.mem_append.mp hmem with hmem | hmem
      · exact hd hmem
      · cases List.mem_singleton.mp hmem
    | again hn hf hk ha =>
      have hal := ho.alive
      unfold killed at hal
      rw [hal] at hk
      cases hk
    | blocked hn hf hk =>
      obtain ⟨item,hitem,_⟩ := settled_item h hok.1.1 hn
      rw [hitem] at hf
      cases hf

theorem busy_driven {fullName : String} {bodies : Nat → List (SeqOp α)} {as : List Action}
    {x : System α} (hflat : Flat t) (hb : ∀ s, PlainBody (bodies s))
    (h : Transitions.guarded (step t) (Busy t) (start fullName .fifo bodies) as x) :
    PromptInvariant x ∧ none ∉ x.driven :=
  Transitions.guarded_invariant (step t) (P := fun x => PromptInvariant x ∧ none ∉ x.driven)
    (fun _ _ _ hok hs hx => ⟨prompt_step hflat hx.1 hok.1 hs,busy_step hx.1 hok hs hx.2⟩) h
    ⟨prompt_start hb,List.not_mem_nil⟩

/-- No turn of the driver is wasted while a sequence is running: each drives an item, and
nothing is ever reported. -/
theorem busy_run {fullName : String} {bodies : Nat → List (SeqOp α)} {as : List Action}
    {x : System α} (hflat : Flat t) (hb : ∀ s, PlainBody (bodies s))
    (h : Transitions.guarded (step t) (Busy t) (start fullName .fifo bodies) as x) :
    none ∉ x.driven ∧ x.sqr.reports = [] := by
  obtain ⟨hg,hd⟩ := busy_driven hflat hb h
  exact ⟨hd,hg.orderly.reports⟩

theorem oneDriven_busy : none ∉ oneDriven.driven ∧ oneDriven.sqr.reports = [] :=
  busy_run flat_flatTree (plain_twoBodies 1 2)
    (show Transitions.guarded (step flatTree) (Busy flatTree) _
        (bothAsk ++ [.resume 0,.tryNextItem (fun _ => true) 0,.resume 0,.resume 0,.resume 1,
          .tryPeek (fun _ => true) 0]) oneDriven from
      ⟨⟨trivial,fun _ _ h => Action.noConfusion h⟩,_,rfl,
        ⟨trivial,fun _ _ h => Action.noConfusion h⟩,_,rfl,
        ⟨trivial,fun _ _ h => Action.noConfusion h⟩,_,rfl,
        ⟨trivial,fun _ _ h => Action.noConfusion h⟩,_,rfl,
        ⟨trivial,fun _ _ h => Action.noConfusion h⟩,bothWait,rfl,
        ⟨⟨settled_bothWait,fun _ => rfl⟩,fun _ _ _ => ⟨0,rfl⟩⟩,_,rfl,
        ⟨trivial,fun _ _ h => Action.noConfusion h⟩,_,rfl,
        ⟨trivial,fun _ _ h => Action.noConfusion h⟩,_,rfl,
        ⟨trivial,fun _ _ h => Action.noConfusion h⟩,answered,rfl,
        ⟨⟨settled_answered,fun _ => rfl⟩,fun _ _ h => Action.noConfusion h⟩,_,rfl,rfl⟩)

end System

end MemoryController.Uvm
