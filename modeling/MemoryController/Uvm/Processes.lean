import MemoryController.Uvm.Arbitration

/-!
The sequencer with the processes around it: every sequence runs its body, and the driver
calls `try_next_item` and `item_done`. An action takes one process from a point where it
waits to the next one, so a list of actions is an order in which the simulator runs them.
-/

set_option autoImplicit false

namespace MemoryController.Uvm

/-- What a body asks of the sequencer. `item` is the `wait_for_grant` of `start_item` with
the `send_request` and `wait_for_item_done` of `finish_item`. Its handle says which of the
item objects of the sequence is sent, and the payload what is in it by then. -/
inductive SeqOp (α : Type) where
  | item (handle : Nat) (payload : α) (itemPriority : Int32) (lockRequest : Bool)
  | lock
  | grab
  | unlock

/-- Where the process of a sequence stands; the waits keep what they compare with. A process
waits for the arbitration of a request in `wait_for_grant` or, for a lock, in `m_lock_req`. -/
inductive SeqPhase where
  | created
  | ready
  | waitArbitration (type : SeqReqType) (requestId : Nat) (lockArbSize : Int)
  | granted
  | waitItemDone (sequenceId : Int)
  | exited
  deriving DecidableEq, Repr

/-- Between the start of the sequence and its exit. -/
def SeqPhase.running (phase : SeqPhase) : Bool := phase != .created && phase != .exited

/-- `transactionId` is what the item objects of the sequence hold. -/
structure SeqProcess (α : Type) where
  body : List (SeqOp α)
  phase : SeqPhase
  waitForGrantSemaphore : Int
  nextTransactionId : Int
  transactionId : Nat → Int
  killed : Bool

namespace SeqProcess

variable {α : Type}

def new (body : List (SeqOp α)) : SeqProcess α := ⟨body,.created,0,1,fun _ => -1,false⟩

/-- The head of the body is done. -/
def advance (p : SeqProcess α) : SeqProcess α := { p with phase := .ready, body := p.body.tail }

/-- What follows the wait for arbitration: the end of `wait_for_grant`, or of `m_lock_req`. -/
def passArbitration (p : SeqProcess α) : SeqReqType → SeqProcess α
  | .req => { p with phase := .granted, waitForGrantSemaphore := p.waitForGrantSemaphore+1 }
  | .lock => p.advance

/-- An item object gets a transaction identifier when it is sent for the first time. -/
def setTransactionId (p : SeqProcess α) (handle : Nat) : SeqProcess α :=
  if p.transactionId handle = -1 then { p with
    transactionId := Function.update p.transactionId handle p.nextTransactionId
    nextTransactionId := p.nextTransactionId+1 }
  else p

theorem setTransactionId_killed (p : SeqProcess α) (handle : Nat) :
    (p.setTransactionId handle).killed = p.killed := by
  unfold setTransactionId
  split <;> rfl

theorem setTransactionId_body (p : SeqProcess α) (handle : Nat) :
    (p.setTransactionId handle).body = p.body := by
  unfold setTransactionId
  split <;> rfl

end SeqProcess

namespace UvmSequencer

variable {α : Type}

def request (q : UvmSequencer α) (type : SeqReqType) (itemPriority : Int32) (s sequenceId : Nat) :
    SequenceRequest :=
  ⟨sequenceId,q.requestId,itemPriority,type,s⟩

def pushBack (q : UvmSequencer α) (r : SequenceRequest) : UvmSequencer α :=
  { q with arbSequenceQ := q.arbSequenceQ ++ [r], requestId := q.requestId+1 }

def pushFront (q : UvmSequencer α) (r : SequenceRequest) : UvmSequencer α :=
  { q with arbSequenceQ := r :: q.arbSequenceQ, requestId := q.requestId+1 }

/-- `wait_for_grant` up to its wait, with the identifier of the request it waits for. -/
def waitForGrant (q : UvmSequencer α) (s : Nat) (itemPriority : Int32) (lockRequest : Bool) :
    UvmSequencer α × Nat :=
  let (q,i) := q.registerSequence s
  let q := if lockRequest then q.pushBack (q.request .lock 0 s i) else q
  ((q.pushBack (q.request .req itemPriority s i)).updateLists,q.requestId)

/-- `m_lock_req` up to its wait: a lock queues behind all requests, a grab before them. -/
def lockReq (q : UvmSequencer α) (ss : Sequences) (s : Nat) (lock : Bool) :
    UvmSequencer α × Nat :=
  let (q,i) := q.registerSequence s
  let r := q.request .lock 0 s i
  let queued := if lock then q.pushBack r else (q.pushFront r).updateLists
  (queued.grantQueuedLocks ss,q.requestId)

def forget (q : UvmSequencer α) (requestId : Nat) : UvmSequencer α :=
  { q with arbCompleted := q.arbCompleted.filter (· ≠ requestId) }

def unlockReq (q : UvmSequencer α) (ss : Sequences) (s : Nat) : UvmSequencer α :=
  if s ∈ q.lockList then
    ({ q with lockList := q.lockList.erase s }.grantQueuedLocks ss).updateLists
  else q.report .warning "SQRUNL"
    ("Sequence '" ++ ss.fullName s ++ "' called ungrab / unlock, but didn't have lock")

/-- The request FIFO is a `uvm_tlm_fifo` of size 1. -/
def tryPut (q : UvmSequencer α) (item : SequenceItem α) : UvmSequencer α :=
  if q.reqFifo.length < 1 then { q with reqFifo := q.reqFifo ++ [item] }
  else q.report .fatal "SQRSNDREQGNI" ("Concurrent calls to get_next_item() not supported. " ++
    "Consider using a semaphore to ensure that concurrent processes take turns in the driver")

/-- The item with the identifiers that `send_request` leaves in it. -/
def sentItem (q : UvmSequencer α) (p : SeqProcess α) (s handle : Nat) (payload : α) :
    SequenceItem α :=
  ⟨s,q.getSqrSequenceId s,(p.setTransactionId handle).transactionId handle,payload⟩

def sendRequest (q : UvmSequencer α) (ss : Sequences) (p : SeqProcess α) (s handle : Nat)
    (payload : α) : UvmSequencer α × SeqProcess α :=
  let q := if p.waitForGrantSemaphore < 1 then
      q.report .fatal "SNDREQ" "Send request called without wait_for_grant"
    else q
  let q := q.tryPut (q.sentItem p s handle payload)
  ({ q with numReqsSent := q.numReqsSent+1 }.grantQueuedLocks ss,
    { p.setTransactionId handle with waitForGrantSemaphore := p.waitForGrantSemaphore-1 })

theorem registerSequence_of_some {q : UvmSequencer α} {s i : Nat}
    (h : q.sqrSeqIds s = some i) : q.registerSequence s = (q,i) := by
  unfold registerSequence
  rw [h]

theorem registerSequence_of_none {q : UvmSequencer α} {s : Nat} (h : q.sqrSeqIds s = none) :
    (q.registerSequence s).1 = { q with
      sqrSeqIds := Function.update q.sqrSeqIds s (some q.nextSequenceId)
      regSequences := Function.update q.regSequences q.nextSequenceId (some s)
      nextSequenceId := q.nextSequenceId+1 } := by
  unfold registerSequence
  rw [h]

theorem waitForGrant_plain {q : UvmSequencer α} {s i : Nat} (h : q.sqrSeqIds s = some i)
    (itemPriority : Int32) : q.waitForGrant s itemPriority false =
      ((q.pushBack (q.request .req itemPriority s i)).updateLists,q.requestId) := by
  unfold waitForGrant
  rw [registerSequence_of_some h]
  rfl

theorem waitForGrant_lock {q : UvmSequencer α} {s i : Nat} (h : q.sqrSeqIds s = some i)
    (itemPriority : Int32) : q.waitForGrant s itemPriority true =
      (q.pushBack (q.request .lock 0 s i)).waitForGrant s itemPriority false := by
  have h' : (q.pushBack (q.request .lock 0 s i)).sqrSeqIds s = some i := h
  rw [waitForGrant_plain h']
  unfold waitForGrant
  rw [registerSequence_of_some h]
  rfl

theorem lockReq_eq {q : UvmSequencer α} {s i : Nat} (h : q.sqrSeqIds s = some i)
    (ss : Sequences) (lock : Bool) : q.lockReq ss s lock =
      ((if lock then q.pushBack (q.request .lock 0 s i)
        else (q.pushFront (q.request .lock 0 s i)).updateLists).grantQueuedLocks ss,
        q.requestId) := by
  unfold lockReq
  rw [registerSequence_of_some h]

/-- Sending changes the FIFO, the counter and the reports, and settles the locks. -/
theorem sendRequest_eq (q : UvmSequencer α) (ss : Sequences) (p : SeqProcess α) (s handle : Nat)
    (payload : α) : ∃ fifo messages, (q.sendRequest ss p s handle payload).1 =
      { q with
        reqFifo := fifo
        reports := messages
        numReqsSent := q.numReqsSent+1 }.grantQueuedLocks ss := by
  unfold sendRequest tryPut
  simp only
  split <;> split <;> exact ⟨_,_,rfl⟩

def waitForItemDone (q : UvmSequencer α) : UvmSequencer α :=
  { q with waitForItemSequenceId := -1, waitForItemTransactionId := -1 }

def itemDone (q : UvmSequencer α) (ss : Sequences) : UvmSequencer α :=
  let q := { q with sequenceItemRequested := false, getNextItemCalled := false }
  let q := match q.reqFifo with
    | [] => q.report .fatal "SQRBADITMDN" ("Item_done() called with no outstanding " ++
      "requests. Each call to item_done() must be paired with a previous call to " ++
      "get_next_item().")
    | item :: rest =>
      { q with
        reqFifo := rest
        waitForItemSequenceId := item.sequenceId
        waitForItemTransactionId := item.transactionId }
  q.grantQueuedLocks ss

theorem itemDone_eq {q : UvmSequencer α} {item : SequenceItem α}
    {rest : List (SequenceItem α)} (h : q.reqFifo = item :: rest) (ss : Sequences) :
    q.itemDone ss = { q with
      sequenceItemRequested := false
      getNextItemCalled := false
      reqFifo := rest
      waitForItemSequenceId := item.sequenceId
      waitForItemTransactionId := item.transactionId }.grantQueuedLocks ss := by
  unfold itemDone
  simp only [h]

def fatal (q : UvmSequencer α) : Bool := q.reports.any (fun m => m.severity == .fatal)

/-- The registered sequence with the lowest identifier. -/
def findFirstSequence (q : UvmSequencer α) : Option Nat :=
  (List.range q.nextSequenceId).findSome? q.regSequences

def flush (q : UvmSequencer α) : UvmSequencer α :=
  if q.reqFifo.length > 0 then
    { q.report .info q.fullName "Sequences stopped.  Removing request from sequencer fifo" with
      reqFifo := [] }
  else q

def twiceError (q : UvmSequencer α) : UvmSequencer α :=
  q.report .error q.fullName
    "get_next_item/try_next_item called twice without item_done or get in between"

def blockedError (q : UvmSequencer α) (t : SequenceTree) (r : SequenceRequest) :
    UvmSequencer α :=
  q.report .error "TRY_NEXT_BLOCKED" ("try_next_item: the selected sequence '" ++
    t.fullName r.sequencePtr ++ "' did not produce an item within 1 wait_for_sequences " ++
    "call.  If the sequence requires more deltas/NBA within this time step, then the " ++
    "wait_for_sequences_count value for this sequencer should be increased.  Note that " ++
    "sequences should not consume non-delta/NBA time between calls to start_item and " ++
    "finish_item.  Returning null item.")

end UvmSequencer

/-- `tryNext` is the request that `try_next_item` has granted and now waits for, `driven` has
one entry for each turn of the driver's loop: the item it drove, or nothing. -/
structure System (α : Type) where
  sqr : UvmSequencer α
  proc : Nat → SeqProcess α
  tryNext : Option SequenceRequest
  driven : List (Option (SequenceItem α))

inductive Action where
  | resume (s : Nat)
  | kill (s : Nat)
  | exit (s : Nat)
  | stopSequences
  | tryNextItem (relevant : Nat → Bool) (draw : Nat)
  | tryPeek (relevant : Nat → Bool) (draw : Nat)

namespace System

variable {α : Type}

def start (fullName : String) (arbitration : ArbMode) (bodies : Nat → List (SeqOp α)) :
    System α :=
  ⟨.new α fullName arbitration,fun s => .new (bodies s),none,[]⟩

def sequences (x : System α) (t : SequenceTree) : Sequences :=
  { t with
    killed := fun s => (x.proc s).killed
    finished := fun s => (x.proc s).phase == .exited && !(x.proc s).killed }

def setProc (x : System α) (s : Nat) (p : SeqProcess α) : System α :=
  { x with proc := Function.update x.proc s p }

def setPhase (x : System α) (s : Nat) (phase : SeqPhase) : System α :=
  x.setProc s { x.proc s with phase := phase }

/-- `clean_exit_sequence`: out of the queues, and the identifier is given up. -/
def exitSequence (t : SequenceTree) (x : System α) (s : Nat) : System α :=
  let x := x.setPhase s .exited
  let q := x.sqr.removeSequenceFromQueues (x.sequences t) s
  { x with sqr := { q with sqrSeqIds := Function.update q.sqrSeqIds s none } }

def kill (x : System α) (s : Nat) : System α := x.setProc s { x.proc s with killed := true }

def forget (x : System α) (requestId : Nat) : System α :=
  { x with sqr := x.sqr.forget requestId }

/-- One turn of the loop in `m_wait_for_arbitration_completed`. -/
def waitForArbitration (x : System α) (type : SeqReqType) (s requestId : Nat) : System α :=
  if requestId ∈ x.sqr.arbCompleted then
    (x.forget requestId).setProc s ((x.proc s).passArbitration type)
  else x.setPhase s (.waitArbitration type requestId x.sqr.lockArbSize)

/-- The operation that the body has come to. -/
def beginOp (t : SequenceTree) (x : System α) (s : Nat) : System α :=
  match (x.proc s).body with
  | [] => exitSequence t x s
  | .item _ _ itemPriority lockRequest :: _ =>
    let (q,i) := x.sqr.waitForGrant s itemPriority lockRequest
    { x with sqr := q }.waitForArbitration .req s i
  | .lock :: _ =>
    let (q,i) := x.sqr.lockReq (x.sequences t) s true
    { x with sqr := q }.waitForArbitration .lock s i
  | .grab :: _ =>
    let (q,i) := x.sqr.lockReq (x.sequences t) s false
    { x with sqr := q }.waitForArbitration .lock s i
  | .unlock :: _ =>
    { x with sqr := x.sqr.unlockReq (x.sequences t) s }.setProc s (x.proc s).advance

/-- `finish_item` up to its wait. -/
def finishItem (t : SequenceTree) (x : System α) (s handle : Nat) (payload : α) : System α :=
  let (q,p) := x.sqr.sendRequest (x.sequences t) (x.proc s) s handle payload
  let i := q.getSqrSequenceId s
  { x with sqr := q.waitForItemDone }.setProc s
    { p with phase := .waitItemDone i, body := p.body.tail }

/-- The process of `s` runs to its next wait, when it is not held up by the present one. -/
def resume (t : SequenceTree) (x : System α) (s : Nat) : Option (System α) :=
  if (x.proc s).killed then none
  else match (x.proc s).phase with
  | .created => some ({ x with sqr := (x.sqr.registerSequence s).1 }.setPhase s .ready)
  | .ready => some (beginOp t x s)
  | .waitArbitration type i lockArbSize =>
    if x.sqr.lockArbSize = lockArbSize then none else some (x.waitForArbitration type s i)
  | .granted =>
    match (x.proc s).body with
    | .item handle payload _ _ :: _ => some (finishItem t x s handle payload)
    | _ => none
  | .waitItemDone i =>
    if x.sqr.waitForItemSequenceId = i then some (x.setPhase s .ready) else none
  | .exited => none

/-- `try_next_item` grants the chosen request. A position outside the queue holds a null
handle, at which the simulation stops. -/
def grantSelected (x : System α) (i : Nat) : Option (System α) :=
  (x.sqr.arbSequenceQ[i]?).map (fun r =>
    { x with
      sqr := { x.sqr.grantAt i r with sequenceItemRequested := true, getNextItemCalled := true }
      tryNext := some r })

def returnItem (x : System α) (item : Option (SequenceItem α)) : System α :=
  { x with tryNext := none, driven := x.driven ++ [item] }

/-- Arbitration in `try_next_item`, which returns null when there is no one to choose. -/
def arbitrate (t : SequenceTree) (x : System α) (relevant : Nat → Bool) (draw : Nat) :
    Option (System α) :=
  match x.sqr.chooseNextRequest (x.sequences t) relevant draw with
  | (q,none) => some ({ x with sqr := q }.returnItem none)
  | (q,some i) => { x with sqr := q }.grantSelected i

/-- `try_next_item` up to the wait for the item that it has asked for. -/
def tryNextItem (t : SequenceTree) (x : System α) (relevant : Nat → Bool) (draw : Nat) :
    Option (System α) :=
  match x.tryNext with
  | some _ => none
  | none =>
    if x.sqr.getNextItemCalled then some ({ x with sqr := x.sqr.twiceError }.returnItem none)
    else arbitrate t x relevant draw

/-- The rest of `try_next_item`. The driver calls `item_done` for an item at once. -/
def tryPeek (t : SequenceTree) (x : System α) (relevant : Nat → Bool) (draw : Nat) :
    Option (System α) :=
  match x.tryNext with
  | none => none
  | some r =>
    match x.sqr.reqFifo with
    | item :: _ =>
      some ({ x with sqr := x.sqr.itemDone (x.sequences t) }.returnItem (some item))
    | [] =>
      if (x.proc r.sequencePtr).killed then
        arbitrate t (x.forget r.requestId) relevant draw
      else some ({ x with sqr := x.sqr.blockedError t r }.returnItem none)

def killSequence (t : SequenceTree) (x : System α) (s : Nat) : System α :=
  exitSequence t (x.kill s) s

/-- The loop of `stop_sequences`; there are no more turns than sequences were registered. -/
def stopLoop (t : SequenceTree) : Nat → System α → System α
  | 0, x => x
  | turns+1, x =>
    match x.sqr.findFirstSequence with
    | some s => stopLoop t turns (killSequence t x s)
    | none => x

def stopSequences (t : SequenceTree) (x : System α) : System α :=
  let x := stopLoop t x.sqr.nextSequenceId x
  { x with sqr :=
    { x.sqr with sequenceItemRequested := false, getNextItemCalled := false }.flush }

/-- A fatal report ends the simulation. -/
def step (t : SequenceTree) (x : System α) (a : Action) : Option (System α) :=
  if x.sqr.fatal then none
  else match a with
  | .resume s => resume t x s
  | .kill s => if (x.proc s).phase.running then some (x.kill s) else none
  | .exit s =>
    if (x.proc s).killed && (x.proc s).phase.running then some (exitSequence t x s) else none
  | .stopSequences => some (stopSequences t x)
  | .tryNextItem relevant draw => tryNextItem t x relevant draw
  | .tryPeek relevant draw => tryPeek t x relevant draw

def phase (x : System α) (s : Nat) : SeqPhase := (x.proc s).phase

def killed (x : System α) (s : Nat) : Bool := (x.proc s).killed

@[simp] theorem sqr_setProc (x : System α) (s : Nat) (p : SeqProcess α) :
    (x.setProc s p).sqr = x.sqr := rfl

@[simp] theorem proc_setProc (x : System α) (s : Nat) (p : SeqProcess α) :
    (x.setProc s p).proc = Function.update x.proc s p := rfl

@[simp] theorem phase_setProc (x : System α) (s : Nat) (p : SeqProcess α) :
    (x.setProc s p).phase = Function.update x.phase s p.phase := by
  funext s'
  by_cases h : s' = s
  · simp [phase,h]
  · simp [phase,h]

@[simp] theorem killed_setProc (x : System α) (s : Nat) (p : SeqProcess α) :
    (x.setProc s p).killed = Function.update x.killed s p.killed := by
  funext s'
  by_cases h : s' = s
  · simp [killed,h]
  · simp [killed,h]

@[simp] theorem phase_setPhase (x : System α) (s : Nat) (phase : SeqPhase) :
    (x.setPhase s phase).phase = Function.update x.phase s phase := phase_setProc ..

@[simp] theorem killed_setPhase (x : System α) (s : Nat) (phase : SeqPhase) :
    (x.setPhase s phase).killed = x.killed := by
  rw [setPhase,killed_setProc]
  exact Function.update_eq_self s x.killed

@[simp] theorem phase_advance (x : System α) (s : Nat) :
    (x.setProc s (x.proc s).advance).phase = Function.update x.phase s .ready :=
  phase_setProc ..

@[simp] theorem killed_advance (x : System α) (s : Nat) :
    (x.setProc s (x.proc s).advance).killed = x.killed := by
  rw [killed_setProc]
  exact Function.update_eq_self s x.killed

@[simp] theorem phase_kill (x : System α) (s : Nat) : (x.kill s).phase = x.phase := by
  rw [kill,phase_setProc]
  exact Function.update_eq_self s x.phase

@[simp] theorem killed_kill (x : System α) (s : Nat) :
    (x.kill s).killed = Function.update x.killed s true := killed_setProc ..

/-- The phase in which the wait for a request of this type ends. -/
def passedPhase : SeqReqType → SeqPhase
  | .req => .granted
  | .lock => .ready

theorem phase_pass (x : System α) (type : SeqReqType) (s i : Nat) :
    ((x.forget i).setProc s ((x.proc s).passArbitration type)).phase =
      Function.update x.phase s (passedPhase type) := by
  cases type <;> exact phase_setProc ..

theorem killed_pass (x : System α) (type : SeqReqType) (s i : Nat) :
    ((x.forget i).setProc s ((x.proc s).passArbitration type)).killed = x.killed := by
  rw [killed_setProc]
  cases type <;> exact Function.update_eq_self s x.killed

theorem waitForArbitration_cases (x : System α) (type : SeqReqType) (s i : Nat) :
    i ∈ x.sqr.arbCompleted ∧ x.waitForArbitration type s i =
      (x.forget i).setProc s ((x.proc s).passArbitration type) ∨
    i ∉ x.sqr.arbCompleted ∧ x.waitForArbitration type s i =
      x.setPhase s (.waitArbitration type i x.sqr.lockArbSize) := by
  unfold waitForArbitration
  by_cases hi : i ∈ x.sqr.arbCompleted
  · left
    simp only [hi,if_true,true_and]
  · right
    simp only [hi,if_false,not_false_eq_true,true_and]

/-- A process that waits changes nothing in the sequencer but the grants it has seen. -/
theorem sqr_waitForArbitration (x : System α) (type : SeqReqType) (s i : Nat) : ∃ completed,
    (x.waitForArbitration type s i).sqr = { x.sqr with arbCompleted := completed } := by
  rcases waitForArbitration_cases x type s i with ⟨_,he⟩ | ⟨_,he⟩ <;> rw [he] <;>
    exact ⟨_,rfl⟩

/-- What arbitration in `try_next_item` comes to: null for the driver, or a grant. -/
theorem arbitrate_cases {t : SequenceTree} {x y : System α} {relevant : Nat → Bool}
    {draw : Nat} (h : arbitrate t x relevant draw = some y) :
    ∃ q, (x.sqr.chooseNextRequest (x.sequences t) relevant draw).1 = q ∧
      ((x.sqr.chooseNextRequest (x.sequences t) relevant draw).2 = none ∧
        y = { x with sqr := q }.returnItem none ∨
      ∃ i r, (x.sqr.chooseNextRequest (x.sequences t) relevant draw).2 = some i ∧
        q.arbSequenceQ[i]? = some r ∧
        y = { x with
          sqr := { q.grantAt i r with sequenceItemRequested := true, getNextItemCalled := true }
          tryNext := some r }) := by
  unfold arbitrate grantSelected at h
  generalize x.sqr.chooseNextRequest (x.sequences t) relevant draw = result at h ⊢
  rcases result with ⟨q,c⟩
  refine ⟨q,rfl,?_⟩
  cases c with
  | none =>
    left
    cases h
    exact ⟨rfl,rfl⟩
  | some i =>
    right
    obtain ⟨r,hr,hy⟩ := Option.map_eq_some_iff.mp h
    exact ⟨i,r,rfl,hr,hy.symm⟩

/-- The ways in which a step can go. -/
inductive Move (t : SequenceTree) (x : System α) : Action → System α → Prop where
  | start {s : Nat} (hk : (x.proc s).killed = false) (hp : (x.proc s).phase = .created) :
    Move t x (.resume s) ({ x with sqr := (x.sqr.registerSequence s).1 }.setPhase s .ready)
  | finish {s : Nat} (hk : (x.proc s).killed = false) (hp : (x.proc s).phase = .ready)
    (hb : (x.proc s).body = []) : Move t x (.resume s) (exitSequence t x s)
  | request {s handle : Nat} {payload : α} {itemPriority : Int32}
    {lockRequest : Bool} {rest : List (SeqOp α)} (hk : (x.proc s).killed = false)
    (hp : (x.proc s).phase = .ready)
    (hb : (x.proc s).body = .item handle payload itemPriority lockRequest :: rest) :
    Move t x (.resume s)
      ({ x with sqr := (x.sqr.waitForGrant s itemPriority lockRequest).1 }.waitForArbitration
        .req s (x.sqr.waitForGrant s itemPriority lockRequest).2)
  | lock {s : Nat} (lock : Bool) {rest : List (SeqOp α)} (hk : (x.proc s).killed = false)
    (hp : (x.proc s).phase = .ready)
    (hb : (x.proc s).body = (if lock then .lock else .grab) :: rest) :
    Move t x (.resume s)
      ({ x with sqr := (x.sqr.lockReq (x.sequences t) s lock).1 }.waitForArbitration
        .lock s (x.sqr.lockReq (x.sequences t) s lock).2)
  | unlock {s : Nat} {rest : List (SeqOp α)} (hk : (x.proc s).killed = false)
    (hp : (x.proc s).phase = .ready) (hb : (x.proc s).body = .unlock :: rest) :
    Move t x (.resume s)
      ({ x with sqr := x.sqr.unlockReq (x.sequences t) s }.setProc s (x.proc s).advance)
  | arbitrated {type : SeqReqType} {s i : Nat} {n : Int} (hk : (x.proc s).killed = false)
    (hp : (x.proc s).phase = .waitArbitration type i n) (hn : x.sqr.lockArbSize ≠ n) :
    Move t x (.resume s) (x.waitForArbitration type s i)
  | send {s handle : Nat} {payload : α} {itemPriority : Int32}
    {lockRequest : Bool} {rest : List (SeqOp α)} (hk : (x.proc s).killed = false)
    (hp : (x.proc s).phase = .granted)
    (hb : (x.proc s).body = .item handle payload itemPriority lockRequest :: rest) :
    Move t x (.resume s) (finishItem t x s handle payload)
  | done {s : Nat} {i : Int} (hk : (x.proc s).killed = false)
    (hp : (x.proc s).phase = .waitItemDone i) (hi : x.sqr.waitForItemSequenceId = i) :
    Move t x (.resume s) (x.setPhase s .ready)
  | kill {s : Nat} (hr : (x.proc s).phase.running = true) : Move t x (.kill s) (x.kill s)
  | cleanup {s : Nat} (hk : (x.proc s).killed = true)
    (hr : (x.proc s).phase.running = true) : Move t x (.exit s) (exitSequence t x s)
  | stop : Move t x .stopSequences (stopSequences t x)
  | twice {relevant : Nat → Bool} {draw : Nat} (hn : x.tryNext = none)
    (hg : x.sqr.getNextItemCalled = true) :
    Move t x (.tryNextItem relevant draw) ({ x with sqr := x.sqr.twiceError }.returnItem none)
  | select {relevant : Nat → Bool} {draw : Nat} {y : System α} (hn : x.tryNext = none)
    (hg : x.sqr.getNextItemCalled = false) (ha : arbitrate t x relevant draw = some y) :
    Move t x (.tryNextItem relevant draw) y
  | item {relevant : Nat → Bool} {draw : Nat} {r : SequenceRequest} {item : SequenceItem α}
    {rest : List (SequenceItem α)} (hn : x.tryNext = some r)
    (hf : x.sqr.reqFifo = item :: rest) :
    Move t x (.tryPeek relevant draw)
      ({ x with sqr := x.sqr.itemDone (x.sequences t) }.returnItem (some item))
  | again {relevant : Nat → Bool} {draw : Nat} {r : SequenceRequest} {y : System α}
    (hn : x.tryNext = some r) (hf : x.sqr.reqFifo = [])
    (hk : (x.proc r.sequencePtr).killed = true)
    (ha : arbitrate t (x.forget r.requestId) relevant draw = some y) :
    Move t x (.tryPeek relevant draw) y
  | blocked {relevant : Nat → Bool} {draw : Nat} {r : SequenceRequest}
    (hn : x.tryNext = some r) (hf : x.sqr.reqFifo = [])
    (hk : (x.proc r.sequencePtr).killed = false) :
    Move t x (.tryPeek relevant draw)
      ({ x with sqr := x.sqr.blockedError t r }.returnItem none)

theorem resume_cases {t : SequenceTree} {x y : System α} {s : Nat}
    (h : resume t x s = some y) : Move t x (.resume s) y := by
  unfold resume at h
  cases hk : (x.proc s).killed with
  | true => simp [hk] at h
  | false =>
    simp only [hk,Bool.false_eq_true,if_false] at h
    cases hp : (x.proc s).phase with
    | created =>
      simp only [hp,Option.some.injEq] at h
      subst h
      exact .start hk hp
    | ready =>
      simp only [hp,Option.some.injEq] at h
      subst h
      unfold beginOp
      cases hb : (x.proc s).body with
      | nil => exact .finish hk hp hb
      | cons op rest =>
        cases op with
        | item handle payload itemPriority lockRequest => exact .request hk hp hb
        | lock => exact .lock true hk hp hb
        | grab => exact .lock false hk hp hb
        | unlock => exact .unlock hk hp hb
    | waitArbitration type i n =>
      simp only [hp] at h
      split at h
      · cases h
      · rename_i hn
        cases h
        exact .arbitrated hk hp hn
    | granted =>
      simp only [hp] at h
      split at h
      · rename_i handle payload itemPriority lockRequest rest hb
        cases h
        exact .send hk hp hb
      · cases h
    | waitItemDone i =>
      simp only [hp] at h
      split at h
      · rename_i hi
        cases h
        exact .done hk hp hi
      · cases h
    | exited => simp [hp] at h

theorem step_cases {t : SequenceTree} {x y : System α} {a : Action}
    (h : step t x a = some y) : x.sqr.fatal = false ∧ Move t x a y := by
  unfold step at h
  cases hf : x.sqr.fatal with
  | true => simp [hf] at h
  | false =>
    refine ⟨rfl,?_⟩
    simp only [hf,Bool.false_eq_true,if_false] at h
    cases a with
    | resume s => exact resume_cases h
    | kill s =>
      simp only at h
      split at h
      · rename_i hr
        cases h
        exact .kill hr
      · cases h
    | exit s =>
      simp only at h
      split at h
      · rename_i hr
        rw [Bool.and_eq_true] at hr
        cases h
        exact .cleanup hr.1 hr.2
      · cases h
    | stopSequences =>
      cases h
      exact .stop
    | tryNextItem relevant draw =>
      unfold tryNextItem at h
      cases hn : x.tryNext with
      | some r => simp [hn] at h
      | none =>
        simp only [hn] at h
        split at h
        · rename_i hg
          cases h
          exact .twice hn hg
        · rename_i hg
          exact .select hn (Bool.eq_false_iff.mpr hg) h
    | tryPeek relevant draw =>
      unfold tryPeek at h
      cases hn : x.tryNext with
      | none => simp [hn] at h
      | some r =>
        simp only [hn] at h
        cases hf : x.sqr.reqFifo with
        | cons item rest =>
          simp only [hf,Option.some.injEq] at h
          subst h
          exact .item hn hf
        | nil =>
          simp only [hf] at h
          split at h
          · rename_i hk
            exact .again hn hf hk h
          · rename_i hk
            cases h
            exact .blocked hn hf (Bool.eq_false_iff.mpr hk)

end System

end MemoryController.Uvm
