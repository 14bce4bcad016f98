import MemoryController.Uvm.Safety

/-!
The items of each sequence on their way through the request FIFO to the driver: none is lost,
repeated or overtaken by a later one of the same sequence.
-/

set_option autoImplicit false

namespace MemoryController.Uvm
open UvmSequencer

/-- The item objects that a body sends, with what is in them by then. -/
def SeqOp.sent? {α : Type} : SeqOp α → Option (Nat × α)
  | .item handle payload _ _ => some (handle,payload)
  | _ => none

def sends {α : Type} (body : List (SeqOp α)) : List (Nat × α) := body.filterMap SeqOp.sent?

/-- What a body sends, in order. -/
def payloads {α : Type} (body : List (SeqOp α)) : List α := (sends body).map Prod.snd

/-- With the transaction identifiers that `send_request` gives: the next one to an object that
has none yet, and an object that is sent again keeps its own. -/
def numbered {α : Type} : Int → (Nat → Int) → List (Nat × α) → List (α × Int)
  | _, _, [] => []
  | next, ids, (handle,a) :: as =>
    if ids handle = -1 then
      (a,next) :: numbered (next+1) (Function.update ids handle next) as
    else (a,ids handle) :: numbered next ids as

def numberedItems {α : Type} (body : List (SeqOp α)) : List (α × Int) :=
  numbered 1 (fun _ => -1) (sends body)

theorem map_fst_numbered {α : Type} (next : Int) (ids : Nat → Int) (as : List (Nat × α)) :
    (numbered next ids as).map Prod.fst = as.map Prod.snd := by
  induction as generalizing next ids with
  | nil => rfl
  | cons a as ih =>
    rcases a with ⟨handle,a⟩
    unfold numbered
    split
    · rw [List.map_cons,ih,List.map_cons]
    · rw [List.map_cons,ih,List.map_cons]

namespace System

variable {α : Type} {t : SequenceTree}

def ofParent (items : List (SequenceItem α)) (s : Nat) : List (α × Int) :=
  (items.filter (fun item => item.parentSequence == s)).map
    (fun item => (item.payload,item.transactionId))

/-- The items of `s` that the driver has driven, with their transaction identifiers. -/
def drivenBy (x : System α) (s : Nat) : List (α × Int) := ofParent (x.driven.filterMap id) s

def sentBy (x : System α) (s : Nat) : List (α × Int) :=
  x.drivenBy s ++ ofParent x.sqr.reqFifo s

def unsentBy (x : System α) (s : Nat) : List (α × Int) :=
  numbered (x.proc s).nextTransactionId (x.proc s).transactionId (sends (x.proc s).body)

theorem ofParent_append (items items' : List (SequenceItem α)) (s : Nat) :
    ofParent (items ++ items') s = ofParent items s ++ ofParent items' s := by
  unfold ofParent
  rw [List.filter_append,List.map_append]

theorem ofParent_eq_nil {items : List (SequenceItem α)} {s : Nat}
    (h : ∀ item ∈ items, item.parentSequence ≠ s) : ofParent items s = [] := by
  unfold ofParent
  rw [List.map_eq_nil_iff,List.filter_eq_nil_iff]
  intro item hi
  simpa using h item hi

/-- While a process waits, what it waits for is at the head of its body. -/
def HeadOk (p : SeqProcess α) : Prop :=
  match p.phase with
  | .waitArbitration .req _ _ | .granted => ∃ handle payload itemPriority lockRequest rest,
    p.body = .item handle payload itemPriority lockRequest :: rest
  | .waitArbitration .lock _ _ => ∃ rest, p.body = .lock :: rest ∨ p.body = .grab :: rest
  | _ => True

def Heads (x : System α) : Prop := ∀ s, HeadOk (x.proc s)

theorem Heads.update {x y : System α} (h : Heads x) {s : Nat} {p : SeqProcess α}
    (hp : HeadOk p) (hy : y.proc = Function.update x.proc s p) : Heads y := by
  unfold Heads
  rw [hy]
  exact (Function.forall_update_iff x.proc (fun _ => HeadOk)).mpr ⟨hp,fun s' _ => h s'⟩

theorem heads_waitForArbitration {x : System α} (h : Heads x) {type : SeqReqType} {s i : Nat}
    (hs : HeadOk { x.proc s with phase := .waitArbitration type i x.sqr.lockArbSize }) :
    Heads (x.waitForArbitration type s i) := by
  rcases waitForArbitration_cases x type s i with ⟨_,he⟩ | ⟨_,he⟩ <;> rw [he]
  · refine h.update (p := (x.proc s).passArbitration type) ?_ rfl
    cases type with
    | req => exact hs
    | lock => trivial
  · exact h.update hs rfl

theorem heads_exit {x : System α} (h : Heads x) (s : Nat) : Heads (exitSequence t x s) :=
  h.update (p := { x.proc s with phase := .exited }) trivial rfl

theorem heads_kill {x : System α} (h : Heads x) (s : Nat) : Heads (x.kill s) :=
  h.update (p := { x.proc s with killed := true }) (h s) rfl

theorem heads_stopLoop {turns : Nat} {x : System α} (h : Heads x) :
    Heads (stopLoop t turns x) := by
  induction turns generalizing x with
  | zero => exact h
  | succ turns ih =>
    unfold stopLoop
    split
    · exact ih (heads_exit (heads_kill h _) _)
    · exact h

theorem heads_move {x y : System α} {a : Action} (h : Heads x) (m : Move t x a y) :
    Heads y := by
  cases m with
  | @start s hk hp => exact h.update (p := { x.proc s with phase := .ready }) trivial rfl
  | finish hk hp hb => exact heads_exit h _
  | @request s handle payload itemPriority lockRequest rest hk hp hb =>
    have hq : Heads { x with
        sqr := (x.sqr.waitForGrant s itemPriority lockRequest).1 } := h
    exact heads_waitForArbitration hq ⟨_,_,_,_,_,hb⟩
  | @lock s lock rest hk hp hb =>
    have hq : Heads { x with sqr := (x.sqr.lockReq (x.sequences t) s lock).1 } := h
    cases lock with
    | true => exact heads_waitForArbitration hq ⟨_,Or.inl hb⟩
    | false => exact heads_waitForArbitration hq ⟨_,Or.inr hb⟩
  | @unlock s rest hk hp hb =>
    exact h.update (p := { x.proc s with
      phase := .ready, body := (x.proc s).body.tail }) trivial rfl
  | @arbitrated type s i n hk hp hn =>
    have hs := h s
    refine heads_waitForArbitration h ?_
    cases type with
    | req =>
      simp only [HeadOk,hp] at hs
      exact hs
    | lock =>
      simp only [HeadOk,hp] at hs
      exact hs
  | @send s handle payload itemPriority lockRequest rest hk hp hb =>
    exact h.update (s := s)
      (p := { (x.sqr.sendRequest (x.sequences t) (x.proc s) s handle payload).2 with
        phase := .waitItemDone _, body := _ }) trivial rfl
  | @done s i hk hp hi => exact h.update (p := { x.proc s with phase := .ready }) trivial rfl
  | kill hr => exact heads_kill h _
  | cleanup hk hr => exact heads_exit h _
  | stop => exact heads_stopLoop h
  | twice hn hg => exact h
  | select hn hg ha =>
    obtain ⟨q,_,⟨_,rfl⟩ | ⟨i,r,_,_,rfl⟩⟩ := arbitrate_cases ha <;> exact h
  | item hn hf => exact h
  | again hn hf hk ha =>
    obtain ⟨q,_,⟨_,rfl⟩ | ⟨i,r,_,_,rfl⟩⟩ := arbitrate_cases ha <;> exact h
  | blocked hn hf hk => exact h

/-- A live sequence has sent a first part of its items and still has the others; an item in
the FIFO keeps its process waiting. -/
structure Accounted (program : Nat → List (α × Int)) (x : System α) : Prop where
  kept : ∀ s, x.killed s = false → x.sentBy s ++ x.unsentBy s = program s
  order : ∀ s, x.sentBy s <+: program s
  parked : ∀ item ∈ x.sqr.reqFifo, x.killed item.parentSequence = true ∨
    ∃ i, x.phase item.parentSequence = .waitItemDone i
  unanswered : x.sqr.reqFifo ≠ [] → x.sqr.waitForItemSequenceId = -1
  asked : ∀ s i, x.phase s = .waitItemDone i → 1 ≤ i
  finished : ∀ s, x.killed s = false → x.phase s = .exited → (x.proc s).body = []

/-- What a process may do between two items. -/
structure Between (x : System α) (s : Nat) (p : SeqProcess α) : Prop where
  count : p.nextTransactionId = (x.proc s).nextTransactionId
  ids : p.transactionId = (x.proc s).transactionId
  left : sends p.body = sends (x.proc s).body
  dead : (x.proc s).killed = true → p.killed = true
  quit : x.sqr.reqFifo = [] ∨ p.killed = true ∨ ∀ i, (x.proc s).phase ≠ .waitItemDone i
  wait : ∀ i, p.phase = .waitItemDone i → (x.proc s).phase = .waitItemDone i
  finished : p.killed = false → p.phase = .exited → p.body = []

theorem Accounted.between {program : Nat → List (α × Int)} {x y : System α}
    (h : Accounted program x) {s : Nat} {p : SeqProcess α} (hp : Between x s p)
    (hy : y.proc = Function.update x.proc s p) (hd : y.driven = x.driven)
    (hf : y.sqr.reqFifo = x.sqr.reqFifo)
    (hi : y.sqr.waitForItemSequenceId = x.sqr.waitForItemSequenceId) :
    Accounted program y := by
  have hs : ∀ s', y.sentBy s' = x.sentBy s' := by
    intro s'
    unfold sentBy drivenBy
    rw [hd,hf]
  have hproc : ∀ s', s' = s ∧ y.proc s' = p ∨ s' ≠ s ∧ y.proc s' = x.proc s' := by
    intro s'
    by_cases he : s' = s
    · left
      rw [hy,he,Function.update_self]
      exact ⟨rfl,rfl⟩
    · right
      rw [hy,Function.update_of_ne he]
      exact ⟨he,rfl⟩
  have halive : ∀ s', y.killed s' = false → x.killed s' = false := by
    intro s' hk
    rcases hproc s' with ⟨rfl,he⟩ | ⟨_,he⟩
    · unfold killed at hk ⊢
      rw [he] at hk
      cases hd : (x.proc s').killed with
      | false => rfl
      | true =>
        rw [hp.dead hd] at hk
        cases hk
    · unfold killed at hk ⊢
      rw [he] at hk
      exact hk
  refine ⟨?_,?_,?_,?_,?_,?_⟩
  · intro s' hk
    have hu : y.unsentBy s' = x.unsentBy s' := by
      unfold unsentBy
      rcases hproc s' with ⟨rfl,he⟩ | ⟨_,he⟩
      · rw [he,hp.count,hp.ids,hp.left]
      · rw [he]
    rw [hs,hu]
    exact h.kept s' (halive s' hk)
  · intro s'
    rw [hs]
    exact h.order s'
  · intro item hitem
    rw [hf] at hitem
    unfold killed phase
    rcases hproc item.parentSequence with ⟨hs',he⟩ | ⟨_,he⟩
    · rw [he]
      left
      rcases hp.quit with hn | hk | hw
      · rw [hn] at hitem
        cases hitem
      · exact hk
      · rcases h.parked item hitem with hd | ⟨i,hi⟩
        · rw [killed,hs'] at hd
          exact hp.dead hd
        · rw [phase,hs'] at hi
          exact absurd hi (hw i)
    · rw [he]
      exact h.parked item hitem
  · rw [hf,hi]
    exact h.unanswered
  · intro s' i hw
    unfold phase at hw
    rcases hproc s' with ⟨rfl,he⟩ | ⟨_,he⟩
    · rw [he] at hw
      exact h.asked s' i (hp.wait i hw)
    · rw [he] at hw
      exact h.asked s' i hw
  · intro s' hk he
    have hk' := halive s' hk
    unfold killed at hk
    unfold phase at he
    rcases hproc s' with ⟨rfl,hq⟩ | ⟨_,hq⟩
    · rw [hq] at hk he ⊢
      exact hp.finished hk he
    · rw [hq] at he ⊢
      exact h.finished s' hk' he

/-- A live process that is not waiting for its item goes on to another phase. -/
theorem between_phase {x : System α} {s : Nat} {new : SeqPhase}
    (hw : ∀ i, (x.proc s).phase ≠ .waitItemDone i) (hn : ∀ i, new ≠ .waitItemDone i)
    {body : List (SeqOp α)} (hb : sends body = sends (x.proc s).body)
    (hf : new = .exited → body = []) (semaphore : Int) :
    Between x s { x.proc s with
      phase := new, body := body, waitForGrantSemaphore := semaphore } where
  count := rfl
  ids := rfl
  left := hb
  dead hk := hk
  quit := Or.inr (Or.inr hw)
  wait i hi := absurd hi (hn i)
  finished _ he := hf he

theorem accounted_waitForArbitration {program : Nat → List (α × Int)} {x : System α}
    (h : Accounted program x) {type : SeqReqType} {s : Nat}
    (hw : ∀ i, (x.proc s).phase ≠ .waitItemDone i)
    (hb : type = .lock → sends (x.proc s).body.tail = sends (x.proc s).body) (i : Nat) :
    Accounted program (x.waitForArbitration type s i) := by
  rcases waitForArbitration_cases x type s i with ⟨_,he⟩ | ⟨_,he⟩ <;> rw [he]
  · cases type with
    | req =>
      exact h.between (between_phase hw (fun j => SeqPhase.noConfusion) rfl
        (fun hn => by cases hn) ((x.proc s).waitForGrantSemaphore+1)) rfl rfl rfl rfl
    | lock =>
      exact h.between (between_phase hw (fun j => SeqPhase.noConfusion) (hb rfl)
        (fun hn => by cases hn) (x.proc s).waitForGrantSemaphore) rfl rfl rfl rfl
  · exact h.between (between_phase hw (fun j => SeqPhase.noConfusion) rfl
      (fun hn => by cases hn) (x.proc s).waitForGrantSemaphore) rfl rfl rfl rfl

/-- Calls of the sequencer that leave the items alone. -/
theorem Accounted.sqr {program : Nat → List (α × Int)} {x : System α}
    (h : Accounted program x) {q : UvmSequencer α} (hf : q.reqFifo = x.sqr.reqFifo)
    (hi : q.waitForItemSequenceId = x.sqr.waitForItemSequenceId) :
    Accounted program { x with sqr := q } := by
  have hs : ∀ s, sentBy { x with sqr := q } s = x.sentBy s := by
    intro s
    unfold sentBy
    rw [hf]
    rfl
  refine ⟨?_,?_,?_,?_,h.asked,h.finished⟩
  · intro s hk
    rw [hs]
    exact h.kept s hk
  · intro s
    rw [hs]
    exact h.order s
  · intro item hitem
    rw [hf] at hitem
    exact h.parked item hitem
  · intro hn
    rw [hf] at hn
    rw [hi]
    exact h.unanswered hn

/-- A turn of the driver that ends without an item. -/
theorem Accounted.returnNone {program : Nat → List (α × Int)} {x : System α}
    (h : Accounted program x) : Accounted program (x.returnItem none) := by
  have hs : ∀ s, (x.returnItem none).sentBy s = x.sentBy s := by
    intro s
    unfold sentBy drivenBy returnItem
    simp
  refine ⟨?_,?_,h.parked,h.unanswered,h.asked,h.finished⟩
  · intro s hk
    rw [hs]
    exact h.kept s hk
  · intro s
    rw [hs]
    exact h.order s

theorem accounted_arbitrate {program : Nat → List (α × Int)} {x y : System α}
    (h : Accounted program x) {relevant : Nat → Bool} {draw : Nat}
    (ha : arbitrate t x relevant draw = some y) : Accounted program y := by
  obtain ⟨p,hs,ht⟩ := chooseNextRequest_settles x.sqr (x.sequences t) relevant draw
  obtain ⟨q,hq,hc⟩ := arbitrate_cases ha
  rw [hq] at ht
  have hf : q.reqFifo = x.sqr.reqFifo := by
    rw [ht.rest]
    change p.reqFifo = _
    rw [hs.rest]
  have hi : q.waitForItemSequenceId = x.sqr.waitForItemSequenceId := by
    rw [ht.rest]
    change p.waitForItemSequenceId = _
    rw [hs.rest]
  have hx := h.sqr hf hi
  rcases hc with ⟨_,rfl⟩ | ⟨i,r,_,_,rfl⟩
  · exact hx.returnNone
  · exact ⟨hx.kept,hx.order,hx.parked,hx.unanswered,hx.asked,hx.finished⟩

theorem accounted_exit {program : Nat → List (α × Int)} {x : System α}
    (h : Accounted program x) {s : Nat}
    (hs : (x.proc s).killed = true ∨
      (x.proc s).body = [] ∧ ∀ i, (x.proc s).phase ≠ .waitItemDone i) :
    Accounted program (exitSequence t x s) := by
  have hq := quiet_exit (t := t) x s
  have hb : Between x s { x.proc s with phase := .exited } := by
    refine ⟨rfl,rfl,rfl,fun hk => hk,?_,fun i hi => SeqPhase.noConfusion hi,?_⟩
    · rcases hs with hk | ⟨_,hw⟩
      · exact Or.inr (Or.inl hk)
      · exact Or.inr (Or.inr hw)
    · intro hk _
      rcases hs with hk' | ⟨hb,_⟩
      · rw [hk'] at hk
        cases hk
      · exact hb
  exact h.between hb rfl rfl hq.fifo hq.item

theorem accounted_kill {program : Nat → List (α × Int)} {x : System α}
    (h : Accounted program x) (s : Nat) : Accounted program (x.kill s) :=
  h.between (p := { x.proc s with killed := true })
    ⟨rfl,rfl,rfl,fun _ => rfl,Or.inr (Or.inl rfl),fun _ hi => hi,
      fun hk _ => Bool.noConfusion hk⟩ rfl rfl rfl rfl

theorem getSqrSequenceId_pos {x : System α} (h : Registered x) {s : Nat}
    (hr : (x.phase s).running = true) : 1 ≤ x.sqr.getSqrSequenceId s := by
  obtain ⟨i,hi⟩ := h.ident s hr
  have hb := (h.bound s i hi).1
  unfold getSqrSequenceId
  rw [hi]
  exact Int.ofNat_le.mpr hb

theorem proc_finishItem (x : System α) (s handle : Nat) (payload : α) :
    (finishItem t x s handle payload).proc = Function.update x.proc s
      { (x.proc s).setTransactionId handle with
        phase := .waitItemDone (x.sqr.getSqrSequenceId s)
        body := (x.proc s).body.tail
        waitForGrantSemaphore := (x.proc s).waitForGrantSemaphore-1 } := by
  obtain ⟨fifo,messages,he⟩ := sendRequest_eq x.sqr (x.sequences t) (x.proc s) s handle payload
  have hi : (x.sqr.sendRequest (x.sequences t) (x.proc s) s handle payload).1.getSqrSequenceId
      s = x.sqr.getSqrSequenceId s := by
    unfold getSqrSequenceId
    rw [he,(settles_grantQueuedLocks _ (x.sequences t)).rest]
  unfold finishItem
  simp only [proc_setProc,hi]
  simp only [sendRequest,SeqProcess.setTransactionId_body]

/-- The first of the items to come, numbered as `send_request` numbers it. -/
theorem numbered_cons (p : SeqProcess α) (handle : Nat) (payload : α) (as : List (Nat × α)) :
    numbered p.nextTransactionId p.transactionId ((handle,payload) :: as) =
      (payload,(p.setTransactionId handle).transactionId handle) ::
        numbered (p.setTransactionId handle).nextTransactionId
          (p.setTransactionId handle).transactionId as := by
  unfold SeqProcess.setTransactionId
  rw [numbered]
  by_cases h : p.transactionId handle = -1
  · simp [h]
  · simp [h]

/-- The head of the body goes into the empty FIFO under the next transaction identifier. -/
theorem accounted_finishItem {program : Nat → List (α × Int)} {x : System α}
    (h : Accounted program x) (hx : SequencerInvariant x) {s : Nat} (hk : x.killed s = false)
    (hp : x.phase s = .granted) {handle : Nat} {payload : α} {itemPriority : Int32}
    {lockRequest : Bool} {rest : List (SeqOp α)}
    (hb : (x.proc s).body = .item handle payload itemPriority lockRequest :: rest) :
    Accounted program (finishItem t x s handle payload) := by
  have hempty : x.sqr.reqFifo = [] := Handshake.fifo_empty hx.singleGrant ⟨hk,Or.inl hp⟩
  have hsqr := sqr_finishItem (t := t) hx.singleGrant hx.semaphores hk hp handle payload
  have hq := quiet_locks { x.sqr with
    reqFifo := [x.sqr.sentItem (x.proc s) s handle payload]
    numReqsSent := x.sqr.numReqsSent+1 } (x.sequences t)
  have hfifo : (finishItem t x s handle payload).sqr.reqFifo =
      [x.sqr.sentItem (x.proc s) s handle payload] := by
    rw [hsqr]
    exact hq.fifo
  have hproc := proc_finishItem (t := t) x s handle payload
  have hphase : (finishItem t x s handle payload).phase =
      Function.update x.phase s (.waitItemDone (x.sqr.getSqrSequenceId s)) := by
    funext s'
    unfold phase
    rw [hproc]
    by_cases hs' : s' = s <;> simp [hs']
  have hkilled := killed_finishItem (t := t) x s handle payload
  have hother : ∀ s', s' ≠ s → (finishItem t x s handle payload).proc s' = x.proc s' := by
    intro s' hs'
    rw [hproc,Function.update_of_ne hs']
  have hsent : (finishItem t x s handle payload).sentBy s =
      x.sentBy s ++
        [(payload,((x.proc s).setTransactionId handle).transactionId handle)] := by
    unfold sentBy
    rw [hfifo,hempty]
    simp [ofParent,drivenBy,finishItem,setProc,sentItem]
  have hsent' : ∀ s', s' ≠ s → (finishItem t x s handle payload).sentBy s' = x.sentBy s' := by
    intro s' hs'
    unfold sentBy
    rw [hfifo,hempty]
    refine congrArg _ (ofParent_eq_nil ?_)
    intro item hi
    rw [List.mem_singleton.mp hi]
    exact fun he => hs' he.symm
  have hunsent : x.unsentBy s =
      (payload,((x.proc s).setTransactionId handle).transactionId handle) ::
        (finishItem t x s handle payload).unsentBy s := by
    unfold unsentBy
    rw [hproc,Function.update_self,hb]
    exact numbered_cons (x.proc s) handle payload (sends rest)
  have hkeep : (finishItem t x s handle payload).sentBy s ++
      (finishItem t x s handle payload).unsentBy s = program s := by
    rw [← h.kept s hk,hsent,hunsent,List.append_assoc]
    rfl
  refine ⟨?_,?_,?_,?_,?_,?_⟩
  · intro s' hk'
    by_cases hs' : s' = s
    · rw [hs']
      exact hkeep
    · rw [hkilled] at hk'
      have hu : (finishItem t x s handle payload).unsentBy s' = x.unsentBy s' := by
        unfold unsentBy
        rw [hother s' hs']
      rw [hsent' s' hs',hu]
      exact h.kept s' hk'
  · intro s'
    by_cases hs' : s' = s
    · rw [hs']
      exact ⟨_,hkeep⟩
    · rw [hsent' s' hs']
      exact h.order s'
  · intro item hitem
    rw [hfifo] at hitem
    rw [List.mem_singleton.mp hitem,hphase]
    right
    exact ⟨_,Function.update_self ..⟩
  · intro _
    rw [hsqr]
    rfl
  · intro s' i hi
    by_cases hs' : s' = s
    · rw [hphase,hs',Function.update_self] at hi
      cases hi
      exact getSqrSequenceId_pos hx.registered (by rw [hp]; rfl)
    · rw [phase,hother s' hs'] at hi
      exact h.asked s' i hi
  · intro s' hk' he
    by_cases hs' : s' = s
    · rw [hphase,hs',Function.update_self] at he
      cases he
    · rw [hkilled] at hk'
      rw [phase,hother s' hs'] at he
      rw [hother s' hs']
      exact h.finished s' hk' he

/-- The item that `stop_sequences` takes out of the FIFO is one of a sequence it kills. -/
theorem accounted_stop {program : Nat → List (α × Int)} {x : System α}
    (h : Accounted program x) (hr : Registered x) : Accounted program (stopSequences t x) := by
  have hi := stopSequences_idle (t := t) hr
  obtain ⟨messages,he,_⟩ := stopSequences_eq (t := t) x
  have hproc : ∀ s, (stopSequences t x).proc s = x.proc s ∨
      (stopSequences t x).killed s = true ∧ (stopSequences t x).phase s = .exited := by
    intro s
    unfold killed phase
    rw [he]
    exact stopLoop_proc _ s
  have hdriven : ∀ s, (stopSequences t x).drivenBy s = x.drivenBy s := by
    intro s
    unfold drivenBy
    rw [he]
    simp only [stopLoop_driver.2.1]
  have hsent : ∀ s, (stopSequences t x).sentBy s = x.drivenBy s := by
    intro s
    unfold sentBy
    rw [hi.fifo,hdriven]
    exact List.append_nil _
  refine ⟨?_,?_,?_,?_,?_,?_⟩
  · intro s hk
    rcases hproc s with hp | ⟨hd,_⟩
    · have hk' : x.killed s = false := by
        unfold killed at hk ⊢
        rw [← hp]
        exact hk
      have hnone : ofParent x.sqr.reqFifo s = [] := by
        apply ofParent_eq_nil
        rintro item hitem rfl
        rcases h.parked item hitem with hd | ⟨i,hw⟩
        · rw [hd] at hk'
          cases hk'
        · have hrun := hi.stopped _ hk
          unfold phase at hrun hw
          rw [hp,hw] at hrun
          cases hrun
      have hkeep := h.kept s hk'
      have hu : (stopSequences t x).unsentBy s = x.unsentBy s := by
        unfold unsentBy
        rw [hp]
      rw [sentBy,hnone,List.append_nil] at hkeep
      rw [hsent,hu]
      exact hkeep
    · rw [hd] at hk
      cases hk
  · intro s
    rw [hsent]
    exact (List.prefix_append _ _).trans (h.order s)
  · intro item hitem
    rw [hi.fifo] at hitem
    cases hitem
  · exact fun hn => absurd hi.fifo hn
  · intro s i hw
    rcases hproc s with hp | ⟨_,hp⟩
    · unfold phase at hw
      rw [hp] at hw
      exact h.asked s i hw
    · rw [hp] at hw
      cases hw
  · intro s hk hx
    rcases hproc s with hp | ⟨hd,_⟩
    · unfold phase at hx
      unfold killed at hk
      rw [hp] at hx hk ⊢
      exact h.finished s hk hx
    · rw [hd] at hk
      cases hk

theorem accounted_item {program : Nat → List (α × Int)} {x : System α}
    (h : Accounted program x) (hx : SequencerInvariant x) {item : SequenceItem α}
    {rest : List (SequenceItem α)} (hf : x.sqr.reqFifo = item :: rest) :
    Accounted program
      ({ x with sqr := x.sqr.itemDone (x.sequences t) }.returnItem (some item)) := by
  have hrest : rest = [] := by
    have hs := hx.singleGrant.single
    rw [hf,List.length_cons] at hs
    exact List.eq_nil_of_length_eq_zero (by omega)
  have hfifo : (x.sqr.itemDone (x.sequences t)).reqFifo = [] := by
    rw [itemDone_eq hf,(quiet_locks _ (x.sequences t)).fifo]
    exact hrest
  have hsent : ∀ s, ({ x with sqr := x.sqr.itemDone (x.sequences t) }.returnItem
      (some item)).sentBy s = x.sentBy s := by
    intro s
    unfold sentBy drivenBy returnItem
    simp only
    rw [hfifo,hf,hrest,List.filterMap_append,ofParent_append,List.append_assoc]
    exact congrArg _ (List.append_nil _)
  refine ⟨?_,?_,?_,?_,h.asked,h.finished⟩
  · intro s hk
    rw [hsent]
    exact h.kept s hk
  · intro s
    rw [hsent]
    exact h.order s
  · intro item' hitem
    change item' ∈ (x.sqr.itemDone (x.sequences t)).reqFifo at hitem
    rw [hfifo] at hitem
    cases hitem
  · exact fun hn => absurd hfifo hn

theorem accounted_move {program : Nat → List (α × Int)} {x y : System α} {a : Action}
    (h : Accounted program x) (hx : SequencerInvariant x) (hh : Heads x) (m : Move t x a y) :
    Accounted program y := by
  cases m with
  | @start s hk hp =>
    have hq := quiet_register x.sqr s
    exact (h.sqr hq.fifo hq.item).between (between_phase (by simp [hp])
      (fun j => SeqPhase.noConfusion) rfl (fun hn => by cases hn) _) rfl rfl rfl rfl
  | finish hk hp hb => exact accounted_exit h (Or.inr ⟨hb,by simp [hp]⟩)
  | @request s handle payload itemPriority lockRequest rest hk hp hb =>
    have hq := quiet_waitForGrant x.sqr s itemPriority lockRequest
    exact accounted_waitForArbitration (h.sqr hq.fifo hq.item) (by simp [hp])
      (fun ht => by cases ht) _
  | @lock s lock rest hk hp hb =>
    have hq := quiet_lockReq x.sqr (x.sequences t) s lock
    refine accounted_waitForArbitration (h.sqr hq.fifo hq.item) (by simp [hp]) ?_ _
    intro _
    simp only [hb]
    cases lock <;> rfl
  | @unlock s rest hk hp hb =>
    have hq := quiet_unlockReq x.sqr (x.sequences t) s
    refine (h.sqr hq.fifo hq.item).between (between_phase
      (by simp [hp]) (fun j => SeqPhase.noConfusion) ?_ (fun hn => by cases hn) _)
      rfl rfl rfl rfl
    simp only [hb]
    rfl
  | @arbitrated type s i n hk hp hn =>
    refine accounted_waitForArbitration h (by simp [hp]) ?_ i
    rintro rfl
    have hs := hh s
    simp only [HeadOk,hp] at hs
    obtain ⟨rest,hb⟩ := hs
    rcases hb with hb | hb <;> rw [hb] <;> rfl
  | send hk hp hb => exact accounted_finishItem h hx hk hp hb
  | @done s i hk hp hi =>
    have hempty : x.sqr.reqFifo = [] := by
      by_contra hn
      have hneg := h.unanswered hn
      have hpos := h.asked s i hp
      omega
    exact h.between (p := { x.proc s with phase := .ready })
      ⟨rfl,rfl,rfl,fun hk => hk,Or.inl hempty,fun i hi => SeqPhase.noConfusion hi,
        fun _ hn => SeqPhase.noConfusion hn⟩ rfl rfl rfl rfl
  | kill hr => exact accounted_kill h _
  | cleanup hk hr => exact accounted_exit h (Or.inl hk)
  | stop => exact accounted_stop h hx.registered
  | @twice relevant draw hn hg =>
    exact (h.sqr (q := x.sqr.twiceError) rfl rfl).returnNone
  | select hn hg ha => exact accounted_arbitrate h ha
  | item hn hf => exact accounted_item h hx hf
  | @again relevant draw r y hn hf hk ha =>
    exact accounted_arbitrate (h.sqr (q := x.sqr.forget r.requestId) rfl rfl) ha
  | @blocked relevant draw r hn hf hk =>
    exact (h.sqr (q := x.sqr.blockedError t r) rfl rfl).returnNone

theorem accounted_start (fullName : String) (arbitration : ArbMode)
    (bodies : Nat → List (SeqOp α)) :
    Accounted (fun s => numberedItems (bodies s))
      (start fullName arbitration bodies) where
  kept s _ := rfl
  order s := List.nil_prefix
  parked item h := by cases h
  unanswered h := absurd rfl h
  asked s i h := by cases h
  finished s _ h := by cases h

theorem accounted_run {fullName : String} {arbitration : ArbMode}
    {bodies : Nat → List (SeqOp α)} {as : List Action} {x : System α}
    (ha : arbitration.isFifo = true ∨ ∀ s, .kill s ∉ as)
    (h : Transitions.exec (step t) (start fullName arbitration bodies) as = some x) :
    (SequencerInvariant x ∧ x.sqr.arbitration = arbitration) ∧ Heads x ∧
      Accounted (fun s => numberedItems (bodies s)) x :=
  invariant_run (P := fun x => Heads x ∧ Accounted _ x)
    ⟨fun _ => trivial,accounted_start fullName arbitration bodies⟩
    (fun _ _ _ hx hp m => ⟨heads_move hp.1 m,accounted_move hp.2 hx hp.1 m⟩) ha h

theorem Accounted.driven {program : Nat → List (α × Int)} {x : System α}
    (h : Accounted program x) (s : Nat) : x.drivenBy s <+: program s :=
  (List.prefix_append _ _).trans (h.order s)

theorem Accounted.settled {program : Nat → List (α × Int)} {x : System α}
    (h : Accounted program x) {s : Nat} (hk : x.killed s = false)
    (hw : ∀ i, x.phase s ≠ .waitItemDone i) : x.drivenBy s ++ x.unsentBy s = program s := by
  have hnone : ofParent x.sqr.reqFifo s = [] := by
    apply ofParent_eq_nil
    rintro item hitem rfl
    rcases h.parked item hitem with hd | ⟨i,hi⟩
    · rw [hd] at hk
      cases hk
    · exact hw i hi
  have hkeep := h.kept s hk
  rw [sentBy,hnone,List.append_nil] at hkeep
  exact hkeep

theorem Accounted.complete {program : Nat → List (α × Int)} {x : System α}
    (h : Accounted program x) {s : Nat} (hk : x.killed s = false)
    (he : x.phase s = .exited) : x.drivenBy s = program s := by
  have hall := h.settled hk (by simp [he])
  rw [unsentBy,h.finished s hk he] at hall
  rw [← hall]
  exact (List.append_nil _).symm

/-- In every run the driver drives the items of each sequence in order, without loss or
repetition and under the transaction identifiers 1, 2, 3 and so on, which an item object gets
when it is sent for the first time and keeps when it is sent again. What a live sequence has
sent is driven once it is out of its wait for `item_done`, and all its items are once it has
finished. -/
theorem delivery_run {fullName : String} {arbitration : ArbMode}
    {bodies : Nat → List (SeqOp α)} {as : List Action} {x : System α}
    (ha : arbitration.isFifo = true ∨ ∀ s, .kill s ∉ as)
    (h : Transitions.exec (step t) (start fullName arbitration bodies) as = some x) (s : Nat) :
    x.drivenBy s <+: numberedItems (bodies s) ∧
    (x.killed s = false → (∀ i, x.phase s ≠ .waitItemDone i) →
      x.drivenBy s ++ x.unsentBy s = numberedItems (bodies s)) ∧
    (x.killed s = false → x.phase s = .exited → x.drivenBy s = numberedItems (bodies s)) := by
  obtain ⟨_,_,hc⟩ := accounted_run ha h
  exact ⟨hc.driven s,hc.settled,hc.complete⟩

/-- The only sequence sends its first object again after another one. -/
def resentBodies : Nat → List (SeqOp Nat)
  | 0 => [.item 0 7 (-1) false,.item 1 8 (-1) false,.item 0 9 (-1) false]
  | _ => []

def resentRun : Option (System Nat) :=
  Transitions.exec (step flatTree) (start "sqr" .fifo resentBodies)
    (.resume 0 :: .resume 0 :: (turnOf 0 ++ turnOf 0 ++ turnOf 0))

theorem resentRun_delivery :
    (resentRun.get (by decide)).drivenBy 0 = [(7,1),(8,2),(9,1)] :=
  (delivery_run (Or.inl rfl) (Option.some_get (show resentRun.isSome by decide)).symm 0).2.2
    (by decide) (by decide)

end System

end MemoryController.Uvm
