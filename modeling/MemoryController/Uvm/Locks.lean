import MemoryController.Uvm.Prompt

/-!
What a lock is for. The locks held at any time nest along the tree of sequences, and from the
grant of a lock to its release the driver is given items of its holder and of the descendants
of the holder only.
-/

set_option autoImplicit false

namespace MemoryController.Uvm

namespace UvmSequencer

variable {α : Type} {t : SequenceTree}

/-- A lock of `l` does not keep `s` out. -/
def Admits (t : SequenceTree) (l s : Nat) : Prop := l = s ∨ t.isChild l s = true

/-- Every lock was admitted by the ones granted before it. -/
def Nested (t : SequenceTree) (locks : List Nat) : Prop := locks.Pairwise (Admits t)

/-- Locks are added where the others admit them, and only `lost` ones are taken away. -/
structure Relocked (t : SequenceTree) (lost : Nat → Prop) (q q' : UvmSequencer α) : Prop where
  nested : Nested t q.lockList → Nested t q'.lockList
  kept : ∀ l ∈ q.lockList, l ∈ q'.lockList ∨ lost l

/-- The locks of sequences that are gone, and of their descendants. -/
def LostWith (t : SequenceTree) (gone : Nat → Prop) (l : Nat) : Prop :=
  ∃ s, gone s ∧ Admits t s l

theorem relocked_same {lost : Nat → Prop} {q q' : UvmSequencer α}
    (h : q'.lockList = q.lockList) : Relocked t lost q q' := by
  refine ⟨?_,?_⟩
  · rw [h]
    exact id
  · intro l hl
    rw [h]
    exact Or.inl hl

theorem Relocked.trans {lost : Nat → Prop} {q q' q'' : UvmSequencer α}
    (h : Relocked t lost q q') (h' : Relocked t lost q' q'') : Relocked t lost q q'' := by
  refine ⟨fun hq => h'.nested (h.nested hq),?_⟩
  intro l hl
  rcases h.kept l hl with hl | hl
  · exact h'.kept l hl
  · exact Or.inr hl

theorem Relocked.mono {lost lost' : Nat → Prop} {q q' : UvmSequencer α}
    (h : Relocked t lost q q') (hl : ∀ l, lost l → lost' l) : Relocked t lost' q q' :=
  ⟨h.nested,fun l hm => (h.kept l hm).imp_right (hl l)⟩

theorem relocked_trimmed {gone : Nat → Prop} {q q' : UvmSequencer α}
    (h : Trimmed t gone q q') : Relocked t (LostWith t gone) q q' := by
  refine ⟨fun hq => List.Pairwise.sublist h.locks hq,?_⟩
  intro l hl
  by_cases hl' : l ∈ q'.lockList
  · exact Or.inl hl'
  · obtain ⟨s,hs,he⟩ := h.released l hl hl'
    exact Or.inr ⟨s,hs,he.imp_left Eq.symm⟩

theorem relocked_settles {gone : Nat → Prop} {q q' : UvmSequencer α}
    (h : Settles t gone q q') : Relocked t (LostWith t gone) q q' := by
  obtain ⟨p,ht,rfl | ⟨i,r,_,_,hb,rfl⟩⟩ := h
  · exact relocked_trimmed ht
  · refine (relocked_trimmed ht).trans ⟨?_,fun l hl => Or.inl (List.mem_append_left _ hl)⟩
    intro hp
    change Nested t (p.lockList ++ [r.sequencePtr])
    unfold Nested
    rw [List.pairwise_append]
    refine ⟨hp,List.pairwise_singleton _ _,?_⟩
    intro l hl s hs
    rw [List.mem_singleton.mp hs]
    exact (isBlocked_eq_false_iff p t r.sequencePtr).mp hb l hl

theorem lockList_registerSequence (q : UvmSequencer α) (s : Nat) :
    (q.registerSequence s).1.lockList = q.lockList := by
  unfold registerSequence
  split <;> rfl

theorem lockList_waitForGrant (q : UvmSequencer α) (s : Nat) (itemPriority : Int32)
    (lockRequest : Bool) :
    (q.waitForGrant s itemPriority lockRequest).1.lockList = q.lockList := by
  have hr := lockList_registerSequence q s
  unfold waitForGrant
  cases lockRequest <;> exact hr

theorem relocked_lockReq (q : UvmSequencer α) (ss : Sequences) (s : Nat) (lock : Bool) :
    Relocked ss.toSequenceTree (LostWith ss.toSequenceTree (Dead ss)) q
      (q.lockReq ss s lock).1 := by
  have hr := lockList_registerSequence q s
  unfold lockReq
  generalize q.registerSequence s = result at hr ⊢
  rcases result with ⟨p,i⟩
  cases lock with
  | true =>
    have hp : Relocked ss.toSequenceTree (LostWith ss.toSequenceTree (Dead ss)) q
        (p.pushBack (p.request .lock 0 s i)) := relocked_same hr
    exact hp.trans (relocked_settles (settles_grantQueuedLocks _ ss))
  | false =>
    have hp : Relocked ss.toSequenceTree (LostWith ss.toSequenceTree (Dead ss)) q
        (p.pushFront (p.request .lock 0 s i)).updateLists := relocked_same hr
    exact hp.trans (relocked_settles (settles_grantQueuedLocks _ ss))

theorem relocked_unlockReq (q : UvmSequencer α) (ss : Sequences) (s : Nat) :
    Relocked ss.toSequenceTree
      (fun l => l = s ∨ LostWith ss.toSequenceTree (Dead ss) l) q (q.unlockReq ss s) := by
  unfold unlockReq
  split
  · have he : Relocked ss.toSequenceTree
        (fun l => l = s ∨ LostWith ss.toSequenceTree (Dead ss) l) q
        { q with lockList := q.lockList.erase s } := by
      refine ⟨fun hq => List.Pairwise.sublist List.erase_sublist hq,?_⟩
      intro l hl
      by_cases hls : l = s
      · exact Or.inr (Or.inl hls)
      · exact Or.inl ((List.mem_erase_of_ne hls).mpr hl)
    have hq := he.trans ((relocked_settles (settles_grantQueuedLocks
      { q with lockList := q.lockList.erase s } ss)).mono (fun l => Or.inr))
    exact ⟨hq.nested,hq.kept⟩
  · exact relocked_same rfl

end UvmSequencer

namespace System
open UvmSequencer

variable {α : Type} {t : SequenceTree}

/-- The actions that take the lock of `s` away: its own `unlock`, and the end of `s` or of an
ancestor. -/
def Releases (t : SequenceTree) (s : Nat) (x : System α) : Action → Prop
  | .resume s' => (x.proc s').phase = .ready ∧
      (s' = s ∧ (x.proc s').body.head? = some .unlock ∨
        Admits t s' s ∧ (x.proc s').body = [])
  | .kill s' => Admits t s' s
  | .stopSequences => True
  | _ => False

/-- The locks that a move can take away. -/
def Loses (t : SequenceTree) (x : System α) (a : Action) (l : Nat) : Prop :=
  Releases t l x a ∨ LostWith t (fun d => x.killed d = true) l

theorem relocked_arbitrate {lost : Nat → Prop} {x y : System α} {relevant : Nat → Bool}
    {draw : Nat} (hl : ∀ l, LostWith t (fun d => x.killed d = true) l → lost l)
    (ha : arbitrate t x relevant draw = some y) : Relocked t lost x.sqr y.sqr := by
  obtain ⟨p,hs,ht⟩ := chooseNextRequest_settles x.sqr (x.sequences t) relevant draw
  obtain ⟨q,hq,hc⟩ := arbitrate_cases ha
  rw [hq] at ht
  have hr := ((relocked_settles hs).trans (relocked_trimmed ht)).mono hl
  rcases hc with ⟨_,rfl⟩ | ⟨i,r,_,_,rfl⟩
  · exact hr
  · exact ⟨hr.nested,hr.kept⟩

theorem relocked_exit {lost : Nat → Prop} (x : System α) {s : Nat}
    (hl : ∀ l, Admits t s l → lost l) : Relocked t lost x.sqr (exitSequence t x s).sqr := by
  have hr : Relocked t lost x.sqr (exitQueues t x s) :=
    (relocked_trimmed (trimmed_exitQueues t x s)).mono (by
      rintro l ⟨s',rfl,ha⟩
      exact hl l ha)
  exact ⟨hr.nested,hr.kept⟩

theorem nested_stopLoop {turns : Nat} {x : System α} (h : Nested t x.sqr.lockList) :
    Nested t (stopLoop t turns x).sqr.lockList := by
  induction turns generalizing x with
  | zero => exact h
  | succ turns ih =>
    unfold stopLoop
    split
    · rename_i s _
      have hr : Relocked t (fun _ => True) x.sqr (killSequence t x s).sqr :=
        relocked_exit (x.kill s) (fun _ _ => trivial)
      exact ih (hr.nested h)
    · exact h

theorem lockList_waitForArbitration (x : System α) (type : SeqReqType) (s i : Nat) :
    (x.waitForArbitration type s i).sqr.lockList = x.sqr.lockList := by
  obtain ⟨completed,he⟩ := sqr_waitForArbitration x type s i
  rw [he]

/-- What a move can do to the locks. -/
theorem relocked_move {x y : System α} {a : Action} (m : Move t x a y) :
    Relocked t (Loses t x a) x.sqr y.sqr := by
  cases m with
  | start hk hp => exact relocked_same (lockList_registerSequence x.sqr _)
  | finish hk hp hb => exact relocked_exit x (fun l hl => Or.inl ⟨hp,Or.inr ⟨hl,hb⟩⟩)
  | @request s handle payload itemPriority lockRequest rest hk hp hb =>
    refine relocked_same ?_
    rw [lockList_waitForArbitration]
    exact lockList_waitForGrant x.sqr s itemPriority lockRequest
  | @lock s lock rest hk hp hb =>
    have hr : Relocked t (Loses t x (.resume s)) _ _ :=
      (relocked_lockReq x.sqr (x.sequences t) s lock).mono (fun l => Or.inr)
    exact hr.trans (relocked_same (lockList_waitForArbitration { x with sqr := _ } .lock s _))
  | @unlock s rest hk hp hb =>
    refine (relocked_unlockReq x.sqr (x.sequences t) s).mono ?_
    rintro l (rfl | hl)
    · left
      refine ⟨hp,Or.inl ⟨rfl,?_⟩⟩
      rw [hb]
      rfl
    · exact Or.inr hl
  | arbitrated hk hp hn => exact relocked_same (lockList_waitForArbitration x _ _ _)
  | @send s handle payload itemPriority lockRequest rest hk hp hb =>
    obtain ⟨fifo,messages,he⟩ := sendRequest_eq x.sqr (x.sequences t) (x.proc s) s handle payload
    have hr : Relocked t (Loses t x (.resume s)) _ _ :=
      (relocked_settles (settles_grantQueuedLocks { x.sqr with
        reqFifo := fifo, reports := messages, numReqsSent := x.sqr.numReqsSent+1 }
        (x.sequences t))).mono (fun l => Or.inr)
    rw [← he] at hr
    exact ⟨hr.nested,hr.kept⟩
  | done hk hp hi => exact relocked_same rfl
  | kill hr => exact relocked_same rfl
  | @cleanup s hk hr => exact relocked_exit x (fun l hl => Or.inr ⟨s,hk,hl⟩)
  | stop =>
    obtain ⟨messages,he,_⟩ := stopSequences_eq (t := t) x
    refine ⟨?_,fun l _ => Or.inr (Or.inl trivial)⟩
    rw [he]
    exact nested_stopLoop
  | twice hn hg => exact relocked_same rfl
  | select hn hg ha => exact relocked_arbitrate (fun l => Or.inr) ha
  | @item relevant draw r item rest hn hf =>
    rw [itemDone_eq hf]
    have hr : Relocked t (Loses t x (.tryPeek relevant draw)) _ _ :=
      (relocked_settles (settles_grantQueuedLocks { x.sqr with
        sequenceItemRequested := false
        getNextItemCalled := false
        reqFifo := rest
        waitForItemSequenceId := item.sequenceId
        waitForItemTransactionId := item.transactionId } (x.sequences t))).mono (fun l => Or.inr)
    exact ⟨hr.nested,hr.kept⟩
  | @again relevant draw r y hn hf hk ha =>
    have hr : Relocked t (Loses t x (.tryPeek relevant draw)) _ _ :=
      relocked_arbitrate (x := x.forget r.requestId) (fun l => Or.inr) ha
    exact ⟨hr.nested,hr.kept⟩
  | blocked hn hf hk => exact relocked_same rfl

/-- Locks nest in every reachable state: of two locks the earlier one belongs to the same
sequence as the later one, or to an ancestor of it. -/
theorem locks_run {fullName : String} {arbitration : ArbMode} {bodies : Nat → List (SeqOp α)}
    {as : List Action} {x : System α}
    (h : Transitions.exec (step t) (start fullName arbitration bodies) as = some x) :
    Nested t x.sqr.lockList :=
  Transitions.exec_invariant (step t) (P := fun x => Nested t x.sqr.lockList)
    (A := fun _ => True) (fun _ _ _ _ hs hx => (relocked_move (step_cases hs).2).nested hx)
    (fun _ _ => trivial) h List.Pairwise.nil

/-- The second sequence is a child of the first one. -/
def familyTree : SequenceTree :=
  ⟨fun s => if s = 1 then [0] else [],fun _ => 100,fun _ => "seq"⟩

/-- A lock of each of the two, and one of a stranger. -/
def familyBodies : Nat → List (SeqOp Nat)
  | 0 | 1 | 2 => [.lock]
  | _ => []

def familyRun : Option (System Nat) :=
  Transitions.exec (step familyTree) (start "sqr" .fifo familyBodies)
    [.resume 0,.resume 1,.resume 2,.resume 0,.resume 2,.resume 1]

/-- Parent and child both hold a lock, and the stranger waits for its own. -/
theorem familyRun_nested :
    (familyRun.get (by decide)).sqr.lockList = [0,1] ∧
    ((familyRun.get (by decide)).phase 2).waitId = some 1 ∧
    Nested familyTree (familyRun.get (by decide)).sqr.lockList :=
  ⟨by decide,by decide,locks_run (Option.some_get (show familyRun.isSome by decide)).symm⟩

/-- The first sequence locks the sequencer around its item. -/
def lockBodies : Nat → List (SeqOp Nat)
  | 0 => [.lock,.item 0 1 (-1) false,.unlock]
  | 1 => [.item 0 2 (-1) false]
  | _ => []

def lockRun (as : List Action) : Option (System Nat) :=
  Transitions.exec (step flatTree) (start "sqr" .fifo lockBodies) (bothAsk ++ as)

def lockHeld : System Nat := (lockRun []).get (by decide)

/-- An item in the request FIFO answers the request that the driver has chosen. -/
def Answers (x : System α) : Prop :=
  ∀ r, x.tryNext = some r → ∀ item ∈ x.sqr.reqFifo, item.parentSequence = r.sequencePtr

theorem fifo_arbitrate {x y : System α} {relevant : Nat → Bool} {draw : Nat}
    (ha : arbitrate t x relevant draw = some y) : y.sqr.reqFifo = x.sqr.reqFifo := by
  obtain ⟨p,hs,ht⟩ := chooseNextRequest_settles x.sqr (x.sequences t) relevant draw
  obtain ⟨q,hq,hc⟩ := arbitrate_cases ha
  rw [hq] at ht
  have hf : q.reqFifo = x.sqr.reqFifo := by
    rw [ht.rest]
    change p.reqFifo = _
    rw [hs.rest]
  rcases hc with ⟨_,rfl⟩ | ⟨i,r,_,_,rfl⟩ <;> exact hf

theorem answers_move {x y : System α} {a : Action} (h : Answers x) (hx : SequencerInvariant x)
    (m : Move t x a y) : Answers y := by
  have hkeep : ∀ {z : System α}, Quiet x.sqr z.sqr → z.tryNext = x.tryNext → Answers z := by
    intro z hq hn
    unfold Answers
    rw [hn,hq.fifo]
    exact h
  have hempty : ∀ {z : System α}, z.sqr.reqFifo = [] → Answers z := by
    intro z hf r _ item hi
    rw [hf] at hi
    cases hi
  cases m with
  | start hk hp => exact hkeep (quiet_register x.sqr _) rfl
  | finish hk hp hb => exact hkeep (quiet_exit x _) rfl
  | @request s handle payload itemPriority lockRequest rest hk hp hb =>
    have hq := quiet_waitForGrant x.sqr s itemPriority lockRequest
    exact hkeep (hq.trans (quiet_waitForArbitration { x with sqr := _ } .req s _))
      (driverKept_waitForArbitration hq .req s _).tryNext
  | @lock s lock rest hk hp hb =>
    have hq := quiet_lockReq x.sqr (x.sequences t) s lock
    exact hkeep (hq.trans (quiet_waitForArbitration { x with sqr := _ } .lock s _))
      (driverKept_waitForArbitration hq .lock s _).tryNext
  | unlock hk hp hb => exact hkeep (quiet_unlockReq x.sqr _ _) rfl
  | arbitrated hk hp hn =>
    exact hkeep (quiet_waitForArbitration x _ _ _)
      (driverKept_waitForArbitration (quiet_refl x.sqr) _ _ _).tryNext
  | @send s handle payload itemPriority lockRequest rest hk hp hb =>
    intro r hr item hi
    rw [sqr_finishItem hx.singleGrant hx.semaphores hk hp] at hi
    have hq := quiet_locks { x.sqr with
      reqFifo := [x.sqr.sentItem (x.proc s) s handle payload]
      numReqsSent := x.sqr.numReqsSent+1 } (x.sequences t)
    have hi : item ∈ ({ x.sqr with
      reqFifo := [x.sqr.sentItem (x.proc s) s handle payload]
      numReqsSent := x.sqr.numReqsSent+1 }.grantQueuedLocks (x.sequences t)).reqFifo := hi
    rw [hq.fifo] at hi
    rw [List.mem_singleton.mp hi]
    exact Handshake.expected hx.singleGrant r hr s ⟨hk,Or.inl hp⟩
  | done hk hp hi => exact h
  | kill hr => exact h
  | cleanup hk hr => exact hkeep (quiet_exit x _) rfl
  | stop => exact hempty (stopSequences_idle hx.registered).fifo
  | twice hn hg =>
    intro r hr
    cases hr
  | select hn hg ha =>
    refine hempty ?_
    rw [fifo_arbitrate ha]
    exact (hx.singleGrant.idle hg).1
  | item hn hf =>
    intro r hr
    cases hr
  | again hn hf hk ha =>
    refine hempty ?_
    rw [fifo_arbitrate ha]
    exact hf
  | blocked hn hf hk =>
    intro r hr
    cases hr

/-- Whom the driver has chosen is admitted by every lock. -/
theorem chosen_admitted {x y : System α} (hm : SafeMode x) {relevant : Nat → Bool} {draw : Nat}
    (ha : arbitrate t x relevant draw = some y) {r : SequenceRequest} (hr : y.tryNext = some r)
    {s : Nat} (hs : s ∈ y.sqr.lockList) : Admits t s r.sequencePtr := by
  obtain ⟨q,hq,⟨_,rfl⟩ | ⟨i,r',hi,hget,rfl⟩⟩ := arbitrate_cases ha
  · cases hr
  · cases hr
    have he : x.sqr.chooseNextRequest (x.sequences t) relevant draw = (q,some i) :=
      Prod.ext hq hi
    have hk : x.sqr.arbitration.isFifo = true ∨ x.sqr.AllAlive (x.sequences t) := hm
    obtain ⟨r',hget',_,_,_,hl⟩ := chosen_eligible hk he
    rw [hget] at hget'
    cases hget'
    exact hl s hs

/-- `s` holds a lock, and from the `n`-th choice on the driver has chosen nobody that the lock
keeps out. -/
structure Held (t : SequenceTree) (s n : Nat) (x : System α) : Prop where
  lock : s ∈ x.sqr.lockList
  alive : ∀ d, Admits t d s → x.killed d = false
  driven : ∀ k item, n ≤ k → x.items[k]? = some item → Admits t s item.parentSequence
  chosen : ∀ r, x.tryNext = some r → n ≤ x.items.length → Admits t s r.sequencePtr

theorem items_returnItem (x : System α) (item : Option (SequenceItem α)) :
    (x.returnItem item).items = x.items ++ item.toList := by
  unfold items returnItem
  rw [List.filterMap_append]
  cases item <;> rfl

theorem items_arbitrate {x y : System α} {relevant : Nat → Bool} {draw : Nat}
    (ha : arbitrate t x relevant draw = some y) : y.items = x.items := by
  obtain ⟨q,hq,⟨_,rfl⟩ | ⟨i,r,_,_,rfl⟩⟩ := arbitrate_cases ha
  · exact (items_returnItem _ none).trans (List.append_nil _)
  · rfl

theorem held_move {x y : System α} {a : Action} {s n : Nat} (h : Held t s n x)
    (hx : SequencerInvariant x)
    (hf : Answers x) (ha : ¬ Releases t s x a) (m : Move t x a y) : Held t s n y := by
  have hlock : s ∈ y.sqr.lockList := by
    rcases (relocked_move m).kept s h.lock with hl | hl | ⟨d,hd,had⟩
    · exact hl
    · exact absurd hl ha
    · rw [h.alive d had] at hd
      cases hd
  have halive : ∀ d, Admits t d s → y.killed d = false := by
    intro d hd
    cases a with
    | kill s' =>
      cases m
      rw [killed_kill,Function.update_of_ne]
      · exact h.alive d hd
      · rintro rfl
        exact ha hd
    | stopSequences => exact absurd trivial ha
    | _ =>
      rw [(spares_move hx.registered m (fun _ => Action.noConfusion) Action.noConfusion).killed]
      exact h.alive d hd
  have hkeep : y.driven = x.driven → y.tryNext = x.tryNext → Held t s n y := by
    intro hd hn
    have hi : y.items = x.items := by
      unfold items
      rw [hd]
    refine ⟨hlock,halive,?_,?_⟩
    · rw [hi]
      exact h.driven
    · rw [hn,hi]
      exact h.chosen
  have hchoose : y.items = x.items → (∀ r, y.tryNext = some r → Admits t s r.sequencePtr) →
      Held t s n y := by
    intro hi hr
    refine ⟨hlock,halive,?_,fun r hn _ => hr r hn⟩
    rw [hi]
    exact h.driven
  cases a with
  | resume s' => exact hkeep (driverKept_resume m).driven (driverKept_resume m).tryNext
  | kill s' =>
    cases m
    exact hkeep rfl rfl
  | exit s' =>
    cases m
    exact hkeep rfl rfl
  | stopSequences => exact absurd trivial ha
  | tryNextItem relevant draw =>
    cases m with
    | twice hn hg =>
      refine hchoose ((items_returnItem _ none).trans (List.append_nil _)) ?_
      intro r hr
      cases hr
    | select hn hg hs =>
      exact hchoose (items_arbitrate hs) (fun r hr => chosen_admitted hx.mode hs hr hlock)
  | tryPeek relevant draw =>
    cases m with
    | @item relevant draw r item rest hn hq =>
      refine ⟨hlock,halive,?_,fun r hr => by cases hr⟩
      intro k item' hk hi
      have hi : (x.items ++ [item])[k]? = some item' := by
        rw [← hi]
        exact congrArg (·[k]?) (items_returnItem _ (some item)).symm
      rcases Nat.lt_trichotomy k x.items.length with hlt | rfl | hlt
      · rw [List.getElem?_append_left hlt] at hi
        exact h.driven k item' hk hi
      · rw [List.getElem?_concat_length] at hi
        cases hi
        rw [hf r hn item (by rw [hq]; exact List.mem_cons_self)]
        exact h.chosen r hn hk
      · rw [List.getElem?_eq_none (by simp; omega)] at hi
        cases hi
    | @again relevant draw r y hn hq hd hs =>
      exact hchoose (items_arbitrate (x := x.forget r.requestId) hs) (fun r' hr =>
        chosen_admitted (x := x.forget r.requestId) hx.mode hs hr hlock)
    | blocked hn hq hd =>
      refine hchoose ((items_returnItem _ none).trans (List.append_nil _)) ?_
      intro r hr
      cases hr

/-- A lock does its work. From a state in which `s` holds a lock, and as long as neither `s`
unlocks nor `s` or an ancestor of it ends, `s` keeps the lock, and every item driven for a
choice made meanwhile comes from `s` or from a descendant of `s`, in whatever order the
processes run. -/
theorem exclusive_run {fullName : String} {arbitration : ArbMode}
    {bodies : Nat → List (SeqOp α)} {as bs : List Action} {x y : System α} {s : Nat}
    (ha : arbitration.isFifo = true ∨ ∀ s', .kill s' ∉ as ++ bs)
    (hx : Transitions.exec (step t) (start fullName arbitration bodies) as = some x)
    (hs : s ∈ x.sqr.lockList) (hk : ∀ d, Admits t d s → x.killed d = false)
    (hy : Transitions.guarded (step t) (fun x a => ¬ Releases t s x a) x bs y) :
    s ∈ y.sqr.lockList ∧ ∀ k item, x.served ≤ k → y.items[k]? = some item →
      Admits t s item.parentSequence := by
  have hkill : ∀ a ∈ bs, arbitration.isFifo = true ∨ ∀ s', a ≠ .kill s' := by
    intro a hmem
    rcases ha with hf | hk
    · exact Or.inl hf
    · right
      rintro s' rfl
      exact hk s' (List.mem_append_right as hmem)
  have hstart := invariant_run (P := Answers) (fun r hr => by cases hr)
    (fun _ _ _ hx hp m => answers_move hp hx m) (ha.imp_right (fun h s' hmem =>
      h s' (List.mem_append_left bs hmem))) hx
  have hheld : Held t s x.served x := by
    refine ⟨hs,hk,?_,?_⟩
    · intro k item hle hi
      have hlt := (List.getElem?_eq_some_iff.mp hi).1
      unfold served at hle
      omega
    · intro r hr hle
      unfold served at hle
      rw [hr] at hle
      simp at hle
  have hend := Transitions.guarded_invariant (step t)
    (P := fun y => ((SequencerInvariant y ∧ y.sqr.arbitration = arbitration) ∧ Answers y) ∧
      Held t s x.served y) ?_
    (Transitions.guarded_and (step t) hkill hy)
    ⟨hstart,hheld⟩
  · exact ⟨hend.2.lock,hend.2.driven⟩
  · rintro u a v ⟨hrel,hok⟩ hs ⟨⟨⟨hu,hm⟩,hq⟩,hd⟩
    rw [← hm] at hok
    obtain ⟨hv,hm'⟩ := invariant_step hu hok hs
    obtain ⟨_,m⟩ := step_cases hs
    exact ⟨⟨⟨hv,hm'.trans hm⟩,answers_move hq hu m⟩,held_move hd hu hq hrel m⟩

theorem not_releases {x : System α} {s s' handle : Nat} {payload : α} {itemPriority : Int32}
    {lockRequest : Bool} {rest : List (SeqOp α)}
    (hb : (x.proc s').body = .item handle payload itemPriority lockRequest :: rest) :
    ¬ Releases t s x (.resume s') := by
  rintro ⟨_,⟨_,h⟩ | ⟨_,h⟩⟩ <;> rw [hb] at h <;> cases h

def lockServed : System Nat :=
  (lockRun [.resume 0,.tryNextItem (fun _ => true) 0,.resume 0,.resume 0,
    .tryPeek (fun _ => true) 0]).get (by decide)

/-- The request of the second sequence came first, but the lock keeps it out. -/
theorem lockServed_exclusive :
    lockHeld.sqr.arbSequenceQ.map SequenceRequest.sequencePtr = [1] ∧
    0 ∈ lockServed.sqr.lockList ∧ ∀ item, lockServed.items[0]? = some item →
      Admits flatTree 0 item.parentSequence := by
  have h := exclusive_run (Or.inl rfl)
    (Option.some_get (show (lockRun []).isSome by decide)).symm
    (show 0 ∈ lockHeld.sqr.lockList by decide) (fun d hd => by
      rcases hd with rfl | hd
      · rfl
      · cases hd)
    (show Transitions.guarded (step flatTree) (fun x a => ¬ Releases flatTree 0 x a) lockHeld
        [.resume 0,.tryNextItem (fun _ => true) 0,.resume 0,.resume 0,
          .tryPeek (fun _ => true) 0] lockServed from
      ⟨not_releases rfl,_,rfl,id,_,rfl,not_releases rfl,_,rfl,not_releases rfl,_,rfl,id,_,rfl,
        rfl⟩)
  exact ⟨by decide,h.1,fun item hi => h.2 0 item (by decide) hi⟩

end System

end MemoryController.Uvm
