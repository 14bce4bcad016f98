import MemoryController.Uvm.Stop
import MemoryController.Uvm.Messages

/-!
The handshake of `try_next_item`, `send_request` and `item_done`: one request is answered at a
time, by the process it was granted to, and the request FIFO never holds two items.
-/

set_option autoImplicit false

namespace MemoryController.Uvm
open UvmSequencer

/-- `s` has been granted a request for an item and has not sent the item yet. -/
def Holds (killed : Nat → Bool) (phase : Nat → SeqPhase) (completed : List Nat) (s : Nat) :
    Prop :=
  killed s = false ∧
    (phase s = .granted ∨ ∃ i, (phase s).grantId = some i ∧ i ∈ completed)

structure Handshake {α : Type} (called : Bool) (fifo : List (SequenceItem α))
    (holds : Nat → Prop) (tryNext : Option SequenceRequest) : Prop where
  idle : called = false → fifo = [] ∧ ∀ s, ¬ holds s
  single : fifo.length ≤ 1
  sent : fifo ≠ [] → ∀ s, ¬ holds s
  unique : ∀ s s', holds s → holds s' → s = s'
  expected : ∀ r, tryNext = some r → ∀ s, holds s → s = r.sequencePtr

namespace Handshake

variable {α : Type} {called : Bool} {fifo : List (SequenceItem α)} {holds holds' : Nat → Prop}
  {tryNext : Option SequenceRequest}

theorem congr (h : Handshake called fifo holds tryNext)
    (hh : ∀ s, holds' s ↔ holds s) : Handshake called fifo holds' tryNext := by
  have he : holds' = holds := funext (fun s => propext (hh s))
  rw [he]
  exact h

/-- The death of a process, or the exit of a dead one. -/
theorem fewer (h : Handshake called fifo holds tryNext) (hh : ∀ s, holds' s → holds s) :
    Handshake called fifo holds' tryNext where
  idle hc := ⟨(h.idle hc).1,fun s hs => (h.idle hc).2 s (hh s hs)⟩
  single := h.single
  sent hf s hs := h.sent hf s (hh s hs)
  unique a b ha hb := h.unique a b (hh a ha) (hh b hb)
  expected r hr s hs := h.expected r hr s (hh s hs)

/-- A grant to the only process that is to answer it. -/
theorem select {r : SequenceRequest} (hh : ∀ s, holds s ↔ s = r.sequencePtr) :
    Handshake true ([] : List (SequenceItem α)) holds (some r) where
  idle hc := by cases hc
  single := Nat.zero_le 1
  sent hf := absurd rfl hf
  unique a b ha hb := ((hh a).mp ha).trans ((hh b).mp hb).symm
  expected r' hr' := by
    cases hr'
    exact fun s hs => (hh s).mp hs

theorem fifo_empty (h : Handshake called fifo holds tryNext) {s : Nat} (hs : holds s) :
    fifo = [] := by
  by_cases hf : fifo = []
  · exact hf
  · exact absurd hs (h.sent hf s)

theorem send (h : Handshake called fifo holds tryNext) {s : Nat} (hs : holds s)
    (item : SequenceItem α) (hh : ∀ s', holds' s' ↔ holds s' ∧ s' ≠ s) :
    Handshake called [item] holds' tryNext where
  idle hc := absurd hs ((h.idle hc).2 s)
  single := Nat.le_refl 1
  sent _ s' hs' := ((hh s').mp hs').2 (h.unique s' s ((hh s').mp hs').1 hs)
  unique a b ha hb := h.unique a b ((hh a).mp ha).1 ((hh b).mp hb).1
  expected r hr s' hs' := h.expected r hr s' ((hh s').mp hs').1

/-- `try_next_item` returns without an item. -/
theorem giveUp (h : Handshake called fifo holds tryNext) :
    Handshake called fifo holds none :=
  ⟨h.idle,h.single,h.sent,h.unique,fun r hr => by cases hr⟩

theorem quiet (hh : ∀ s, ¬ holds s) (called : Bool) (tryNext : Option SequenceRequest) :
    Handshake called ([] : List (SequenceItem α)) holds tryNext where
  idle _ := ⟨rfl,hh⟩
  single := Nat.zero_le 1
  sent hf := absurd rfl hf
  unique a _ ha := absurd ha (hh a)
  expected _ _ s hs := absurd hs (hh s)

end Handshake

section Holds

variable {killed : Nat → Bool} {phase : Nat → SeqPhase} {completed : List Nat} {next : Nat}
  {arb : List SequenceRequest}

theorem holds_update {s : Nat} {new : SeqPhase} (s' : Nat) :
    Holds killed (Function.update phase s new) completed s' ↔
      s' ≠ s ∧ Holds killed phase completed s' ∨ s' = s ∧ killed s = false ∧
        (new = .granted ∨ ∃ i, new.grantId = some i ∧ i ∈ completed) := by
  unfold Holds
  by_cases he : s' = s
  · simp [he]
  · simp [he]

/-- Granting a lock gives no one a request for an item. -/
theorem holds_lock (h : Requests arb completed next phase) {r : SequenceRequest}
    (hr : r ∈ arb) (hl : r.request = .lock) (s : Nat) :
    Holds killed phase (r.requestId :: completed) s ↔ Holds killed phase completed s := by
  unfold Holds
  refine and_congr_right (fun _ => or_congr_right ?_)
  constructor
  · rintro ⟨i,hi,hm⟩
    rcases List.mem_cons.mp hm with rfl | hm
    · have ho := (h.owner r hr s (SeqPhase.waitId_of_grantId hi)).2 hi
      rw [hl] at ho
      cases ho
    · exact ⟨i,hi,hm⟩
  · rintro ⟨i,hi,hm⟩
    exact ⟨i,hi,List.mem_cons_of_mem _ hm⟩

theorem holds_grant (h : Requests arb completed next phase) {r : SequenceRequest}
    (hr : r ∈ arb) (hq : r.request = .req) (hk : killed r.sequencePtr = false) (s : Nat) :
    Holds killed phase (r.requestId :: completed) s ↔
      Holds killed phase completed s ∨ s = r.sequencePtr := by
  unfold Holds
  constructor
  · rintro ⟨hs,hp | ⟨i,hi,hm⟩⟩
    · exact Or.inl ⟨hs,Or.inl hp⟩
    · rcases List.mem_cons.mp hm with rfl | hm
      · exact Or.inr (h.owner r hr s (SeqPhase.waitId_of_grantId hi)).1
      · exact Or.inl ⟨hs,Or.inr ⟨i,hi,hm⟩⟩
  · rintro (⟨hs,hp | ⟨i,hi,hm⟩⟩ | rfl)
    · exact ⟨hs,Or.inl hp⟩
    · exact ⟨hs,Or.inr ⟨i,hi,List.mem_cons_of_mem _ hm⟩⟩
    · exact ⟨hk,Or.inr ⟨_,h.req r hr hq,List.mem_cons_self⟩⟩

/-- Forgetting an identifier that the process does not wait for. -/
theorem holds_forget {s i : Nat} (hs : (phase s).grantId ≠ some i) :
    Holds killed phase (completed.filter (· ≠ i)) s ↔ Holds killed phase completed s := by
  unfold Holds
  refine and_congr_right (fun _ => or_congr_right ?_)
  constructor
  · rintro ⟨j,hj,hm⟩
    exact ⟨j,hj,(List.mem_filter.mp hm).1⟩
  · rintro ⟨j,hj,hm⟩
    refine ⟨j,hj,List.mem_filter.mpr ⟨hm,?_⟩⟩
    rw [decide_eq_true_iff]
    rintro rfl
    exact hs hj

end Holds

namespace System

variable {α : Type} {t : SequenceTree}

def HoldsGrant (x : System α) (s : Nat) : Prop := Holds x.killed x.phase x.sqr.arbCompleted s

def SingleGrant (x : System α) : Prop :=
  Handshake x.sqr.getNextItemCalled x.sqr.reqFifo x.HoldsGrant x.tryNext

theorem holds_settles {x : System α} {q q' : UvmSequencer α} {gone : Nat → Prop}
    (h : Requests q.arbSequenceQ q.arbCompleted q.requestId x.phase)
    (hs : Settles t gone q q') (s : Nat) :
    Holds x.killed x.phase q'.arbCompleted s ↔ Holds x.killed x.phase q.arbCompleted s := by
  obtain ⟨p,ht,rfl | ⟨i,r,hr,hl,_,rfl⟩⟩ := hs
  · have hc : q'.arbCompleted = q.arbCompleted := by rw [ht.rest]
    rw [hc]
  · have hc : p.arbCompleted = q.arbCompleted := by rw [ht.rest]
    rw [← hc]
    exact holds_lock (Requested.trimmed h ht) (List.mem_of_getElem? hr) hl s

/-- Settling the locks is no part of the handshake. -/
theorem SingleGrant.settles {x : System α} {q q' : UvmSequencer α} {gone : Nat → Prop}
    {tryNext : Option SequenceRequest}
    (h : Handshake q.getNextItemCalled q.reqFifo (Holds x.killed x.phase q.arbCompleted)
      tryNext)
    (hr : Requests q.arbSequenceQ q.arbCompleted q.requestId x.phase)
    (hs : Settles t gone q q') :
    Handshake q'.getNextItemCalled q'.reqFifo (Holds x.killed x.phase q'.arbCompleted)
      tryNext := by
  have hc : q'.getNextItemCalled = q.getNextItemCalled := by rw [hs.rest]
  have hf : q'.reqFifo = q.reqFifo := by rw [hs.rest]
  rw [hc,hf]
  exact h.congr (fun s => holds_settles hr hs s)

/-- A process that neither holds a grant before nor after its phase changes. -/
theorem holds_rephase {killed : Nat → Bool} {phase : Nat → SeqPhase} {completed : List Nat}
    {s : Nat} {new : SeqPhase} (hs : ¬ Holds killed phase completed s)
    (hn : new ≠ .granted ∧ ∀ i, new.grantId = some i → i ∉ completed) (s' : Nat) :
    Holds killed (Function.update phase s new) completed s' ↔
      Holds killed phase completed s' := by
  rw [holds_update]
  constructor
  · rintro (⟨_,h⟩ | ⟨_,_,h | ⟨i,hi,hm⟩⟩)
    · exact h
    · exact absurd h hn.1
    · exact absurd hm (hn.2 i hi)
  · intro h
    left
    refine ⟨?_,h⟩
    rintro rfl
    exact hs h

theorem not_holds {x : System α} {s : Nat} (hp : x.phase s ≠ .granted)
    (hg : (x.phase s).grantId = none) (completed : List Nat) :
    ¬ Holds x.killed x.phase completed s := by
  rintro ⟨_,h | ⟨i,hi,_⟩⟩
  · exact hp h
  · rw [hg] at hi
    cases hi

/-- The moves of a process that has nothing to do with grants. -/
theorem SingleGrant.rephase {x y : System α} {s : Nat} {new : SeqPhase}
    (h : Handshake y.sqr.getNextItemCalled y.sqr.reqFifo
      (Holds x.killed x.phase y.sqr.arbCompleted) x.tryNext)
    (hs : ¬ Holds x.killed x.phase y.sqr.arbCompleted s)
    (hn : new ≠ .granted ∧ ∀ i, new.grantId = some i → i ∉ y.sqr.arbCompleted)
    (hp : y.phase = Function.update x.phase s new) (hk : y.killed = x.killed)
    (ht : y.tryNext = x.tryNext) : SingleGrant y := by
  unfold SingleGrant HoldsGrant
  rw [hp,hk,ht]
  exact h.congr (holds_rephase hs hn)

/-- Requests of dead processes can mislead the arbiter, but not in FIFO mode. -/
def SafeMode (x : System α) : Prop :=
  x.sqr.arbitration.isFifo = true ∨ ∀ r ∈ x.sqr.arbSequenceQ, x.killed r.sequencePtr = false

theorem singleGrant_arbitrate {x y : System α} (hq : Requested x) (hm : SafeMode x)
    (hf : x.sqr.reqFifo = []) (hh : ∀ s, ¬ x.HoldsGrant s) {relevant : Nat → Bool} {draw : Nat}
    (ha : arbitrate t x relevant draw = some y) : SingleGrant y := by
  obtain ⟨p,hs,ht⟩ := chooseNextRequest_settles x.sqr (x.sequences t) relevant draw
  obtain ⟨q,he,hc⟩ := arbitrate_cases ha
  rw [he] at ht
  have hr : Requests q.arbSequenceQ q.arbCompleted q.requestId x.phase :=
    Requested.trimmed (Requested.settles hq hs) ht
  have hfq : q.reqFifo = [] := by
    rw [ht.rest]
    change p.reqFifo = []
    rw [hs.rest]
    exact hf
  have hcq : q.arbCompleted = p.arbCompleted := by rw [ht.rest]
  have hhq : ∀ s, ¬ Holds x.killed x.phase q.arbCompleted s := by
    intro s hs'
    rw [hcq,holds_settles hq hs] at hs'
    exact hh s hs'
  rcases hc with ⟨_,rfl⟩ | ⟨i,r,hi,hget,rfl⟩
  · have hy := Handshake.quiet (α := α) hhq q.getNextItemCalled none
    rw [← hfq] at hy
    exact hy
  · have hmode : x.sqr.arbitration.isFifo = true ∨ x.sqr.AllAlive (x.sequences t) := by
      rcases hm with hm | hm
      · exact Or.inl hm
      · exact Or.inr hm
    obtain ⟨r',hget',hreq,hk,_,_⟩ := chosen_eligible hmode (Prod.ext he hi)
    rw [hget] at hget'
    cases hget'
    have hy : Handshake true ([] : List (SequenceItem α))
        (Holds x.killed x.phase (r.requestId :: q.arbCompleted)) (some r) := by
      apply Handshake.select
      intro s
      have hg : Holds x.killed x.phase (r.requestId :: q.arbCompleted) s ↔ _ :=
        holds_grant hr (List.mem_of_getElem? hget) hreq hk s
      rw [hg]
      constructor
      · rintro (hs' | hs')
        · exact absurd hs' (hhq s)
        · exact hs'
      · exact Or.inr
    rw [← hfq] at hy
    exact hy

theorem singleGrant_exit {x : System α} (h : SingleGrant x) {s : Nat} (hn : ¬ x.HoldsGrant s) :
    SingleGrant (exitSequence t x s) := by
  have hrest := (trimmed_exitQueues t x s).rest
  have hc : (exitSequence t x s).sqr.arbCompleted = x.sqr.arbCompleted := by
    change (exitQueues t x s).arbCompleted = _
    rw [hrest]
  have hf : (exitSequence t x s).sqr.reqFifo = x.sqr.reqFifo := by
    change (exitQueues t x s).reqFifo = _
    rw [hrest]
  have hg : (exitSequence t x s).sqr.getNextItemCalled = x.sqr.getNextItemCalled := by
    change (exitQueues t x s).getNextItemCalled = _
    rw [hrest]
  refine SingleGrant.rephase (x := x) (s := s) ?_ ?_ ⟨?_,?_⟩ (phase_setPhase x s .exited)
    (killed_setPhase x s .exited) rfl
  · rw [hc,hf,hg]
    exact h
  · rw [hc]
    exact hn
  · intro he
    cases he
  · intro i hi
    cases hi

/-- A process that has waited for a grant to an item holds it as long as it waits, and it
holds it on once it has seen it; a process that has waited for a lock holds none. -/
theorem singleGrant_arbitrated {x : System α} (h : SingleGrant x) (hq : Requested x)
    {type : SeqReqType} {s i : Nat} {n : Int} (hk : x.killed s = false)
    (hp : x.phase s = .waitArbitration type i n) :
    SingleGrant (x.waitForArbitration type s i) := by
  have hw : (x.phase s).waitId = some i := by rw [hp]; rfl
  rcases waitForArbitration_cases x type s i with ⟨hc,he⟩ | ⟨hc,he⟩
  · have hh : ∀ s', Holds x.killed (Function.update x.phase s (passedPhase type))
        (x.sqr.arbCompleted.filter (· ≠ i)) s' ↔ x.HoldsGrant s' := by
      intro s'
      rw [holds_update]
      by_cases hs : s' = s
      · rw [hs]
        cases type <;> simp [HoldsGrant,Holds,hp,hk,hc,SeqPhase.grantId,passedPhase]
      · have hne : (x.phase s').grantId ≠ some i := by
          intro hg'
          exact hs ((hq.waiting s i hw).2 s' (SeqPhase.waitId_of_grantId hg'))
        simp only [hs,not_false_eq_true,ne_eq,true_and,false_and,or_false]
        exact holds_forget hne
    rw [he]
    unfold SingleGrant HoldsGrant
    rw [phase_pass,killed_pass]
    exact Handshake.congr h hh
  · rw [he]
    refine SingleGrant.rephase (x := x) h ?_ ⟨SeqPhase.noConfusion,?_⟩ (phase_setPhase ..)
      (killed_setPhase ..) rfl
    · rintro ⟨_,hh | ⟨j,hj,hm⟩⟩
      · rw [hp] at hh
        cases hh
      · have hj := SeqPhase.waitId_of_grantId hj
        rw [hw] at hj
        cases hj
        exact hc hm
    · intro j hj
      cases SeqPhase.waitId_of_grantId hj
      exact hc

/-- The wait for a request that has just been queued. A lock may be granted by then, an item
cannot. -/
theorem singleGrant_queued {x : System α} (h : SingleGrant x) {type : SeqReqType} {s i : Nat}
    (hp : x.phase s = .ready) (hi : ∀ s', (x.phase s').grantId ≠ some i)
    (hc : type = .req → i ∉ x.sqr.arbCompleted) :
    SingleGrant (x.waitForArbitration type s i) := by
  have hn : ∀ completed, ¬ Holds x.killed x.phase completed s :=
    not_holds (by rw [hp]; exact SeqPhase.noConfusion) (by rw [hp]; rfl)
  rcases waitForArbitration_cases x type s i with ⟨hm,he⟩ | ⟨hm,he⟩
  · rw [he]
    cases type with
    | req => exact absurd hm (hc rfl)
    | lock =>
      refine SingleGrant.rephase (x := x) ?_ (hn _) ⟨SeqPhase.noConfusion,fun j hj => by cases hj⟩
        (phase_pass x .lock s i) (killed_pass x .lock s i) rfl
      exact Handshake.congr h (fun s' => holds_forget (hi s'))
  · rw [he]
    refine SingleGrant.rephase (x := x) h (hn _) ⟨SeqPhase.noConfusion,?_⟩ (phase_setPhase ..)
      (killed_setPhase ..) rfl
    intro j hj
    cases SeqPhase.waitId_of_grantId hj
    exact hm

/-- `m_wait_for_grant_semaphore` counts the grant that the process has not used yet. -/
def SemaphoreOk (p : SeqProcess α) : Prop :=
  p.phase ≠ .exited → p.waitForGrantSemaphore = if p.phase = .granted then 1 else 0

def Semaphores (x : System α) : Prop := ∀ s, SemaphoreOk (x.proc s)

theorem Semaphores.update {x y : System α} (h : Semaphores x) {s : Nat} {p : SeqProcess α}
    (hp : SemaphoreOk p) (hy : y.proc = Function.update x.proc s p) : Semaphores y := by
  unfold Semaphores
  rw [hy]
  exact (Function.forall_update_iff x.proc (fun _ => SemaphoreOk)).mpr ⟨hp,fun s' _ => h s'⟩

/-- A process that does not hold a grant may go where it does not get one. -/
theorem SemaphoreOk.rephase {p : SeqProcess α} (h : SemaphoreOk p) (he : p.phase ≠ .exited)
    (hg : p.phase ≠ .granted) {new : SeqPhase} (hn : new ≠ .granted)
    (body : List (SeqOp α)) : SemaphoreOk { p with phase := new, body := body } := by
  intro _
  have hz := h he
  rw [if_neg hg] at hz
  rw [if_neg hn]
  exact hz

theorem semaphores_exit {x : System α} (h : Semaphores x) (s : Nat) :
    Semaphores (exitSequence t x s) :=
  h.update (p := { x.proc s with phase := .exited }) (fun he => absurd rfl he) rfl

theorem semaphores_kill {x : System α} (h : Semaphores x) (s : Nat) : Semaphores (x.kill s) :=
  h.update (p := { x.proc s with killed := true }) (h s) rfl

theorem semaphores_stopLoop {turns : Nat} {x : System α} (h : Semaphores x) :
    Semaphores (stopLoop t turns x) := by
  induction turns generalizing x with
  | zero => exact h
  | succ turns ih =>
    unfold stopLoop
    split
    · exact ih (semaphores_exit (semaphores_kill h _) _)
    · exact h

theorem semaphores_waitForArbitration {x : System α} (h : Semaphores x) {s : Nat}
    (he : (x.proc s).phase ≠ .exited) (hg : (x.proc s).phase ≠ .granted) (type : SeqReqType)
    (i : Nat) : Semaphores (x.waitForArbitration type s i) := by
  rcases waitForArbitration_cases x type s i with ⟨_,ha⟩ | ⟨_,ha⟩ <;> rw [ha]
  · refine h.update (p := (x.proc s).passArbitration type) ?_ rfl
    cases type with
    | req =>
      intro _
      have hz := h s he
      rw [if_neg hg] at hz
      simp [SeqProcess.passArbitration,hz]
    | lock => exact (h s).rephase he hg SeqPhase.noConfusion (x.proc s).body.tail
  · exact h.update ((h s).rephase he hg SeqPhase.noConfusion (x.proc s).body) rfl

theorem semaphores_move {x y : System α} {a : Action} (h : Semaphores x)
    (m : Move t x a y) : Semaphores y := by
  cases m with
  | @start s hk hp =>
    exact h.update ((h s).rephase (by simp [hp]) (by simp [hp])
      SeqPhase.noConfusion (x.proc s).body) rfl
  | finish hk hp hb => exact semaphores_exit h _
  | @request s handle payload itemPriority lockRequest rest hk hp hb =>
    have hq : Semaphores { x with
        sqr := (x.sqr.waitForGrant s itemPriority lockRequest).1 } := h
    exact semaphores_waitForArbitration hq (by simp [hp]) (by simp [hp]) _ _
  | @lock s lock rest hk hp hb =>
    have hq : Semaphores { x with sqr := (x.sqr.lockReq (x.sequences t) s lock).1 } := h
    exact semaphores_waitForArbitration hq (by simp [hp]) (by simp [hp]) _ _
  | @unlock s rest hk hp hb =>
    exact h.update ((h s).rephase (by simp [hp]) (by simp [hp])
      SeqPhase.noConfusion (x.proc s).body.tail) rfl
  | arbitrated hk hp hn =>
    exact semaphores_waitForArbitration h (by simp [hp]) (by simp [hp]) _ _
  | @send s handle payload itemPriority lockRequest rest hk hp hb =>
    refine h.update (s := s)
      (p := { (x.sqr.sendRequest (x.sequences t) (x.proc s) s handle payload).2 with
        phase := _, body := _ }) ?_ rfl
    intro _
    have hw := h s (by simp [hp])
    rw [if_pos hp] at hw
    change (x.proc s).waitForGrantSemaphore - 1 = 0
    omega
  | @done s i hk hp hi =>
    exact h.update ((h s).rephase (by simp [hp]) (by simp [hp])
      SeqPhase.noConfusion (x.proc s).body) rfl
  | kill hr => exact semaphores_kill h _
  | cleanup hk hr => exact semaphores_exit h _
  | stop => exact semaphores_stopLoop h
  | twice hn hg => exact h
  | select hn hg ha =>
    obtain ⟨q,_,⟨_,rfl⟩ | ⟨i,r,_,_,rfl⟩⟩ := arbitrate_cases ha <;> exact h
  | item hn hf => exact h
  | again hn hf hk ha =>
    obtain ⟨q,_,⟨_,rfl⟩ | ⟨i,r,_,_,rfl⟩⟩ := arbitrate_cases ha <;> exact h
  | blocked hn hf hk => exact h

theorem singleGrant_start {x : System α} (h : SingleGrant x) {s : Nat}
    (hp : x.phase s = .created) :
    SingleGrant ({ x with sqr := (x.sqr.registerSequence s).1 }.setPhase s .ready) := by
  have hn := not_holds (x := x) (s := s) (by rw [hp]; exact SeqPhase.noConfusion)
    (by rw [hp]; rfl) x.sqr.arbCompleted
  unfold registerSequence
  split <;> exact SingleGrant.rephase (x := x) h hn ⟨SeqPhase.noConfusion,fun i hi => by cases hi⟩
    (phase_setPhase ..) (killed_setPhase ..) rfl

theorem singleGrant_waitForGrant {x : System α} (h : SingleGrant x) (hq : Requested x) {s i : Nat}
    (hp : x.phase s = .ready) (hi : x.sqr.sqrSeqIds s = some i) (itemPriority : Int32) :
    SingleGrant ({ x with sqr := (x.sqr.waitForGrant s itemPriority false).1 }.waitForArbitration
      .req s (x.sqr.waitForGrant s itemPriority false).2) := by
  rw [waitForGrant_plain hi]
  exact singleGrant_queued (x := { x with
      sqr := (x.sqr.pushBack (x.sqr.request .req itemPriority s i)).updateLists }) h hp
    (Requested.fresh_grant hq) (fun _ hc => Nat.lt_irrefl _ (hq.completed _ hc).1)

theorem singleGrant_lock {x : System α} (h : SingleGrant x) (hq : Requested x) {s i : Nat}
    (hp : x.phase s = .ready) (hi : x.sqr.sqrSeqIds s = some i) (lock : Bool) :
    SingleGrant ({ x with sqr := (x.sqr.lockReq (x.sequences t) s lock).1 }.waitForArbitration
      .lock s (x.sqr.lockReq (x.sequences t) s lock).2) := by
  have hlock : SingleGrant { x with sqr := (x.sqr.lockReq (x.sequences t) s lock).1 } := by
    rw [lockReq_eq hi]
    cases lock with
    | true =>
      exact SingleGrant.settles (q := x.sqr.pushBack (x.sqr.request .lock 0 s i)) h
        (requested_push hq (List.perm_append_singleton _ _) rfl rfl)
        (settles_grantQueuedLocks _ (x.sequences t))
    | false =>
      exact SingleGrant.settles
        (q := (x.sqr.pushFront (x.sqr.request .lock 0 s i)).updateLists) h
        (requested_push hq (List.Perm.refl _) rfl rfl)
        (settles_grantQueuedLocks _ (x.sequences t))
  have hid : (x.sqr.lockReq (x.sequences t) s lock).2 = x.sqr.requestId := by
    rw [lockReq_eq hi]
  rw [hid]
  exact singleGrant_queued hlock hp (Requested.fresh_grant hq) (fun ht => by cases ht)

theorem singleGrant_unlock {x : System α} (h : SingleGrant x) (hq : Requested x) {s : Nat}
    (hp : x.phase s = .ready) :
    SingleGrant ({ x with sqr := x.sqr.unlockReq (x.sequences t) s }.setProc s
      (x.proc s).advance) := by
  have hu : SingleGrant { x with sqr := x.sqr.unlockReq (x.sequences t) s } := by
    have hs := SingleGrant.settles (q := { x.sqr with lockList := x.sqr.lockList.erase s }) h hq
      (settles_grantQueuedLocks _ (x.sequences t))
    unfold unlockReq
    split
    · exact hs
    · exact h
  exact SingleGrant.rephase (x := x) hu
    (not_holds (by rw [hp]; exact SeqPhase.noConfusion) (by rw [hp]; rfl) _)
    ⟨SeqPhase.noConfusion,fun j hj => by cases hj⟩ (phase_advance ..) (killed_advance ..) rfl

/-- The holder of the grant puts its item into the empty FIFO, and holds it no more. -/
theorem singleGrant_finishItem {x : System α} (h : SingleGrant x) (hq : Requested x)
    (hw : Semaphores x) {s : Nat} (hk : x.killed s = false) (hp : x.phase s = .granted)
    (handle : Nat) (payload : α) : SingleGrant (finishItem t x s handle payload) := by
  have hs : x.HoldsGrant s := ⟨hk,Or.inl hp⟩
  have hsem := hw s (by rw [← phase,hp]; exact SeqPhase.noConfusion)
  rw [← phase,if_pos hp] at hsem
  have he := sendRequest_of_granted (Handshake.fifo_empty h hs) (x.sequences t) hsem s handle
    payload
  have hk' := killed_finishItem (t := t) x s handle payload
  have hphase := phase_finishItem (t := t) x s handle payload
  have hh : ∀ s', Holds x.killed (finishItem t x s handle payload).phase x.sqr.arbCompleted s' ↔
      x.HoldsGrant s' ∧ s' ≠ s := by
    intro s'
    rw [hphase,holds_update]
    constructor
    · rintro (⟨hne,hh⟩ | ⟨_,_,hh | ⟨i,hi,_⟩⟩)
      · exact ⟨hh,hne⟩
      · cases hh
      · cases hi
    · rintro ⟨hh,hne⟩
      exact Or.inl ⟨hne,hh⟩
  have hreq : Requests x.sqr.arbSequenceQ x.sqr.arbCompleted x.sqr.requestId
      (finishItem t x s handle payload).phase := by
    rw [hphase]
    exact requested_leave hq rfl (Requested.no_request hq (by rw [hp]; rfl))
  have hsend := Handshake.send h hs (x.sqr.sentItem (x.proc s) s handle payload) hh
  rw [← hk'] at hsend
  have hset := SingleGrant.settles (x := finishItem t x s handle payload) (q := { x.sqr with
      reqFifo := [x.sqr.sentItem (x.proc s) s handle payload]
      numReqsSent := x.sqr.numReqsSent+1 }) hsend hreq
    (settles_grantQueuedLocks _ (x.sequences t))
  have hsqr : (finishItem t x s handle payload).sqr =
      (x.sqr.sendRequest (x.sequences t) (x.proc s) s handle payload).1.waitForItemDone := rfl
  unfold SingleGrant HoldsGrant
  rw [hsqr,he]
  exact hset

theorem holds_kill {x : System α} (s s' : Nat) :
    (x.kill s).HoldsGrant s' → x.HoldsGrant s' := by
  unfold HoldsGrant Holds
  rw [phase_kill,killed_kill]
  rintro ⟨hk,hh⟩
  by_cases he : s' = s
  · rw [he,Function.update_self] at hk
    cases hk
  · rw [Function.update_of_ne he] at hk
    exact ⟨hk,hh⟩

/-- After `stop_sequences` there is no process left that could answer. -/
theorem singleGrant_stop {x : System α} (hr : Registered x) :
    SingleGrant (stopSequences t x) := by
  have hi := stopSequences_idle (t := t) hr
  unfold SingleGrant
  rw [hi.fifo]
  apply Handshake.quiet
  rintro s ⟨hk,hh⟩
  have hs := hi.stopped s hk
  rcases hh with hh | ⟨i,hi,_⟩
  · rw [hh] at hs
    cases hs
  · cases hp : (stopSequences t x).phase s with
    | waitArbitration type j n =>
      rw [hp] at hs
      cases hs
    | _ =>
      rw [hp] at hi
      cases hi

theorem singleGrant_item {x : System α} (h : SingleGrant x) (hq : Requested x)
    {item : SequenceItem α} {rest : List (SequenceItem α)}
    (hf : x.sqr.reqFifo = item :: rest) :
    SingleGrant ({ x with sqr := x.sqr.itemDone (x.sequences t) }.returnItem (some item)) := by
  have hrest : rest = [] := by
    have hs := Handshake.single h
    rw [hf,List.length_cons] at hs
    exact List.eq_nil_of_length_eq_zero (by omega)
  have hn : ∀ s, ¬ x.HoldsGrant s := by
    apply Handshake.sent h
    rw [hf]
    exact List.cons_ne_nil item rest
  rw [itemDone_eq hf,hrest]
  exact SingleGrant.settles (x := x) (q := { x.sqr with
    sequenceItemRequested := false
    getNextItemCalled := false
    reqFifo := []
    waitForItemSequenceId := item.sequenceId
    waitForItemTransactionId := item.transactionId })
    (Handshake.quiet hn false none) hq (settles_grantQueuedLocks _ (x.sequences t))

/-- The process that was to answer has died, so nobody holds its grant any more. -/
theorem singleGrant_again {x y : System α} (h : SingleGrant x) (hq : Requested x)
    (hm : SafeMode x) {r : SequenceRequest} (hn : x.tryNext = some r) (hf : x.sqr.reqFifo = [])
    (hk : x.killed r.sequencePtr = true) {relevant : Nat → Bool} {draw : Nat}
    (ha : arbitrate t (x.forget r.requestId) relevant draw = some y) : SingleGrant y := by
  have hnone : ∀ s, ¬ x.HoldsGrant s := by
    intro s hs
    have he := Handshake.expected h r hn s hs
    have hd := hs.1
    rw [he,hk] at hd
    cases hd
  refine singleGrant_arbitrate (x := x.forget r.requestId) (requested_forget hq _) hm hf ?_ ha
  rintro s ⟨hd,hh⟩
  rcases hh with hh | ⟨i,hi,hmem⟩
  · exact hnone s ⟨hd,Or.inl hh⟩
  · exact hnone s ⟨hd,Or.inr ⟨i,hi,(List.mem_filter.mp hmem).1⟩⟩

theorem singleGrant_move {x y : System α} {a : Action} (h : SingleGrant x) (hr : Registered x)
    (hq : Requested x) (hw : Semaphores x) (hm : SafeMode x) (m : Move t x a y) :
    SingleGrant y := by
  cases m with
  | start hk hp => exact singleGrant_start h hp
  | @finish s hk hp hb =>
    refine singleGrant_exit h (not_holds ?_ ?_ _)
    · rw [phase,hp]
      exact SeqPhase.noConfusion
    · rw [phase,hp]
      rfl
  | @request s handle payload itemPriority lockRequest rest hk hp hb =>
    obtain ⟨i,hi⟩ := hr.ident s (by rw [phase,hp]; rfl)
    cases lockRequest with
    | false => exact singleGrant_waitForGrant h hq hp hi itemPriority
    | true =>
      rw [waitForGrant_lock hi]
      have hl : Requested { x with sqr := x.sqr.pushBack (x.sqr.request .lock 0 s i) } :=
        requested_push hq (List.perm_append_singleton _ _) rfl rfl
      exact singleGrant_waitForGrant
        (x := { x with sqr := x.sqr.pushBack (x.sqr.request .lock 0 s i) }) h hl hp hi
        itemPriority
  | @lock s lock rest hk hp hb =>
    obtain ⟨i,hi⟩ := hr.ident s (by rw [phase,hp]; rfl)
    exact singleGrant_lock h hq hp hi lock
  | unlock hk hp hb => exact singleGrant_unlock h hq hp
  | arbitrated hk hp hn => exact singleGrant_arbitrated h hq hk hp
  | send hk hp hb => exact singleGrant_finishItem h hq hw hk hp _ _
  | @done s i hk hp hi =>
    exact SingleGrant.rephase (x := x) h
      (not_holds (by rw [phase,hp]; exact SeqPhase.noConfusion) (by rw [phase,hp]; rfl) _)
      ⟨SeqPhase.noConfusion,fun j hj => by cases hj⟩ (phase_setPhase ..)
      (killed_setPhase ..) rfl
  | kill hrun => exact Handshake.fewer h (holds_kill _)
  | @cleanup s hk hrun =>
    refine singleGrant_exit h ?_
    rintro ⟨hd,_⟩
    rw [killed,hk] at hd
    cases hd
  | stop => exact singleGrant_stop hr
  | twice hn hg => exact Handshake.giveUp h
  | select hn hg ha =>
    obtain ⟨hf,hh⟩ := Handshake.idle h hg
    exact singleGrant_arbitrate hq hm hf hh ha
  | item hn hf => exact singleGrant_item h hq hf
  | again hn hf hk ha => exact singleGrant_again h hq hm hn hf hk ha
  | blocked hn hf hk => exact Handshake.giveUp h

end System

end MemoryController.Uvm
