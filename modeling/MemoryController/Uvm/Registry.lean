import MemoryController.Uvm.Processes

/-!
Sequence identifiers: a running sequence has one of its own, and only registered sequences
have requests in the queue or hold locks.
-/

set_option autoImplicit false

namespace MemoryController.Uvm
open UvmSequencer

structure Registry (arb : List SequenceRequest) (locks : List Nat)
    (reg ids : Nat → Option Nat) (next : Nat) (phase : Nat → SeqPhase)
    (killed : Nat → Bool) : Prop where
  pos : 1 ≤ next
  bound : ∀ s i, ids s = some i → 1 ≤ i ∧ i < next
  inj : ∀ s s' i, ids s = some i → ids s' = some i → s = s'
  owner : ∀ i s, reg i = some s → ids s = some i
  ident : ∀ s, (phase s).running = true → ∃ i, ids s = some i
  live : ∀ s i, (phase s).running = true → killed s = false → ids s = some i →
    reg i = some s
  queued : ∀ r ∈ arb, ids r.sequencePtr = some r.sequenceId ∧
    reg r.sequenceId = some r.sequencePtr
  locked : ∀ l ∈ locks, ∃ i, ids l = some i ∧ reg i = some l
  idle : ∀ s, (phase s).running = false → ids s = none

namespace Registry

variable {α : Type} {q q' : UvmSequencer α} {t : SequenceTree} {gone : Nat → Prop}
  {arb : List SequenceRequest} {locks : List Nat} {reg ids : Nat → Option Nat} {next : Nat}
  {phase phase' : Nat → SeqPhase} {killed killed' : Nat → Bool}

theorem phases (h : Registry arb locks reg ids next phase killed)
    (hr : ∀ s, (phase' s).running = (phase s).running)
    (hk : ∀ s, killed' s = false → killed s = false) :
    Registry arb locks reg ids next phase' killed' :=
  ⟨h.pos,h.bound,h.inj,h.owner,fun s hs => h.ident s ((hr s).symm.trans hs),
    fun s i hs hs' => h.live s i ((hr s).symm.trans hs) (hk s hs'),h.queued,h.locked,
    fun s hs => h.idle s ((hr s).symm.trans hs)⟩

/-- Taking dead sequences out keeps the registry, as it unregisters only these. -/
theorem trimmed (h : Registry q.arbSequenceQ q.lockList q.regSequences q.sqrSeqIds next
      phase killed) (ht : Trimmed t gone q q') (hg : ∀ s, gone s → killed s = true) :
    Registry q'.arbSequenceQ q'.lockList q'.regSequences q'.sqrSeqIds next phase killed := by
  rw [ht.sqrSeqIds]
  refine ⟨h.pos,h.bound,h.inj,?_,h.ident,?_,?_,?_,h.idle⟩
  · intro i s hr
    rcases ht.registered i with he | ⟨he,_⟩
    · exact h.owner i s (he.symm.trans hr)
    · rw [hr] at he
      cases he
  · intro s i hs hk hi
    have hr := h.live s i hs hk hi
    rcases ht.registered i with he | ⟨_,s',hs',hi',_⟩
    · exact he.trans hr
    · rw [h.inj s s' i hi hi',hg s' hs'] at hk
      cases hk
  · intro r hr
    obtain ⟨hi,hq⟩ := h.queued r (ht.arb.mem hr)
    refine ⟨hi,?_⟩
    rcases ht.registered r.sequenceId with he | ⟨_,_,_,_,hn,_⟩
    · exact he.trans hq
    · exact absurd rfl (hn r hr)
  · intro l hl
    obtain ⟨i,hi,hr⟩ := h.locked l (ht.locks.mem hl)
    refine ⟨i,hi,?_⟩
    rcases ht.registered i with he | ⟨_,s',_,hi',_,hn⟩
    · exact he.trans hr
    · rw [h.inj s' l i hi' hi] at hn
      exact absurd hl hn

theorem eraseIdx (h : Registry arb locks reg ids next phase killed) (i : Nat) :
    Registry (arb.eraseIdx i) locks reg ids next phase killed :=
  ⟨h.pos,h.bound,h.inj,h.owner,h.ident,h.live,
    fun r hr => h.queued r (List.mem_of_mem_eraseIdx hr),h.locked,h.idle⟩

theorem settles (h : Registry q.arbSequenceQ q.lockList q.regSequences q.sqrSeqIds next
      phase killed) (hs : Settles t gone q q') (hg : ∀ s, gone s → killed s = true) :
    Registry q'.arbSequenceQ q'.lockList q'.regSequences q'.sqrSeqIds next phase killed := by
  obtain ⟨p,ht,rfl | ⟨i,r,hr,_,_,rfl⟩⟩ := hs
  · exact h.trimmed ht hg
  · have hp := h.trimmed ht hg
    have he := hp.eraseIdx i
    refine ⟨he.pos,he.bound,he.inj,he.owner,he.ident,he.live,he.queued,?_,he.idle⟩
    intro l hl
    rcases List.mem_append.mp hl with hl | hl
    · exact he.locked l hl
    · rw [List.mem_singleton.mp hl]
      exact ⟨_,hp.queued r (List.mem_of_getElem? hr)⟩

theorem push (h : Registry arb locks reg ids next phase killed) {r : SequenceRequest}
    {arb' : List SequenceRequest} (hn : arb'.Perm (r :: arb))
    (hr : ids r.sequencePtr = some r.sequenceId ∧ reg r.sequenceId = some r.sequencePtr) :
    Registry arb' locks reg ids next phase killed := by
  refine ⟨h.pos,h.bound,h.inj,h.owner,h.ident,h.live,?_,h.locked,h.idle⟩
  intro r' hr'
  rcases List.mem_cons.mp (hn.mem_iff.mp hr') with rfl | hr'
  · exact hr
  · exact h.queued r' hr'

theorem unlock (h : Registry arb locks reg ids next phase killed) {locks' : List Nat}
    (hs : List.Sublist locks' locks) : Registry arb locks' reg ids next phase killed :=
  ⟨h.pos,h.bound,h.inj,h.owner,h.ident,h.live,h.queued,fun l hl => h.locked l (hs.mem hl),h.idle⟩

/-- The start of a sequence gives it the next identifier. -/
theorem register (h : Registry arb locks reg ids next phase killed) {s : Nat}
    (hp : phase s = .created) :
    Registry arb locks (Function.update reg next (some s))
      (Function.update ids s (some next)) (next+1) (Function.update phase s .ready)
      killed := by
  have hs : ids s = none := h.idle s (by rw [hp]; rfl)
  have hreg : ∀ i s', reg i = some s' → Function.update reg next (some s) i = some s' := by
    intro i s' hr
    have hb := (h.bound s' i (h.owner i s' hr)).2
    rw [Function.update_of_ne (by omega)]
    exact hr
  have hids : ∀ s' i, ids s' = some i → Function.update ids s (some next) s' = some i := by
    intro s' i hi
    rw [Function.update_of_ne]
    · exact hi
    · intro he
      rw [he,hs] at hi
      cases hi
  refine ⟨by omega,?_,?_,?_,?_,?_,?_,?_,?_⟩
  · intro s' i hi
    have hpos := h.pos
    by_cases he : s' = s
    · subst he
      rw [Function.update_self] at hi
      cases hi
      omega
    · rw [Function.update_of_ne he] at hi
      have hb := h.bound s' i hi
      omega
  · intro a b i ha hb
    by_cases he : a = s
    · by_cases he' : b = s
      · rw [he,he']
      · subst he
        rw [Function.update_self] at ha
        cases ha
        rw [Function.update_of_ne he'] at hb
        have hlt := (h.bound b _ hb).2
        omega
    · rw [Function.update_of_ne he] at ha
      by_cases he' : b = s
      · subst he'
        rw [Function.update_self] at hb
        cases hb
        have hlt := (h.bound a _ ha).2
        omega
      · rw [Function.update_of_ne he'] at hb
        exact h.inj a b i ha hb
  · intro i s' hr
    by_cases he : i = next
    · subst he
      rw [Function.update_self] at hr
      cases hr
      rw [Function.update_self]
    · rw [Function.update_of_ne he] at hr
      exact hids s' i (h.owner i s' hr)
  · intro s' hr
    by_cases he : s' = s
    · rw [he,Function.update_self]
      exact ⟨next,rfl⟩
    · rw [Function.update_of_ne he] at hr
      obtain ⟨i,hi⟩ := h.ident s' hr
      exact ⟨i,hids s' i hi⟩
  · intro s' i hr hk hi
    by_cases he : s' = s
    · subst he
      rw [Function.update_self] at hi
      cases hi
      rw [Function.update_self]
    · rw [Function.update_of_ne he] at hr hi
      exact hreg i s' (h.live s' i hr hk hi)
  · intro r hr
    obtain ⟨hi,hq⟩ := h.queued r hr
    exact ⟨hids _ _ hi,hreg _ _ hq⟩
  · intro l hl
    obtain ⟨i,hi,hq⟩ := h.locked l hl
    exact ⟨i,hids l i hi,hreg i l hq⟩
  · intro s' hr
    by_cases he : s' = s
    · subst he
      rw [Function.update_self] at hr
      cases hr
    · rw [Function.update_of_ne he] at hr ⊢
      exact h.idle s' hr

end Registry

/-- What `remove_sequence_from_queues` leaves of the sequence itself. -/
theorem removed_sequence {α : Type} {q : UvmSequencer α} (ss : Sequences) {s i : Nat}
    (hi : q.sqrSeqIds s = some i) :
    (∀ r ∈ (q.removeSequenceFromQueues ss s).arbSequenceQ, r.sequenceId ≠ i) ∧
    s ∉ (q.removeSequenceFromQueues ss s).lockList ∧
    (q.removeSequenceFromQueues ss s).regSequences =
      Function.update q.regSequences i none := by
  unfold UvmSequencer.removeSequenceFromQueues
  rw [hi]
  simp only [UvmSequencer.unregisterSequence]
  refine ⟨?_,by simp,trivial⟩
  intro r hr hid
  simp [UvmSequencer.ofSequence,hi,hid] at hr

/-- The exit of a sequence gives up its identifier. -/
theorem Registry.exit {α : Type} {q : UvmSequencer α} (ss : Sequences) {next s : Nat}
    {phase : Nat → SeqPhase} {killed : Nat → Bool}
    (h : Registry q.arbSequenceQ q.lockList q.regSequences q.sqrSeqIds next phase killed)
    (hid : ∃ i, q.sqrSeqIds s = some i) :
    Registry (q.removeSequenceFromQueues ss s).arbSequenceQ
      (q.removeSequenceFromQueues ss s).lockList
      (q.removeSequenceFromQueues ss s).regSequences
      (Function.update (q.removeSequenceFromQueues ss s).sqrSeqIds s none) next
      (Function.update phase s .exited) killed := by
  obtain ⟨i,hi⟩ := hid
  have ht : Trimmed ss.toSequenceTree (· = s) q (q.removeSequenceFromQueues ss s) :=
    trimmed_removeSequenceFromQueues (· = s) q ss rfl
  obtain ⟨harb,hlock,hreg⟩ := removed_sequence ss hi
  rw [ht.sqrSeqIds,hreg]
  have hids : ∀ s' j, q.sqrSeqIds s' = some j → j ≠ i →
      Function.update q.sqrSeqIds s none s' = some j ∧
        ∀ s'', q.regSequences j = some s'' →
          Function.update q.regSequences i none j = some s'' := by
    intro s' j hj hne
    constructor
    · rw [Function.update_of_ne]
      · exact hj
      · rintro rfl
        rw [hi] at hj
        cases hj
        exact hne rfl
    · intro s'' hr
      rw [Function.update_of_ne hne]
      exact hr
  have hold : ∀ s' j, Function.update q.sqrSeqIds s none s' = some j →
      q.sqrSeqIds s' = some j ∧ s' ≠ s := by
    intro s' j hj
    by_cases he : s' = s
    · rw [he,Function.update_self] at hj
      cases hj
    · rw [Function.update_of_ne he] at hj
      exact ⟨hj,he⟩
  refine ⟨h.pos,fun s' j hj => h.bound s' j (hold s' j hj).1,
    fun a b j ha hb => h.inj a b j (hold a j ha).1 (hold b j hb).1,?_,?_,?_,?_,?_,?_⟩
  · intro j s' hr
    by_cases he : j = i
    · rw [he,Function.update_self] at hr
      cases hr
    · rw [Function.update_of_ne he] at hr
      exact (hids s' j (h.owner j s' hr) he).1
  · intro s' hr
    by_cases he : s' = s
    · rw [he,Function.update_self] at hr
      cases hr
    · rw [Function.update_of_ne he] at hr ⊢
      exact h.ident s' hr
  · intro s' j hr hk hj
    obtain ⟨hj,he⟩ := hold s' j hj
    rw [Function.update_of_ne he] at hr
    have hne : j ≠ i := by
      rintro rfl
      exact he (h.inj s' s j hj hi)
    exact (hids s' j hj hne).2 s' (h.live s' j hr hk hj)
  · intro r hr
    obtain ⟨hj,hq⟩ := h.queued r (ht.arb.mem hr)
    have hh := hids _ _ hj (harb r hr)
    exact ⟨hh.1,hh.2 _ hq⟩
  · intro l hl
    obtain ⟨j,hj,hq⟩ := h.locked l (ht.locks.mem hl)
    have hne : j ≠ i := by
      rintro rfl
      rw [h.inj l s j hj hi] at hl
      exact hlock hl
    exact ⟨j,(hids l j hj hne).1,(hids l j hj hne).2 l hq⟩
  · intro s' hr
    by_cases he : s' = s
    · rw [he,Function.update_self]
    · rw [Function.update_of_ne he] at hr ⊢
      exact h.idle s' hr

end MemoryController.Uvm
