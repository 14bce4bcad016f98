import MemoryController.Uvm.Invariants

/-!
`stop_sequences`: the loop ends when no sequence is registered any more, and the sequencer is
then as idle as it was at first.
-/

set_option autoImplicit false

namespace MemoryController.Uvm
open UvmSequencer

namespace System

variable {α : Type} {t : SequenceTree}

/-- The identifiers in use. -/
def registered (x : System α) : Finset Nat :=
  (Finset.range x.sqr.nextSequenceId).filter (fun i => (x.sqr.regSequences i).isSome)

theorem findFirst_none {x : System α} (h : Registered x)
    (hn : x.sqr.findFirstSequence = none) (i : Nat) : x.sqr.regSequences i = none := by
  cases hr : x.sqr.regSequences i with
  | none => rfl
  | some s =>
    have hb := (h.bound s i (h.owner i s hr)).2
    have hi := List.findSome?_eq_none_iff.mp hn i (List.mem_range.mpr hb)
    rw [hr] at hi
    cases hi

/-- `kill_sequence` makes the loop shorter by a turn, as it unregisters the sequence. -/
theorem registered_kill_lt {x : System α} (h : Registered x) {s : Nat}
    (hs : x.sqr.findFirstSequence = some s) :
    (killSequence t x s).registered.card < x.registered.card := by
  obtain ⟨i,hr,hi,_⟩ := findFirst_registered h hs
  have ht := trimmed_exitQueues t (x.kill s) s
  have hn : (killSequence t x s).sqr.nextSequenceId = x.sqr.nextSequenceId := by
    change (exitQueues t (x.kill s) s).nextSequenceId = _
    rw [ht.rest]
    rfl
  have hreg : (killSequence t x s).sqr.regSequences =
      Function.update x.sqr.regSequences i none :=
    (removed_sequence (((x.kill s).setPhase s .exited).sequences t) hi).2.2
  apply Finset.card_lt_card
  unfold registered
  rw [hn,hreg,Finset.ssubset_iff_of_subset]
  · refine ⟨i,?_,?_⟩
    · rw [Finset.mem_filter,Finset.mem_range,hr]
      exact ⟨(h.bound s i hi).2,rfl⟩
    · simp
  · intro j hj
    rw [Finset.mem_filter] at hj ⊢
    refine ⟨hj.1,?_⟩
    by_cases he : j = i
    · simp [he] at hj
    · rw [Function.update_of_ne he] at hj
      exact hj.2

theorem stopLoop_none {turns : Nat} {x : System α} (h : Registered x)
    (hc : x.registered.card ≤ turns) :
    (stopLoop t turns x).sqr.findFirstSequence = none := by
  induction turns generalizing x with
  | zero =>
    change x.sqr.findFirstSequence = none
    cases hs : x.sqr.findFirstSequence with
    | none => rfl
    | some s =>
      have hlt := registered_kill_lt (t := t) h hs
      omega
  | succ turns ih =>
    unfold stopLoop
    cases hs : x.sqr.findFirstSequence with
    | none => exact hs
    | some s =>
      obtain ⟨_,_,_,hr⟩ := findFirst_registered h hs
      have hlt := registered_kill_lt (t := t) h hs
      exact ih (registered_killSequence h hr) (by omega)

theorem registered_card_le (x : System α) : x.registered.card ≤ x.sqr.nextSequenceId := by
  have hc := Finset.card_filter_le (Finset.range x.sqr.nextSequenceId)
    (fun i => (x.sqr.regSequences i).isSome = true)
  rw [Finset.card_range] at hc
  exact hc

/-- Nobody is left to arbitrate between, and no one who could still send an item. -/
structure Idle (x : System α) : Prop where
  requests : x.sqr.arbSequenceQ = []
  locks : x.sqr.lockList = []
  fifo : x.sqr.reqFifo = []
  asked : x.sqr.getNextItemCalled = false ∧ x.sqr.sequenceItemRequested = false
  unregistered : ∀ i, x.sqr.regSequences i = none
  stopped : ∀ s, x.killed s = false → (x.phase s).running = false

theorem idle_of_unregistered {x : System α} (h : Registered x)
    (hn : ∀ i, x.sqr.regSequences i = none) :
    x.sqr.arbSequenceQ = [] ∧ x.sqr.lockList = [] ∧
      ∀ s, x.killed s = false → (x.phase s).running = false := by
  refine ⟨?_,?_,?_⟩
  · rw [List.eq_nil_iff_forall_not_mem]
    intro r hr
    have hq := (h.queued r hr).2
    rw [hn] at hq
    cases hq
  · rw [List.eq_nil_iff_forall_not_mem]
    intro l hl
    obtain ⟨i,_,hi⟩ := h.locked l hl
    rw [hn] at hi
    cases hi
  · intro s hk
    cases hr : (x.phase s).running with
    | false => rfl
    | true =>
      obtain ⟨i,hi⟩ := h.ident s hr
      have hl := h.live s i hr hk hi
      rw [hn] at hl
      cases hl

/-- The loop kills a sequence or leaves it alone. -/
theorem stopLoop_proc (turns : Nat) {x : System α} (s : Nat) :
    (stopLoop t turns x).proc s = x.proc s ∨
      ((stopLoop t turns x).proc s).killed = true ∧
        ((stopLoop t turns x).proc s).phase = .exited := by
  induction turns generalizing x with
  | zero => exact Or.inl rfl
  | succ turns ih =>
    unfold stopLoop
    split
    · rename_i s' _
      rcases ih (x := killSequence t x s') with he | hd
      · rw [he]
        unfold killSequence exitSequence kill setPhase
        by_cases hs : s = s'
        · right
          simp [hs]
        · left
          simp [hs]
      · exact Or.inr hd
    · exact Or.inl rfl

/-- A sequence stays registered until the loop has killed it. -/
theorem stopLoop_killed (turns : Nat) {x : System α} (h : Registered x) {i s : Nat}
    (hr : x.sqr.regSequences i = some s) :
    (stopLoop t turns x).sqr.regSequences i = some s ∨
      (stopLoop t turns x).killed s = true ∧ (stopLoop t turns x).phase s = .exited := by
  induction turns generalizing x with
  | zero => exact Or.inl hr
  | succ turns ih =>
    unfold stopLoop
    cases hs : x.sqr.findFirstSequence with
    | none => exact Or.inl hr
    | some s' =>
      obtain ⟨j,hj,hid,hrun⟩ := findFirst_registered h hs
      simp only
      by_cases he : s = s'
      · right
        have hdead : ((killSequence t x s').proc s).killed = true ∧
            ((killSequence t x s').proc s).phase = .exited := by
          simp [killSequence,exitSequence,kill,setPhase,he]
        rcases stopLoop_proc (t := t) (x := killSequence t x s') turns s with hp | hp
        · unfold killed phase
          rw [hp]
          exact hdead
        · exact hp
      · refine ih (registered_killSequence h hrun) ?_
        have hreg : (killSequence t x s').sqr.regSequences =
            Function.update x.sqr.regSequences j none :=
          (removed_sequence (((x.kill s').setPhase s' .exited).sequences t) hid).2.2
        rw [hreg,Function.update_of_ne]
        · exact hr
        · rintro rfl
          rw [hj] at hr
          exact he (Option.some.inj hr).symm

theorem stopLoop_driver {turns : Nat} {x : System α} :
    (stopLoop t turns x).tryNext = x.tryNext ∧ (stopLoop t turns x).driven = x.driven ∧
      (stopLoop t turns x).sqr.requestId = x.sqr.requestId := by
  induction turns generalizing x with
  | zero => exact ⟨rfl,rfl,rfl⟩
  | succ turns ih =>
    unfold stopLoop
    split
    · rename_i s _
      have hid : (killSequence t x s).sqr.requestId = x.sqr.requestId := by
        change (exitQueues t (x.kill s) s).requestId = _
        rw [(trimmed_exitQueues t (x.kill s) s).rest]
        rfl
      obtain ⟨hn,hd,hr⟩ := ih (x := killSequence t x s)
      exact ⟨hn,hd,hr.trans hid⟩
    · exact ⟨rfl,rfl,rfl⟩

theorem flush_eq (q : UvmSequencer α) : ∃ messages,
    q.flush = { q with reqFifo := [], reports := q.reports ++ messages } ∧
      ∀ m ∈ messages, m.severity ≠ .fatal := by
  unfold flush
  split
  · refine ⟨[_],rfl,?_⟩
    intro m hm
    rw [List.mem_singleton.mp hm]
    exact Severity.noConfusion
  · rename_i hf
    have hn : q.reqFifo = [] := List.eq_nil_of_length_eq_zero (Nat.eq_zero_of_not_pos hf)
    exact ⟨[],by rw [← hn,List.append_nil],by simp⟩

/-- What is left of the state once the loop is over. -/
theorem stopSequences_eq (x : System α) : ∃ messages,
    stopSequences t x = { stopLoop t x.sqr.nextSequenceId x with
      sqr := { (stopLoop t x.sqr.nextSequenceId x).sqr with
        sequenceItemRequested := false
        getNextItemCalled := false
        reqFifo := []
        reports := (stopLoop t x.sqr.nextSequenceId x).sqr.reports ++ messages } } ∧
      ∀ m ∈ messages, m.severity ≠ .fatal := by
  obtain ⟨messages,he,hm⟩ := flush_eq { (stopLoop t x.sqr.nextSequenceId x).sqr with
    sequenceItemRequested := false, getNextItemCalled := false }
  refine ⟨messages,?_,hm⟩
  unfold stopSequences
  simp only [he]

theorem stopSequences_idle {x : System α} (h : Registered x) : Idle (stopSequences t x) := by
  obtain ⟨messages,he,_⟩ := stopSequences_eq (t := t) x
  have hi : Registered (stopSequences t x) := registered_flush (registered_stopLoop h)
  have hn : ∀ i, (stopSequences t x).sqr.regSequences i = none := by
    rw [he]
    exact findFirst_none (registered_stopLoop h) (stopLoop_none h (registered_card_le x))
  obtain ⟨ha,hl,hp⟩ := idle_of_unregistered hi hn
  refine ⟨ha,hl,?_,?_,hn,hp⟩
  · rw [he]
  · rw [he]
    exact ⟨rfl,rfl⟩

theorem stopSequences_killed {x : System α} (h : Registered x) {i s : Nat}
    (hr : x.sqr.regSequences i = some s) :
    (stopSequences t x).killed s = true ∧ (stopSequences t x).phase s = .exited := by
  obtain ⟨messages,he,_⟩ := stopSequences_eq (t := t) x
  have hn := (stopSequences_idle (t := t) h).unregistered i
  rw [he] at hn ⊢
  rcases stopLoop_killed (t := t) x.sqr.nextSequenceId h hr with hs | hd
  · rw [hs] at hn
    cases hn
  · exact hd

end System

end MemoryController.Uvm
