import MemoryController.Uvm.Processes

/-!
Request identifiers: every request is queued, granted or gone, and the process that waits for
it is the one that made it.
-/

set_option autoImplicit false

namespace MemoryController.Uvm

/-- The request that a process waits for. -/
def SeqPhase.waitId : SeqPhase → Option Nat
  | .waitArbitration _ i _ => some i
  | _ => none

/-- The request for an item that a process waits for. -/
def SeqPhase.grantId : SeqPhase → Option Nat
  | .waitArbitration .req i _ => some i
  | _ => none

theorem SeqPhase.waitId_of_grantId {phase : SeqPhase} {i : Nat}
    (h : phase.grantId = some i) : phase.waitId = some i := by
  cases phase with
  | waitArbitration type j n =>
    cases type with
    | req => exact h
    | lock => cases h
  | _ => cases h

structure Requests (arb : List SequenceRequest) (completed : List Nat) (next : Nat)
    (phase : Nat → SeqPhase) : Prop where
  nodup : (arb.map SequenceRequest.requestId).Nodup
  fresh : ∀ r ∈ arb, r.requestId < next
  completed : ∀ i ∈ completed, i < next ∧ ∀ r ∈ arb, r.requestId ≠ i
  waiting : ∀ s i, (phase s).waitId = some i →
    i < next ∧ ∀ s', (phase s').waitId = some i → s' = s
  owner : ∀ r ∈ arb, ∀ s, (phase s).waitId = some r.requestId →
    s = r.sequencePtr ∧ ((phase s).grantId = some r.requestId → r.request = .req)
  req : ∀ r ∈ arb, r.request = .req → (phase r.sequencePtr).grantId = some r.requestId

namespace Requests

variable {arb arb' : List SequenceRequest} {completed completed' : List Nat} {next : Nat}
  {phase phase' : Nat → SeqPhase}

theorem sublist (h : Requests arb completed next phase) (ha : List.Sublist arb' arb)
    (hc : ∀ i ∈ completed', i ∈ completed) : Requests arb' completed' next phase where
  nodup := h.nodup.sublist (ha.map _)
  fresh r hr := h.fresh r (ha.mem hr)
  completed i hi := by
    obtain ⟨hlt,hne⟩ := h.completed i (hc i hi)
    exact ⟨hlt,fun r hr => hne r (ha.mem hr)⟩
  waiting := h.waiting
  owner r hr := h.owner r (ha.mem hr)
  req r hr := h.req r (ha.mem hr)

theorem ne_of_mem_eraseIdx (h : Requests arb completed next phase) {i : Nat}
    {r r' : SequenceRequest} (hr : arb[i]? = some r) (hr' : r' ∈ arb.eraseIdx i) :
    r'.requestId ≠ r.requestId := by
  obtain ⟨j,hij,hj⟩ := List.mem_eraseIdx_iff_getElem?.mp hr'
  intro he
  apply hij
  have hi : (arb.map SequenceRequest.requestId)[i]? = some r.requestId := by simp [hr]
  have hj' : (arb.map SequenceRequest.requestId)[j]? = some r.requestId := by simp [hj,he]
  obtain ⟨hi1,hi2⟩ := List.getElem?_eq_some_iff.mp hi
  obtain ⟨hj1,hj2⟩ := List.getElem?_eq_some_iff.mp hj'
  exact (h.nodup.getElem_inj_iff).mp (hj2.trans hi2.symm)

/-- Granting moves a request from the queue to the completed ones. -/
theorem grant (h : Requests arb completed next phase) {i : Nat} {r : SequenceRequest}
    (hr : arb[i]? = some r) :
    Requests (arb.eraseIdx i) (r.requestId :: completed) next phase := by
  have hs := h.sublist (List.eraseIdx_sublist arb i) (fun j hj => hj)
  refine ⟨hs.nodup,hs.fresh,?_,hs.waiting,hs.owner,hs.req⟩
  intro j hj
  rcases List.mem_cons.mp hj with rfl | hj
  · exact ⟨h.fresh r (List.mem_of_getElem? hr),fun r' hr' => h.ne_of_mem_eraseIdx hr hr'⟩
  · exact hs.completed j hj

/-- Queueing a request with the next identifier. Its process, if it waits for it, is its
owner, and waits with `grantId` when the request is for an item. -/
theorem push (h : Requests arb completed next phase) {r : SequenceRequest}
    (hn : arb'.Perm (r :: arb))
    (hid : r.requestId = next)
    (hold : ∀ s i, (phase' s).waitId = some i →
      (phase s).waitId = some i ∨ i = next ∧ s = r.sequencePtr)
    (hgrant : ∀ s i, (phase' s).grantId = some i →
      (phase s).grantId = some i ∨ i = next ∧ r.request = .req)
    (hreq : ∀ r' ∈ arb', r'.request = .req →
      (phase' r'.sequencePtr).grantId = some r'.requestId) :
    Requests arb' completed (next+1) phase' where
  nodup := by
    have hp := (hn.map SequenceRequest.requestId).nodup_iff
    rw [hp,List.map_cons,List.nodup_cons]
    refine ⟨?_,h.nodup⟩
    intro hmem
    obtain ⟨r',hr',he⟩ := List.mem_map.mp hmem
    have hf := h.fresh r' hr'
    omega
  fresh r' hr' := by
    rcases List.mem_cons.mp (hn.mem_iff.mp hr') with rfl | hr'
    · omega
    · exact Nat.lt_succ_of_lt (h.fresh r' hr')
  completed i hi := by
    have hc := h.completed i hi
    refine ⟨by omega,?_⟩
    intro r' hr'
    rcases List.mem_cons.mp (hn.mem_iff.mp hr') with rfl | hr'
    · omega
    · exact hc.2 r' hr'
  waiting s i hs := by
    rcases hold s i hs with hs | ⟨rfl,rfl⟩
    · have hw := h.waiting s i hs
      refine ⟨by omega,?_⟩
      intro s' hs'
      rcases hold s' i hs' with hs' | ⟨rfl,rfl⟩
      · exact hw.2 s' hs'
      · omega
    · refine ⟨by omega,?_⟩
      intro s' hs'
      rcases hold s' i hs' with hs' | ⟨_,rfl⟩
      · have hw := (h.waiting s' i hs').1
        omega
      · rfl
  owner r' hr' s hs := by
    rcases List.mem_cons.mp (hn.mem_iff.mp hr') with rfl | hr'
    · rcases hold s _ hs with hs | ⟨_,rfl⟩
      · have hw := (h.waiting s _ hs).1
        omega
      · refine ⟨rfl,?_⟩
        intro hg
        rcases hgrant _ _ hg with hg | ⟨_,he⟩
        · have hw := (h.waiting _ _ (SeqPhase.waitId_of_grantId hg)).1
          omega
        · exact he
    · have hf := h.fresh r' hr'
      rcases hold s _ hs with hs | ⟨he,_⟩
      · have ho := h.owner r' hr' s hs
        refine ⟨ho.1,?_⟩
        intro hg
        rcases hgrant s _ hg with hg | ⟨he,_⟩
        · exact ho.2 hg
        · omega
      · omega
  req := hreq

/-- A change of phases that makes no process wait anew. -/
theorem phases (h : Requests arb completed next phase)
    (hw : ∀ s i, (phase' s).waitId = some i → (phase s).waitId = some i)
    (hg : ∀ s i, (phase' s).grantId = some i → (phase s).grantId = some i)
    (hreq : ∀ r ∈ arb, r.request = .req → (phase' r.sequencePtr).grantId = some r.requestId) :
    Requests arb completed next phase' where
  nodup := h.nodup
  fresh := h.fresh
  completed := h.completed
  waiting s i hs := ⟨(h.waiting s i (hw s i hs)).1,
    fun s' hs' => (h.waiting s i (hw s i hs)).2 s' (hw s' i hs')⟩
  owner r hr s hs := ⟨(h.owner r hr s (hw s _ hs)).1,
    fun hg' => (h.owner r hr s (hw s _ hs)).2 (hg s _ hg')⟩
  req := hreq

end Requests

end MemoryController.Uvm
