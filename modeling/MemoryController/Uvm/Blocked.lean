import MemoryController.Uvm.Safety

/-!
A turn of the driver that ends without the item it has asked for. `get_next_item_called` is
then not cleared by any later turn, so the driver gets nothing more.
-/

set_option autoImplicit false

namespace MemoryController.Uvm
open UvmSequencer

namespace System

variable {α : Type} {t : SequenceTree}

/-- What the driver has asked for and got is as it was. -/
structure DriverKept (x y : System α) : Prop where
  tryNext : y.tryNext = x.tryNext
  driven : y.driven = x.driven
  asked : y.sqr.getNextItemCalled = x.sqr.getNextItemCalled

theorem driverKept_waitForArbitration {x : System α} {q : UvmSequencer α} (hq : Quiet x.sqr q)
    (type : SeqReqType) (s i : Nat) :
    DriverKept x ({ x with sqr := q }.waitForArbitration type s i) := by
  have ha := (quiet_waitForArbitration { x with sqr := q } type s i).asked.trans hq.asked
  rcases waitForArbitration_cases { x with sqr := q } type s i with ⟨_,he⟩ | ⟨_,he⟩ <;>
    rw [he] at ha ⊢ <;> exact ⟨rfl,rfl,ha⟩

/-- The processes of the sequences leave it alone. -/
theorem driverKept_resume {x y : System α} {s : Nat} (m : Move t x (.resume s) y) :
    DriverKept x y := by
  cases m with
  | start hk hp => exact ⟨rfl,rfl,(quiet_register x.sqr s).asked⟩
  | finish hk hp hb => exact ⟨rfl,rfl,(quiet_exit x s).asked⟩
  | request hk hp hb =>
    exact driverKept_waitForArbitration (quiet_waitForGrant x.sqr s _ _) _ s _
  | lock lock hk hp hb =>
    exact driverKept_waitForArbitration (quiet_lockReq x.sqr _ s lock) _ s _
  | unlock hk hp hb => exact ⟨rfl,rfl,(quiet_unlockReq x.sqr _ s).asked⟩
  | arbitrated hk hp hn => exact driverKept_waitForArbitration (quiet_refl x.sqr) _ s _
  | @send s handle payload itemPriority lockRequest rest hk hp hb =>
    obtain ⟨fifo,messages,he⟩ := sendRequest_eq x.sqr (x.sequences t) (x.proc s) s handle payload
    have hq := quiet_locks { x.sqr with
      reqFifo := fifo, reports := messages, numReqsSent := x.sqr.numReqsSent+1 }
      (x.sequences t)
    rw [← he] at hq
    exact ⟨rfl,rfl,hq.asked⟩
  | done hk hp hi => exact ⟨rfl,rfl,rfl⟩

theorem asked_arbitrate {x y : System α} {relevant : Nat → Bool} {draw : Nat}
    (ha : arbitrate t x relevant draw = some y) :
    y.tryNext = none ∧ y.driven = x.driven ++ [none] ∧
        y.sqr.getNextItemCalled = x.sqr.getNextItemCalled ∨
      y.tryNext ≠ none ∧ y.driven = x.driven ∧ y.sqr.getNextItemCalled = true := by
  obtain ⟨p,hs,ht⟩ := chooseNextRequest_settles x.sqr (x.sequences t) relevant draw
  obtain ⟨q,hq,hc⟩ := arbitrate_cases ha
  rw [hq] at ht
  rcases hc with ⟨_,rfl⟩ | ⟨i,r,_,_,rfl⟩
  · left
    refine ⟨rfl,rfl,?_⟩
    change q.getNextItemCalled = _
    rw [ht.rest]
    change p.getNextItemCalled = _
    rw [hs.rest]
  · right
    exact ⟨Option.some_ne_none r,rfl,rfl⟩

/-- The driver has been told that there is no item for it, but the sequencer still counts it
as served. -/
def Wedged (x : System α) : Prop := x.tryNext = none ∧ x.sqr.getNextItemCalled = true

theorem wedged_move {x y : System α} {a : Action} (h : Wedged x) (m : Move t x a y)
    (ha : a ≠ .stopSequences) :
    Wedged y ∧ (y.driven = x.driven ∨ y.driven = x.driven ++ [none]) := by
  cases a with
  | resume s =>
    have hk := driverKept_resume m
    exact ⟨⟨hk.tryNext.trans h.1,hk.asked.trans h.2⟩,Or.inl hk.driven⟩
  | kill s =>
    cases m
    exact ⟨h,Or.inl rfl⟩
  | exit s =>
    cases m
    exact ⟨⟨h.1,(quiet_exit x s).asked.trans h.2⟩,Or.inl rfl⟩
  | stopSequences => exact absurd rfl ha
  | tryNextItem relevant draw =>
    cases m with
    | twice hn hg => exact ⟨⟨rfl,h.2⟩,Or.inr rfl⟩
    | select hn hg hs =>
      rw [h.2] at hg
      cases hg
  | tryPeek relevant draw =>
    cases m with
    | item hn hf =>
      rw [h.1] at hn
      cases hn
    | again hn hf hk hs =>
      rw [h.1] at hn
      cases hn
    | blocked hn hf hk =>
      rw [h.1] at hn
      cases hn

theorem wedged_run {x y : System α} {as : List Action} (h : Wedged x)
    (ha : .stopSequences ∉ as) (he : Transitions.exec (step t) x as = some y) :
    ∃ n, y.driven = x.driven ++ List.replicate n none := by
  refine Transitions.exec_relation (step t) (P := Wedged) (A := fun a => a ≠ .stopSequences)
    (R := fun x y => ∃ n, y.driven = x.driven ++ List.replicate n none) ?_ ?_ ?_ ?_ he h
  · exact fun x => ⟨0,(List.append_nil _).symm⟩
  · rintro x y z ⟨n,hn⟩ ⟨m,hm⟩
    refine ⟨n+m,?_⟩
    rw [hm,hn,List.append_assoc,← List.replicate_add]
  · intro x a y ha hs hx
    obtain ⟨hy,hd⟩ := wedged_move hx (step_cases hs).2 ha
    refine ⟨hy,?_⟩
    rcases hd with hd | hd
    · exact ⟨0,hd.trans (List.append_nil _).symm⟩
    · exact ⟨1,hd⟩
  · rintro a hmem rfl
    exact ha hmem

/-- A turn of the driver has granted a request and waits for the item. -/
def Grants (t : SequenceTree) (x g : System α) : Prop :=
  g.tryNext ≠ none ∧ ∃ relevant draw,
    step t x (.tryNextItem relevant draw) = some g ∨ step t x (.tryPeek relevant draw) = some g

theorem Grants.asked {x g : System α} (h : Grants t x g) : g.sqr.getNextItemCalled = true := by
  obtain ⟨hn,relevant,draw,hs | hs⟩ := h
  · obtain ⟨_,m⟩ := step_cases hs
    cases m with
    | twice _ _ => exact absurd rfl hn
    | select _ _ ha =>
      rcases asked_arbitrate ha with ⟨hn',_,_⟩ | ⟨_,_,hc⟩
      · exact absurd hn' hn
      · exact hc
  · obtain ⟨_,m⟩ := step_cases hs
    cases m with
    | item _ _ => exact absurd rfl hn
    | blocked _ _ _ => exact absurd rfl hn
    | again _ _ _ ha =>
      rcases asked_arbitrate ha with ⟨hn',_,_⟩ | ⟨_,_,hc⟩
      · exact absurd hn' hn
      · exact hc

/-- While the driver waits for an item, `get_next_item_called` stays set. -/
theorem asked_run {x y : System α} {as : List Action} (hx : x.sqr.getNextItemCalled = true)
    (ha : .stopSequences ∉ as) (h : Transitions.exec (step t) x as = some y) :
    y.tryNext ≠ none → y.sqr.getNextItemCalled = true := by
  refine Transitions.exec_invariant (step t)
    (P := fun x => x.tryNext ≠ none → x.sqr.getNextItemCalled = true)
    (A := fun a => a ≠ .stopSequences) ?_ ?_ h (fun _ => hx)
  · intro x a y ha hs hx
    obtain ⟨_,m⟩ := step_cases hs
    cases a with
    | resume s =>
      have hk := driverKept_resume m
      rw [hk.tryNext,hk.asked]
      exact hx
    | kill s =>
      cases m
      exact hx
    | exit s =>
      cases m
      intro hn
      exact (quiet_exit x s).asked.trans (hx hn)
    | stopSequences => exact absurd rfl ha
    | tryNextItem relevant draw =>
      cases m with
      | twice hn hg => exact fun hn => absurd rfl hn
      | select hn hg hs =>
        rcases asked_arbitrate hs with ⟨hn,_,_⟩ | ⟨_,_,hc⟩
        · exact fun hn' => absurd hn hn'
        · exact fun _ => hc
    | tryPeek relevant draw =>
      cases m with
      | item hn hf => exact fun hn => absurd rfl hn
      | again hn hf hk hs =>
        rcases asked_arbitrate hs with ⟨hn,_,_⟩ | ⟨_,_,hc⟩
        · exact fun hn' => absurd hn hn'
        · exact fun _ => hc
      | blocked hn hf hk => exact fun hn => absurd rfl hn
  · rintro a hmem rfl
    exact ha hmem

/-- A turn that ends without the item it has asked for is the last one to bring any: every
later turn returns null, until `stop_sequences` is called. -/
theorem blocked_run {as bs : List Action} {w g x y z : System α} {relevant : Nat → Bool}
    {draw : Nat} (hg : Grants t w g) (ha : .stopSequences ∉ as)
    (hx : Transitions.exec (step t) g as = some x)
    (hy : step t x (.tryPeek relevant draw) = some y) (hd : y.driven = x.driven ++ [none])
    (hb : .stopSequences ∉ bs) (hz : Transitions.exec (step t) y bs = some z) :
    ∃ n, z.driven = y.driven ++ List.replicate n none := by
  have hasked := asked_run hg.asked ha hx
  refine wedged_run ?_ hb hz
  obtain ⟨_,m⟩ := step_cases hy
  cases m with
  | item hn hf =>
    have he := List.append_cancel_left hd
    cases he
  | again hn hf hk hs =>
    have hc := hasked (by rw [hn]; exact Option.some_ne_none _)
    rcases asked_arbitrate hs with ⟨hn',_,hg⟩ | ⟨_,hd',_⟩
    · exact ⟨hn',hg.trans hc⟩
    · rw [hd'] at hd
      have hl := congrArg List.length hd
      simp [forget] at hl
  | blocked hn hf hk => exact ⟨rfl,hasked (by rw [hn]; exact Option.some_ne_none _)⟩

/-- The first sequence has been stopped, and the second one has asked. -/
def askedLate : System Nat :=
  (twoRun 1 2 [.resume 0,.resume 0,.stopSequences,.resume 1,.resume 1]).get (by decide)

def granted : System Nat :=
  (step flatTree askedLate (.tryNextItem (fun _ => true) 0)).get (by decide)

def peekedEarly : System Nat :=
  (step flatTree granted (.tryPeek (fun _ => true) 0)).get (by decide)

def askedAgain : System Nat :=
  (Transitions.exec (step flatTree) peekedEarly [.resume 1,.resume 1,
    .tryNextItem (fun _ => true) 0]).get (by decide)

theorem askedAgain_blocked :
    ∃ n, askedAgain.driven = peekedEarly.driven ++ List.replicate n none :=
  blocked_run
    ⟨by decide,_,_,Or.inl (show step flatTree askedLate (.tryNextItem (fun _ => true) 0) =
      some granted from (Option.some_get _).symm)⟩
    (show Action.stopSequences ∉ [] from List.not_mem_nil) rfl
    (show step flatTree granted (.tryPeek (fun _ => true) 0) = some peekedEarly from
      (Option.some_get _).symm) (by decide)
    (show Action.stopSequences ∉
      [.resume 1,.resume 1,.tryNextItem (fun _ => true) 0] by simp)
    (show Transitions.exec (step flatTree) peekedEarly _ = some askedAgain from
      (Option.some_get _).symm)

end System

end MemoryController.Uvm
