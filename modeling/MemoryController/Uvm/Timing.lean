import MemoryController.Uvm.DriverLoop
import MemoryController.Uvm.Prompt

/-!
When things arrive. The turn that the driver makes at an edge is checked exactly three edges
later, so the place of a request in the sequencer's queue fixes the edge of its check.
-/

set_option autoImplicit false

namespace MemoryController.Uvm
open Clocked Edges SequentialMemory

/-- What the monitor publishes at edge `k`. -/
def outputAt (s : Regs) (ins : Nat → Pins) (k : Nat) : Option Transaction :=
  (benchAt s ins k).env.monitor.output (samples s ins k)

theorem published_succ (s : Regs) (ins : Nat → Pins) (k : Nat) :
    (benchAt s ins (k+1)).env.monitor.published =
      (benchAt s ins k).env.monitor.published ++ (outputAt s ins k).toList := by
  unfold outputAt
  rw [bench_env,bench_env,env_monitor,env_monitor]
  rfl

/-- The requests of the turns made before edge `k`. -/
def requestsBefore (turns : List (Option Transaction)) (k : Nat) :
    List (Request Addr Word) :=
  ((turns.take (k-1)).filterMap id).map Transaction.request

theorem requestsBefore_succ (turns : List (Option Transaction)) (m : Nat) :
    requestsBefore turns (m+2) = requestsBefore turns (m+1) ++
      ((turnAt turns (m+1)).map Transaction.request).toList := by
  unfold requestsBefore turnAt
  simp only [Nat.add_sub_cancel,show m+2-1 = m+1 by omega,List.take_add_one]
  cases turns[m]? with
  | none => simp
  | some turn => cases turn <;> simp

/-- What has been presented up to an edge are the turns made before it. -/
theorem commits_ofTurns (turns : List (Option Transaction)) (k : Nat) :
    commits (wiresAt turns) (k+1) = requestsBefore turns k := by
  have hitems := presented_items (ofTurns turns) k
  rw [driver_ofTurns] at hitems
  have hsplit : requestsBefore turns k ++
      ((turns.drop (k-1)).filterMap id).map Transaction.request =
      (turns.filterMap id).map Transaction.request := by
    unfold requestsBefore
    rw [← List.map_append,← List.filterMap_append,List.take_append_drop]
  rw [pins_ofTurns,commits_of_driver]
  exact List.append_cancel_right (hitems.trans hsplit.symm)

theorem published_ofTurns (p : PowerUp) (turns : List (Option Transaction)) (n : Nat) :
    (benchAt p.toRegs (wiresAt turns) n).env.monitor.published =
      answers (requestsBefore turns (n-3)) := by
  have hc : commits (wiresAt turns) (n-2) = requestsBefore turns (n-3) := by
    by_cases hn : n ≤ 2
    · simp [show n-2 = 0 by omega,show n-3 = 0 by omega,commits,requestsBefore]
    · rw [show n-2 = n-3+1 by omega,commits_ofTurns]
  rw [← hc,pins_ofTurns,bench_env,env_monitor,
    published_of_lostLast p _ (lostLast_of_driver (ofTurns turns) n)]

/-- Every turn is answered at the third edge after it, and nothing is published at any other
time: an item is answered with what the items before it have written, an empty turn with
nothing. -/
theorem output_ofTurns (p : PowerUp) (turns : List (Option Transaction)) (e : Nat) :
    outputAt p.toRegs (wiresAt turns) e =
      if e < 4 then none
      else (turnAt turns (e-3)).map
        (fun tr => answerTo (requestsBefore turns (e-3)) tr.request) := by
  have hs := published_succ p.toRegs (wiresAt turns) e
  rw [published_ofTurns,published_ofTurns] at hs
  by_cases he : e < 4
  · have hr : requestsBefore turns (e+1-3) = requestsBefore turns (e-3) := by
      unfold requestsBefore
      rw [show e+1-3-1 = e-3-1 by omega]
    rw [hr] at hs
    simpa [he] using hs
  · obtain ⟨m,rfl⟩ := Nat.exists_eq_add_of_le' (Nat.le_of_not_lt he)
    rw [show m+4+1-3 = m+2 by omega,show m+4-3 = m+1 by omega,requestsBefore_succ] at hs
    rw [if_neg he,show m+4-3 = m+1 by omega]
    cases ht : turnAt turns (m+1) with
    | none =>
      rw [ht] at hs
      simpa using hs
    | some tr =>
      rw [ht] at hs
      simp only [Option.map_some,Option.toList_some,answers_concat] at hs
      have hs := List.append_cancel_left hs
      cases ho : outputAt p.toRegs (wiresAt turns) (m+4) with
      | none => simp [ho] at hs
      | some tr' =>
        rw [ho] at hs
        simpa using hs.symm

namespace System

variable {t : SequenceTree}

/-- The turns of a run as the driver's loop sees them. -/
def turns (x : System Transaction) : List (Option Transaction) :=
  x.driven.map (Option.map SequenceItem.payload)

theorem driven_eq {α : Type} {x : System α} (h : none ∉ x.driven) :
    x.driven = x.items.map some := by
  unfold items
  generalize x.driven = turns at h
  induction turns with
  | nil => rfl
  | cons turn turns ih =>
    rw [List.mem_cons,not_or] at h
    cases turn with
    | none => exact absurd rfl h.1
    | some item => exact congrArg (some item :: ·) (ih h.2)

/-- When no turn is empty, every item is checked at the third edge after its own turn. -/
theorem output_of_driven (p : PowerUp) {x : System Transaction} (h : none ∉ x.driven)
    (k : Nat) : outputAt p.toRegs (wiresAt x.turns) (k+4) = (x.items[k]?).map (fun item =>
      answerTo ((x.items.take k).map (fun i => i.payload.request)) item.payload.request) := by
  have ht : x.turns = x.items.map (fun item => some item.payload) := by
    unfold turns
    rw [driven_eq h,List.map_map]
    rfl
  have hr : requestsBefore x.turns (k+1) =
      (x.items.take k).map (fun i => i.payload.request) := by
    unfold requestsBefore
    simp [ht,← List.map_take,List.filterMap_map]
  have hk : turnAt x.turns (k+1) = (x.items[k]?).map SequenceItem.payload := by
    unfold turnAt
    rw [ht]
    cases hi : x.items[k]? <;> simp [hi]
  rw [output_ofTurns,if_neg (by omega),show k+4-3 = k+1 by omega,hk,hr,Option.map_map]
  rfl

section Runs

variable {fullName : String} {bodies : Nat → List (SeqOp Transaction)} {as bs : List Action}
  {x y : System Transaction}

/-- While some sequence is running the pipeline stays full: the turns made so far are
answered at consecutive edges, one at each, and nothing is published before or after. -/
theorem pipeline_full (p : PowerUp) (hflat : Flat t) (hb : ∀ s, PlainBody (bodies s))
    (h : Transitions.guarded (step t) (Busy t) (start fullName .fifo bodies) as x) (e : Nat) :
    (outputAt p.toRegs (wiresAt x.turns) e).isSome =
      decide (4 ≤ e ∧ e < x.driven.length+4) := by
  obtain ⟨_,hd⟩ := busy_driven hflat hb h
  by_cases he : e < 4
  · rw [output_ofTurns,if_pos he]
    simp [Nat.not_le.mpr he]
  · obtain ⟨k,rfl⟩ := Nat.exists_eq_add_of_le' (Nat.le_of_not_lt he)
    have hlen : x.driven.length = x.items.length := by
      conv_lhs => rw [driven_eq hd,List.length_map]
    rw [output_of_driven p hd,Option.isSome_map,hlen]
    rw [Bool.eq_iff_iff]
    simp

/-- The place of a request in the queue fixes the edge of its check: behind `k` others it
takes `k` more edges, and the monitor publishes its item with the answer that the items
driven before it determine. -/
theorem request_latency (p : PowerUp) (hflat : Flat t) (hb : ∀ s, PlainBody (bodies s))
    (hx : Transitions.guarded (step t) (Busy t) (start fullName .fifo bodies) as x)
    (hy : Transitions.guarded (step t) (Busy t) x bs y) {k : Nat} {r : SequenceRequest}
    (hr : x.sqr.arbSequenceQ[k]? = some r) (hk : x.served+k < y.driven.length) :
    ∃ item, y.items[x.served+k]? = some item ∧ item.parentSequence = r.sequencePtr ∧
      outputAt p.toRegs (wiresAt y.turns) (x.served+k+4) = some (answerTo
        ((y.items.take (x.served+k)).map (fun i => i.payload.request))
        item.payload.request) := by
  obtain ⟨hgy,hd⟩ := busy_driven hflat hb (Transitions.guarded_append (step t) hx hy)
  have hgx := (busy_driven hflat hb hx).1
  have hasked := asked_prompt hflat hgx (Transitions.guarded_mono (step t) (fun _ _ h => h.1) hy)
    (Or.inl ⟨r,List.mem_of_getElem? hr,rfl,rfl⟩)
  rw [hgx.number hr] at hasked
  have hlen : y.driven.length = y.items.length := by
    conv_lhs => rw [driven_eq hd,List.length_map]
  rcases asked_waits hgy.orderly hasked with ⟨item,hi,hs⟩ | ⟨hle,_⟩
  · refine ⟨item,hi,hs,?_⟩
    rw [output_of_driven p hd,hi]
    rfl
  · omega

end Runs

/-- A write and a read of two sequences, with every process resumed as soon as it can go on. -/
def writeAndRead : Nat → List (SeqOp Transaction) :=
  twoBodies ⟨true,5,.known 7,.x⟩ ⟨false,5,.x,.x⟩

def twoTurns (as : List Action) : Option (System Transaction) :=
  Transitions.exec (step flatTree) (start "sqr" .fifo writeAndRead)
    (bothAsk ++ .resume 0 :: as)

def answerTurn (s : Nat) : List Action := [.tryNextItem (fun _ => true) 0,.resume s,.resume s]

def bothQueued : System Transaction := (twoTurns []).get (by decide)

def writeSent : System Transaction :=
  (twoTurns (answerTurn 0 ++ [.resume 1])).get (by decide)

def writeDone : System Transaction :=
  (twoTurns (answerTurn 0 ++ [.resume 1,.tryPeek (fun _ => true) 0,.resume 0,.resume 0])).get
    (by decide)

def readSent : System Transaction :=
  (twoTurns (answerTurn 0 ++ [.resume 1,.tryPeek (fun _ => true) 0,.resume 0,.resume 0] ++
    answerTurn 1)).get (by decide)

theorem settled_two {x : System Transaction} (h0 : resume flatTree x 0 = none)
    (h1 : resume flatTree x 1 = none) (h : ∀ s, x.phase (s+2) = .created) :
    Settled flatTree x := by
  intro s
  rcases s with _ | _ | s
  · exact Or.inr h0
  · exact Or.inr h1
  · exact Or.inl (h s)

def readDone : System Transaction :=
  (step flatTree readSent (.tryPeek (fun _ => true) 0)).get (by decide)

theorem busy_resume {x : System Transaction} (s : Nat) : Busy flatTree x (.resume s) :=
  ⟨trivial,fun _ _ h => Action.noConfusion h⟩

theorem busy_select {x : System Transaction} (h : Settled flatTree x) {s : Nat}
    (hs : (x.phase s).running = true) : Busy flatTree x (.tryNextItem (fun _ => true) 0) :=
  ⟨⟨h,fun _ => rfl⟩,fun _ _ _ => ⟨s,hs⟩⟩

theorem busy_peek {x : System Transaction} (h : Settled flatTree x) :
    Busy flatTree x (.tryPeek (fun _ => true) 0) :=
  ⟨⟨h,fun _ => rfl⟩,fun _ _ h => Action.noConfusion h⟩

theorem bothQueued_run : Transitions.guarded (step flatTree) (Busy flatTree)
    (start "sqr" .fifo writeAndRead) (bothAsk ++ [.resume 0]) bothQueued :=
  ⟨busy_resume 0,_,rfl,busy_resume 1,_,rfl,busy_resume 0,_,rfl,busy_resume 1,_,rfl,
    busy_resume 0,_,rfl,rfl⟩

theorem readDone_run : Transitions.guarded (step flatTree) (Busy flatTree) bothQueued
    (answerTurn 0 ++ [.resume 1,.tryPeek (fun _ => true) 0,.resume 0,.resume 0] ++
      answerTurn 1 ++ [.tryPeek (fun _ => true) 0]) readDone :=
  ⟨busy_select (s := 0) (settled_two rfl rfl (fun _ => rfl)) rfl,_,rfl,busy_resume 0,_,rfl,
    busy_resume 0,_,rfl,busy_resume 1,writeSent,rfl,
    busy_peek (settled_two rfl rfl (fun _ => rfl)),_,rfl,busy_resume 0,_,rfl,
    busy_resume 0,writeDone,rfl,
    busy_select (s := 1) (settled_two rfl rfl (fun _ => rfl)) rfl,_,rfl,busy_resume 1,_,rfl,
    busy_resume 1,readSent,rfl,busy_peek (settled_two rfl rfl (fun _ => rfl)),_,rfl,rfl⟩

/-- The read stood behind the write, so the monitor publishes it at edge 5. -/
theorem readDone_latency :
    ∃ item, readDone.items[1]? = some item ∧ item.parentSequence = 1 ∧
      outputAt zeroPowerUp.toRegs (wiresAt readDone.turns) 5 = some (answerTo
        ((readDone.items.take 1).map (fun i => i.payload.request)) item.payload.request) :=
  request_latency (k := 1) zeroPowerUp flat_flatTree (plain_twoBodies _ _) bothQueued_run
    readDone_run (show bothQueued.sqr.arbSequenceQ[1]? = some ⟨2,1,-1,.req,1⟩ by decide)
    (by decide)

/-- Two turns, two answers, at edges 4 and 5. -/
theorem readDone_full :
    (outputAt zeroPowerUp.toRegs (wiresAt readDone.turns) 3).isSome = false ∧
    (outputAt zeroPowerUp.toRegs (wiresAt readDone.turns) 4).isSome = true ∧
    (outputAt zeroPowerUp.toRegs (wiresAt readDone.turns) 5).isSome = true ∧
    (outputAt zeroPowerUp.toRegs (wiresAt readDone.turns) 6).isSome = false :=
  have h := pipeline_full zeroPowerUp flat_flatTree (plain_twoBodies _ _)
    (Transitions.guarded_append (step flatTree) bothQueued_run readDone_run)
  ⟨h 3,h 4,h 5,h 6⟩

end System

end MemoryController.Uvm
