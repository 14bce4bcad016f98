import MemoryController.Delivery
import MemoryController.Uvm.Items

/-!
The driver's loop on the library's sequencer. It makes one turn at each clock edge after
reset, so the turns of a run are what the wires show, and the run is one of the sequencer that
hands out the items of its turns.
-/

set_option autoImplicit false

namespace MemoryController.Uvm
open Clocked Edges SequentialMemory

/-- A turn drives an item, or drops `valid` only. -/
def driveTurn (p : Pins) : Option Transaction → Pins
  | some tr => { p with write := tr.write, valid := true, addr := tr.addr, wdata := tr.wdata }
  | none => { p with valid := false }

/-- The turn at edge `k`. The first one is at edge 1, and after the last no item comes. -/
def turnAt (turns : List (Option Transaction)) (k : Nat) : Option Transaction :=
  (turns[k-1]?).join

def turnStep (turns : List (Option Transaction)) (p : Pins) (k : Nat) : Pins :=
  if driving k then driveTurn p (turnAt turns k) else p

def wires (turns : List (Option Transaction)) (k : Nat) : Pins :=
  run (turnStep turns) ⟨false,false,false,0,0⟩ id k

/-- The wires as sampled at edge `k`. -/
def wiresAt (turns : List (Option Transaction)) (k : Nat) : Pins :=
  { wires turns k with rst := tbTopRst (posedgeTime k) }

/-- The sequencer that the turns are those of. -/
def ofTurns (turns : List (Option Transaction)) : Sequencer where
  items := turns.filterMap id
  available k := (turnAt turns k).isSome

theorem driver_ofTurns (turns : List (Option Transaction)) (k : Nat) :
    driverAt (ofTurns turns) k = ⟨(turns.drop (k-1)).filterMap id,(wires turns k).write,
      (wires turns k).valid,(wires turns k).addr,(wires turns k).wdata⟩ := by
  induction k with
  | zero => rfl
  | succ k ih =>
    have hs : driverAt (ofTurns turns) (k+1) =
        (ofTurns turns).step (driverAt (ofTurns turns) k) k := rfl
    have hw : wires turns (k+1) = turnStep turns (wires turns k) k := rfl
    rw [hs,hw,ih]
    unfold Sequencer.step turnStep
    rw [driving_eq]
    cases k with
    | zero => rfl
    | succ m =>
      have ht : turnAt turns (m+1) = (turns[m]?).join := rfl
      have hd : (ofTurns turns).available (m+1) = (turnAt turns (m+1)).isSome := rfl
      simp only [ne_eq,Nat.succ_ne_zero,not_false_eq_true,decide_true,if_true,driveItem,hd,ht,
        tryNextItem,itemDone,Nat.add_sub_cancel]
      cases hm : turns[m]? with
      | none =>
        have hlen := List.getElem?_eq_none_iff.mp hm
        have hdrop : turns.drop m = [] := List.drop_eq_nil_of_le hlen
        have hdrop' : turns.drop (m+1) = [] := List.drop_eq_nil_of_le (by omega)
        simp [hdrop,hdrop',driveTurn]
      | some turn =>
        obtain ⟨hlt,hget⟩ := List.getElem?_eq_some_iff.mp hm
        have hdrop : turns.drop m = turn :: turns.drop (m+1) := by
          rw [List.drop_eq_getElem_cons hlt,hget]
        cases turn with
        | none => simp [hdrop,driveTurn]
        | some tr => simp [hdrop,driveTurn]

/-- At every edge the wires are those of the abstract sequencer. -/
theorem pins_ofTurns (turns : List (Option Transaction)) :
    wiresAt turns = (ofTurns turns).trace.pins := by
  funext k
  change wiresAt turns k = (driverAt (ofTurns turns) k).pins (tbTopRst (posedgeTime k))
  rw [driver_ofTurns]
  rfl

/-- The last turn of a list that ends with an item is the last `item_done`. -/
theorem lastItemDone_ofTurns (turns : List (Option Transaction)) (tr : Transaction) :
    lastItemDone (ofTurns (turns ++ [some tr])) (turns.length+1) := by
  unfold lastItemDone itemDoneAt
  rw [driver_ofTurns,driver_ofTurns,driving_eq]
  have hturn : turnAt (turns ++ [some tr]) (turns.length+1) = some tr := by
    simp [turnAt]
  have hav : (ofTurns (turns ++ [some tr])).available (turns.length+1) = true := by
    change (turnAt _ _).isSome = true
    rw [hturn]
    rfl
  rw [hav]
  simp [tryNextItem]

/-- What the monitor has published of the items of one sequence, in its order. -/
def publishedOf (items : List (SequenceItem Transaction)) (published : List Transaction)
    (s : Nat) : List (Request Addr Word) :=
  ((items.zip published).filter (fun e => e.1.parentSequence == s)).map (fun e => e.2.request)

theorem publishedOf_eq {items : List (SequenceItem Transaction)}
    {published : List Transaction}
    (h : published.map Transaction.request = items.map (fun item => item.payload.request))
    (s : Nat) : publishedOf items published s =
      (System.ofParent items s).map (fun e => e.1.request) := by
  unfold publishedOf System.ofParent
  induction items generalizing published with
  | nil => rfl
  | cons item items ih =>
    cases published with
    | nil => cases h
    | cons tr published =>
      simp only [List.map_cons,List.cons.injEq] at h
      have hrest := ih h.2
      simp only [List.zip_cons_cons,List.filter_cons]
      cases hs : item.parentSequence == s with
      | true => simp [hrest,h.1]
      | false => simpa using hrest

/-- The whole way of an item, from the body of its sequence to the scoreboard. After any run
of the sequencer that ends with an item for the driver, three more edges bring everything
that was driven to the scoreboard: in the order of the turns, with every write reported and every
read passed with the last data written before it, and the items of each sequence in the order
of its body. -/
theorem sequences_delivered (p : PowerUp) {t : SequenceTree} {fullName : String}
    {arbitration : ArbMode} {bodies : Nat → List (SeqOp Transaction)} {as : List Action}
    {x : System Transaction} (ha : arbitration.isFifo = true ∨ ∀ s, .kill s ∉ as)
    (h : Transitions.exec (System.step t) (System.start fullName arbitration bodies) as = some x)
    {before : List (Option (SequenceItem Transaction))} {item : SequenceItem Transaction}
    (hd : x.driven = before ++ [some item]) {c : Nat} (hc : 3 ≤ c) :
    let items := x.driven.filterMap id
    let b := benchAt p.toRegs (wiresAt (x.driven.map (Option.map SequenceItem.payload)))
      (x.driven.length+c+1)
    b.env.monitor.published = checkedItems (items.map SequenceItem.payload) ∧
    b.env.scoreboard.verdicts = checkedVerdicts (items.map SequenceItem.payload) ∧
    b.env.scoreboard.readFails = 0 ∧
    b.env.scoreboard.expectedMemory = b.dut.memory ∧
    ∀ s, publishedOf items b.env.monitor.published s <+:
        (payloads (bodies s)).map Transaction.request ∧
      (x.killed s = false → x.phase s = .exited →
        publishedOf items b.env.monitor.published s =
          (payloads (bodies s)).map Transaction.request) := by
  have hlast := lastItemDone_ofTurns (before.map (Option.map SequenceItem.payload)) item.payload
  have hturns : x.driven.map (Option.map SequenceItem.payload) =
      before.map (Option.map SequenceItem.payload) ++ [some item.payload] := by
    rw [hd,List.map_append]
    rfl
  have hlen : (before.map (Option.map SequenceItem.payload)).length+1 = x.driven.length := by
    rw [hd]
    simp
  rw [hlen,← hturns] at hlast
  have hitems : (ofTurns (x.driven.map (Option.map SequenceItem.payload))).items =
      (x.driven.filterMap id).map SequenceItem.payload := by
    change (x.driven.map (Option.map SequenceItem.payload)).filterMap id = _
    rw [List.filterMap_map,List.map_filterMap]
    rfl
  have hpins := pins_ofTurns (x.driven.map (Option.map SequenceItem.payload))
  generalize ofTurns (x.driven.map (Option.map SequenceItem.payload)) = sq at hlast hitems hpins
  have hn : x.driven.length+4 ≤ x.driven.length+c+1 := by omega
  have hpub := published_after_last p sq hlast hn
  have hv := verdicts_after_last p sq hlast hn
  have hsb := scoreboard_after_last p sq hlast hn
  have hmem := memory_after_last p sq hlast
    (show x.driven.length+3 ≤ x.driven.length+c+1 by omega)
  rw [hitems] at hpub hv hsb hmem
  have hreq : (checkedItems ((x.driven.filterMap id).map SequenceItem.payload)).map
      Transaction.request = (x.driven.filterMap id).map (fun item => item.payload.request) := by
    rw [checkedItems_eq,map_request_answers,List.map_map]
    rfl
  simp only [hpins,hpub,hv,hmem]
  rw [hsb]
  refine ⟨trivial,trivial,readFails_answers _,?_,?_⟩
  · rw [writeAll_expectedMemory,map_request_answers]
    rfl
  · intro s
    obtain ⟨_,_,hc⟩ := System.accounted_run ha h
    have hp : publishedOf (x.driven.filterMap id)
        (checkedItems ((x.driven.filterMap id).map SequenceItem.payload)) s =
        (x.drivenBy s).map (fun e => e.1.request) := publishedOf_eq hreq s
    have hbody : (numberedItems (bodies s)).map (fun e => e.1.request) =
        (payloads (bodies s)).map Transaction.request := by
      unfold numberedItems payloads
      rw [← map_fst_numbered 1 (fun _ => -1) (sends (bodies s)),List.map_map]
      rfl
    rw [hp,← hbody]
    constructor
    · exact (hc.driven s).map _
    · intro hk he
      rw [hc.complete hk he]

/-- A write and a read of two sequences that ask at once. -/
def twoItems : Option (System Transaction) :=
  System.twoRun ⟨true,5,.known 7,.x⟩ ⟨false,5,.x,.x⟩
    (System.bothAsk ++ (System.turnOf 0 ++ (System.turnOf 1).take 4))

theorem twoItems_isSome : twoItems.isSome = true := by decide

theorem twoItems_delivered :
    let x := twoItems.get twoItems_isSome
    let b := benchAt zeroPowerUp.toRegs
      (wiresAt (x.driven.map (Option.map SequenceItem.payload))) (x.driven.length+4+1)
    b.env.monitor.published = checkedItems ((x.driven.filterMap id).map SequenceItem.payload) ∧
    b.env.scoreboard.verdicts = [.expectedWrite 5 (.known 7),.readPass 5 (.known 7)] ∧
    publishedOf (x.driven.filterMap id) b.env.monitor.published 0 =
      [.write 5 (.known 7)] :=
  have h := sequences_delivered zeroPowerUp (Or.inl rfl) (Option.some_get twoItems_isSome).symm
    (show (twoItems.get twoItems_isSome).driven =
      [some ⟨0,1,1,⟨true,5,.known 7,.x⟩⟩] ++ [some ⟨1,2,1,⟨false,5,.x,.x⟩⟩] by decide)
    (show 3 ≤ 4 by decide)
  ⟨h.1,h.2.1.trans (by decide),(h.2.2.2.2 0).2 (by decide) (by decide)⟩

end MemoryController.Uvm
