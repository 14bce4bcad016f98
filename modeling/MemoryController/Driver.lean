import MemoryController.Dut

/-!
The driver in front of the DUT: the reset of `tb_top`, the sequencer seen through
`try_next_item`, and the wires that the driver's clocking block drives.
-/

set_option autoImplicit false

namespace MemoryController
open Clocked Edges SequentialMemory

/-- `clk` of `tb_top` starts low and toggles every 5 time units; `rst` falls at time 10. -/
def posedgeTime (k : Nat) : Nat := 5+10*k

def releaseTime : Nat := 10

def tbTopRst (time : Nat) : Bool := decide (time < releaseTime)

/-- The items of a sequencer in order, and the edges at which it has one to hand out. -/
structure Sequencer where
  items : List Transaction
  available : Nat → Bool

structure Driver where
  items : List Transaction
  write : Bool
  valid : Bool
  addr : Addr
  wdata : Word

def tryNextItem (items : List Transaction) (available : Bool) : Option Transaction :=
  if available then items.head? else none

def itemDone (items : List Transaction) : List Transaction := items.tail

/-- One turn of the `forever` loop. An empty cycle drops `valid` only: the other wires keep
the fields of the last item. -/
def driveItem (d : Driver) (available : Bool) : Driver :=
  match tryNextItem d.items available with
  | some tr =>
    { items := itemDone d.items, write := tr.write, valid := true, addr := tr.addr
      wdata := tr.wdata }
  | none => { d with valid := false }

def Driver.start (items : List Transaction) : Driver := ⟨items,false,false,0,0⟩

/-- The driver waits for the falling edge of `rst` before it looks for a clock edge. -/
def driving (k : Nat) : Bool := decide (releaseTime < posedgeTime k)

def Sequencer.step (sq : Sequencer) (d : Driver) (k : Nat) : Driver :=
  if driving k then driveItem d (sq.available k) else d

def driverAt (sq : Sequencer) (k : Nat) : Driver := run sq.step (Driver.start sq.items) id k

def itemDoneAt (sq : Sequencer) (k : Nat) : Bool :=
  driving k && (tryNextItem (driverAt sq k).items (sq.available k)).isSome

/-- The `item_done` of the last item, where `seq.start` returns, is at edge `k`. -/
def lastItemDone (sq : Sequencer) (k : Nat) : Prop :=
  itemDoneAt sq k = true ∧ (driverAt sq (k+1)).items = []

def waitIdle (k : Nat) (cycles : Nat := 4) : Nat :=
  match cycles with
  | 0 => k
  | n+1 => waitIdle (k+1) n

/-- What the DUT samples: a value driven at an edge is on the wires at the next one. -/
def Driver.pins (d : Driver) (rst : Bool) : Pins := ⟨rst,d.write,d.valid,d.addr,d.wdata⟩

def Sequencer.trace (sq : Sequencer) : QuietTrace where
  pins k := (driverAt sq k).pins (tbTopRst (posedgeTime k))
  rst_zero := rfl
  valid_zero := rfl

theorem waitIdle_eq (k cycles : Nat) : waitIdle k cycles = k+cycles := by
  induction cycles generalizing k with
  | zero => rfl
  | succ n ih =>
    rw [waitIdle,ih]
    omega

theorem trace_rst (sq : Sequencer) (k : Nat) : (sq.trace.pins k).rst = decide (k = 0) := by
  unfold Sequencer.trace Driver.pins tbTopRst posedgeTime releaseTime
  exact decide_eq_decide.mpr (by omega)

theorem driving_eq (k : Nat) : driving k = decide (k ≠ 0) := by
  unfold driving releaseTime posedgeTime
  exact decide_eq_decide.mpr (by omega)

theorem trace_rst_of_pos (sq : Sequencer) {k : Nat} (hk : 1 ≤ k) :
    (sq.trace.pins k).rst = false := by
  rw [trace_rst]
  exact decide_eq_false (by omega)

theorem driver_cases (sq : Sequencer) (k : Nat) :
    (∃ tr rest, (driverAt sq k).items = tr :: rest ∧ itemDoneAt sq k = true ∧
      driverAt sq (k+1) = ⟨rest,tr.write,true,tr.addr,tr.wdata⟩) ∨
    (itemDoneAt sq k = false ∧ (driverAt sq (k+1)).items = (driverAt sq k).items ∧
      (driverAt sq (k+1)).valid = false) := by
  have hs : driverAt sq (k+1) = sq.step (driverAt sq k) k := rfl
  rw [hs]
  unfold Sequencer.step itemDoneAt driveItem
  cases hd : driving k with
  | false =>
    have hk : k = 0 := by simpa [driving_eq] using hd
    subst hk
    exact Or.inr ⟨rfl,rfl,rfl⟩
  | true =>
    cases hi : (driverAt sq k).items with
    | nil => simp [tryNextItem]
    | cons tr rest => cases ha : sq.available k <;> simp [tryNextItem,itemDone]

theorem presented_succ (sq : Sequencer) (k : Nat) :
    presented sq.trace.pins (k+1) = itemDoneAt sq k := by
  change (driverAt sq (k+1)).valid = _
  rcases driver_cases sq k with ⟨tr,rest,_,hd,hn⟩ | ⟨hd,_,hv⟩
  · rw [hn,hd]
  · rw [hv,hd]

/-- What was presented so far, followed by the items still at the sequencer, is the whole
list of items: none is lost, repeated or overtaken. -/
theorem presented_items (sq : Sequencer) (k : Nat) :
    (edges (presented sq.trace.pins) (k+1)).map (requestAt sq.trace.pins) ++
      (driverAt sq k).items.map Transaction.request = sq.items.map Transaction.request := by
  induction k with
  | zero => rfl
  | succ k ih =>
    rw [edges_succ,presented_succ]
    rcases driver_cases sq k with ⟨tr,rest,hi,hd,hn⟩ | ⟨hd,hi,_⟩
    · have hr : requestAt sq.trace.pins (k+1) = tr.request := by
        change request (driverAt sq (k+1)).write (driverAt sq (k+1)).addr
          (driverAt sq (k+1)).wdata = _
        rw [hn]
        rfl
      rw [← ih,hi,hd,hn]
      simp [hr]
    · rw [← ih,hd,hi]
      simp

theorem driver_done (sq : Sequencer) {L k : Nat} (h : (driverAt sq L).items = [])
    (hk : L ≤ k) : (driverAt sq k).items = [] := by
  induction k, hk using Nat.le_induction with
  | base => exact h
  | succ k _ ih =>
    rcases driver_cases sq k with ⟨tr,rest,hi,_,_⟩ | ⟨_,hi,_⟩
    · rw [ih] at hi
      cases hi
    · rw [hi,ih]

theorem presented_after_last (sq : Sequencer) {L k : Nat} (h : lastItemDone sq L)
    (hk : L+2 ≤ k) : presented sq.trace.pins k = false := by
  obtain ⟨m,rfl⟩ := Nat.exists_eq_add_of_le' (show 1 ≤ k by omega)
  have hm := driver_done sq h.2 (show L+1 ≤ m by omega)
  rw [presented_succ]
  rcases driver_cases sq m with ⟨tr,rest,hi,_,_⟩ | ⟨hd,_,_⟩
  · rw [hm] at hi
    cases hi
  · exact hd

theorem requests_after_last (sq : Sequencer) {L n : Nat} (h : lastItemDone sq L)
    (hn : L+2 ≤ n) : (edges (presented sq.trace.pins) n).map (requestAt sq.trace.pins) =
      sq.items.map Transaction.request := by
  obtain ⟨m,rfl⟩ := Nat.exists_eq_add_of_le' (show 1 ≤ n by omega)
  have hi := presented_items sq m
  rw [driver_done sq h.2 (show L+1 ≤ m by omega)] at hi
  simpa using hi

end MemoryController
