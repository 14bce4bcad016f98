import MemoryController.Uvm.Drains

/-!
What the counts mean. The total of an object is what it and the objects below it object to,
with the drops that are still held back below it, in every state that raises, drops and the
background processes can lead to.
-/

set_option autoImplicit false

namespace MemoryController.Uvm

namespace UvmObjection

variable {Obj : Type} [DecidableEq Obj]

/-- The count that the outstanding drain of an object holds back. -/
def heldAt (x : UvmObjection Obj) (obj : Obj) : Nat :=
  ((x.pendingAt obj).map DropContext.count).getD 0

def counts (x : UvmObjection Obj) : Aggregation.Counts Obj Int where
  own obj := x.sourceCount obj
  total obj := x.totalCount obj
  held obj := x.heldAt obj

/-- A drain is outstanding only where the total is zero, for a source further down. -/
structure Drains (g : Hierarchy Obj) (x : UvmObjection Obj) : Prop where
  unique : Unique x
  forks : x.forkedList.length ≤ x.forks
  zero : ∀ obj c, x.pendingAt obj = some c →
    x.totalCount obj = 0 ∧ 0 < c.count ∧ c.sourceObj ∉ (g.path obj).tail

/-- Only counts and drains have changed. -/
def Counting (x y : UvmObjection Obj) : Prop :=
  y = { x with
    sourceCount := y.sourceCount
    totalCount := y.totalCount
    scheduledList := y.scheduledList
    forkedList := y.forkedList
    forkedContexts := y.forkedContexts }

theorem pendingAt_same {x y : UvmObjection Obj} (hw : y.waiting = x.waiting)
    (hr : y.forkedContexts = x.forkedContexts) (obj : Obj) :
    y.pendingAt obj = x.pendingAt obj := by
  rw [pendingAt_eq,pendingAt_eq,hw,hr]

def Settled [Fintype Obj] (m : Hierarchy Obj) (x : UvmObjection Obj) : Prop :=
  Aggregation.Balanced m.top m.parent x.counts

section Pass

variable [Fintype Obj] {m : Hierarchy Obj} {x y : UvmObjection Obj} {o : Obj} {d u : Int}

end Pass

omit [DecidableEq Obj] in
theorem Counting.trans {x y z : UvmObjection Obj} (hy : Counting x y) (hz : Counting y z) :
    Counting x z := by
  unfold Counting at hy hz ⊢
  rw [hz,hy]

/-- A state from which every drop has been passed on. -/
structure Consistent [Fintype Obj] (m : Hierarchy Obj) (x : UvmObjection Obj) : Prop where
  drains : Drains m x
  settled : Settled m x

/-- From `x` to `y` the counts of `src` have changed, and everything has been settled. -/
structure Passed [Fintype Obj] (m : Hierarchy Obj) (x y : UvmObjection Obj)
    (sourceCount : Obj → Nat) : Prop where
  consistent : Consistent m y
  sources : y.sourceCount = sourceCount
  frame : Counting x y

section Drop

variable [Fintype Obj] {g m : Hierarchy Obj} {src : Obj} {d : Nat} {up : List Obj} {o : Obj}
  {x : UvmObjection Obj}

end Drop

section Raise

variable {g m : Hierarchy Obj} {src o : Obj} {c : Nat} {x : UvmObjection Obj}

variable [Fintype Obj] {up : List Obj}

end Raise

end UvmObjection

end MemoryController.Uvm
