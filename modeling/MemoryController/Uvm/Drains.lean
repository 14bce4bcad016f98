import MemoryController.Uvm.Objection

/-!
The drains that are outstanding. There is at most one for each object, wherever it is kept,
and the background processes pass it on without changing it.
-/

set_option autoImplicit false

namespace MemoryController.Uvm

namespace UvmObjection

variable {Obj : Type} [DecidableEq Obj]

def waiting (x : UvmObjection Obj) : List (DropContext Obj) := x.scheduledList ++ x.forkedList

/-- The outstanding drain of an object. -/
def pendingAt (x : UvmObjection Obj) (obj : Obj) : Option (DropContext Obj) :=
  (x.cancelDrain obj).2

/-- No object has two drains. -/
structure Unique (x : UvmObjection Obj) : Prop where
  single : (x.waiting.map DropContext.obj).Nodup
  running : ∀ obj c, x.forkedContexts obj = some c →
    c.obj = obj ∧ ∀ c' ∈ x.waiting, c'.obj ≠ obj

theorem pendingAt_eq (x : UvmObjection Obj) (obj : Obj) : x.pendingAt obj =
    (x.waiting.find? (fun c => c.obj = obj)).or (x.forkedContexts obj) := by
  unfold pendingAt cancelDrain waiting
  rw [List.find?_append]
  cases x.scheduledList.find? (fun c => c.obj = obj) with
  | some c => rfl
  | none =>
    cases x.forkedList.find? (fun c => c.obj = obj) with
    | some c => rfl
    | none => cases x.forkedContexts obj <;> rfl

end UvmObjection

end MemoryController.Uvm
