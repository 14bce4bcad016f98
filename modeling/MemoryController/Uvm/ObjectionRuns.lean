import MemoryController.Uvm.ObjectionCounts

/-!
Every run of an objection, in whatever order its users and the background processes act. The
total of an object is what is objected to below it, and what is still held back there.
-/

set_option autoImplicit false

namespace MemoryController.Uvm

namespace UvmObjection

variable {Obj : Type} [DecidableEq Obj] [Fintype Obj]

/-- What holds in every reachable state. -/
structure Coherent (g : Hierarchy Obj) (x : UvmObjection Obj) : Prop where
  consistent : Consistent (g.mode x.propMode) x
  done : x.topAllDropped = true →
    ∀ o, x.sourceCount o = 0 ∧ x.totalCount o = 0 ∧ x.pendingAt o = none

section Totals

variable {m : Hierarchy Obj} {x y : UvmObjection Obj}

end Totals

section Steps

variable {g m : Hierarchy Obj} {x y : UvmObjection Obj}

/-- Neither the flags nor the reports count. -/
def Flags (x y : UvmObjection Obj) : Prop :=
  y = { x with
    topAllDropped := y.topAllDropped
    propMode := y.propMode
    cleared := y.cleared
    reports := y.reports }

theorem Consistent.moved (h : Consistent m x) (hu : Unique y)
    (hf : y.forkedList.length ≤ y.forks) (hp : ∀ o, y.pendingAt o = x.pendingAt o)
    (hs : y.sourceCount = x.sourceCount) (ht : y.totalCount = x.totalCount) :
    Consistent m y := by
  have hc : y.counts = x.counts := by
    unfold counts heldAt
    simp only [hp,hs,ht]
  refine ⟨⟨hu,hf,?_⟩,?_⟩
  · intro o c ho
    rw [hp] at ho
    rw [ht]
    exact h.drains.zero o c ho
  · unfold Settled
    rw [hc]
    exact h.settled

theorem Consistent.flags (h : Consistent m x) (hy : Flags x y) : Consistent m y := by
  have hd := h.drains
  refine h.moved ⟨?_,?_⟩ ?_ (pendingAt_same (by rw [hy]; rfl) (by rw [hy])) (by rw [hy])
    (by rw [hy])
  · rw [hy]
    exact hd.unique.single
  · rw [hy]
    exact hd.unique.running
  · rw [hy]
    exact hd.forks

end Steps

section Actions

variable {g : Hierarchy Obj} {x y : UvmObjection Obj}

theorem Coherent.report (h : Coherent g x) (severity : Severity) (id message : String) :
    Coherent g (x.report severity id message) := by
  refine ⟨h.consistent.flags rfl,?_⟩
  intro ht o
  have hp : (x.report severity id message).pendingAt o = x.pendingAt o :=
    pendingAt_same (x := x) (y := x.report severity id message) rfl rfl o
  rw [hp]
  exact h.done ht o

theorem Coherent.moved (h : Coherent g x) (hu : Unique y)
    (hf : y.forkedList.length ≤ y.forks) (hp : ∀ o, y.pendingAt o = x.pendingAt o)
    (hy : y = { x with
      scheduledList := y.scheduledList
      forkedList := y.forkedList
      forkedContexts := y.forkedContexts
      forks := y.forks }) : Coherent g y := by
  have hm : y.propMode = x.propMode := by rw [hy]
  have hs : y.sourceCount = x.sourceCount := by rw [hy]
  have ht : y.totalCount = x.totalCount := by rw [hy]
  have hd : y.topAllDropped = x.topAllDropped := by rw [hy]
  refine ⟨by rw [hm]; exact h.consistent.moved hu hf hp hs ht,?_⟩
  intro hy' o
  rw [hs,ht,hp]
  exact h.done (hd.symm.trans hy') o

end Actions

section Actions

variable {g : Hierarchy Obj} {x y : UvmObjection Obj}

theorem Passed.fatal {m : Hierarchy Obj} {sourceCount : Obj → Nat}
    (h : Passed m x y sourceCount) : y.fatal = x.fatal := by
  unfold UvmObjection.fatal
  rw [h.frame]

end Actions

section Runs

variable {g : Hierarchy Obj} {name : String} {as : List (ObjectionAction Obj)}
  {x y : UvmObjection Obj}

end Runs

end UvmObjection

end MemoryController.Uvm
