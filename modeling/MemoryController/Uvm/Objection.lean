import MemoryController.Uvm.SequencerBase
import MemoryController.Library.Transitions
import MemoryController.Library.Aggregation

/-!
`uvm_objection`, which keeps a phase going. Raises and drops are counted at every object up to
the root. A count that has dropped to zero is held back at its object until a background
process has drained it, and a new raise meanwhile calls that back.
-/

set_option autoImplicit false

namespace MemoryController.Uvm

/-- `parent` is `m_get_parent`, and `path` the way up to the root that it leads. -/
structure Hierarchy (Obj : Type) where
  top : Obj
  parent : Obj → Obj
  path : Obj → List Obj
  fullName : Obj → String
  path_top : path top = [top]
  path_of_ne : ∀ o, o ≠ top → path o = o :: path (parent o)

namespace Hierarchy

variable {Obj : Type}

/-- Without propagation every object reports to the root. -/
def direct [DecidableEq Obj] (g : Hierarchy Obj) : Hierarchy Obj where
  top := g.top
  parent _ := g.top
  path o := if o = g.top then [g.top] else [o,g.top]
  fullName := g.fullName
  path_top := by simp
  path_of_ne o ho := by simp [ho]

/-- The way up in the propagation mode given. -/
def mode [DecidableEq Obj] (g : Hierarchy Obj) (propMode : Bool) : Hierarchy Obj :=
  if propMode then g else g.direct

variable (g : Hierarchy Obj)

end Hierarchy

/-- `uvm_objection_context_object`: a drop that its object has not passed on yet. -/
structure DropContext (Obj : Type) where
  obj : Obj
  sourceObj : Obj
  count : Nat

/-- `forks` counts the processes that `m_execute_scheduled_forks` has forked and that have
not started yet. Objects without an entry in the counts have 0. -/
structure UvmObjection (Obj : Type) where
  name : String
  sourceCount : Obj → Nat
  totalCount : Obj → Nat
  scheduledList : List (DropContext Obj)
  forkedList : List (DropContext Obj)
  forkedContexts : Obj → Option (DropContext Obj)
  forks : Nat
  topAllDropped : Bool
  propMode : Bool
  cleared : Bool
  reports : List ReportMessage

inductive ObjectionAction (Obj : Type) where
  | raise (obj : Obj) (count : Nat)
  | drop (obj : Obj) (count : Nat)
  | clear (obj : Obj)
  | setPropagateMode (propMode : Bool)
  | schedule
  | fork
  | drained (obj : Obj)

namespace UvmObjection

variable {Obj : Type} [DecidableEq Obj]

def new (Obj : Type) (name : String) : UvmObjection Obj where
  name := name
  sourceCount _ := 0
  totalCount _ := 0
  scheduledList := []
  forkedList := []
  forkedContexts _ := none
  forks := 0
  topAllDropped := false
  propMode := true
  cleared := false
  reports := []

def report (x : UvmObjection Obj) (severity : Severity) (id message : String) :
    UvmObjection Obj :=
  { x with reports := x.reports ++ [⟨severity,id,message⟩] }

def belowZero (g : Hierarchy Obj) (x : UvmObjection Obj) (obj : Obj) : UvmObjection Obj :=
  x.report .fatal "OBJTN_ZERO" ("Object \"" ++ g.fullName obj ++
    "\" attempted to drop objection '" ++ x.name ++ "' count below zero")

def addCount (x : UvmObjection Obj) (obj sourceObj : Obj) (count : Nat) : UvmObjection Obj :=
  { x with
    totalCount := Function.update x.totalCount obj (x.totalCount obj + count)
    sourceCount := if sourceObj = obj then
        Function.update x.sourceCount obj (x.sourceCount obj + count)
      else x.sourceCount }

def subCount (x : UvmObjection Obj) (obj sourceObj : Obj) (count : Nat) : UvmObjection Obj :=
  { x with
    totalCount := Function.update x.totalCount obj (x.totalCount obj - count)
    sourceCount := if obj = sourceObj then
        Function.update x.sourceCount obj (x.sourceCount obj - count)
      else x.sourceCount }

def pushScheduled (x : UvmObjection Obj) (c : DropContext Obj) : UvmObjection Obj :=
  { x with scheduledList := x.scheduledList ++ [c] }

/-- `m_drop` along the way up. A count of zero is left to the background process. -/
def drop (g : Hierarchy Obj) (sourceObj : Obj) :
    List Obj → Nat → UvmObjection Obj → UvmObjection Obj
  | [], _, x => x
  | obj :: up, count, x =>
    if count = 0 then x
    else if x.totalCount obj < count ∨ obj = sourceObj ∧ x.sourceCount obj < count then
      if x.cleared then x else x.belowZero g obj
    else
      let x := x.subCount obj sourceObj count
      if x.totalCount obj ≠ 0 then drop g sourceObj up count x
      else x.pushScheduled ⟨obj,sourceObj,count⟩

/-- Where `m_raise` finds an outstanding drain of `obj`, and what is left without it. -/
def cancelDrain (x : UvmObjection Obj) (obj : Obj) :
    UvmObjection Obj × Option (DropContext Obj) :=
  match x.scheduledList.find? (fun c => c.obj = obj) with
  | some c => ({ x with scheduledList := x.scheduledList.eraseP (fun c => c.obj = obj) },some c)
  | none =>
    match x.forkedList.find? (fun c => c.obj = obj) with
    | some c => ({ x with forkedList := x.forkedList.eraseP (fun c => c.obj = obj) },some c)
    | none =>
      match x.forkedContexts obj with
      | some c => ({ x with forkedContexts := Function.update x.forkedContexts obj none },some c)
      | none => (x,none)

/-- `m_raise` along the way up. After a drain only the difference to its count goes on. -/
def raise (g : Hierarchy Obj) (sourceObj : Obj) :
    List Obj → Nat → UvmObjection Obj → UvmObjection Obj
  | [], _, x => x
  | obj :: up, count, x =>
    if count = 0 then x
    else
      match (x.addCount obj sourceObj count).cancelDrain obj with
      | (x,none) => raise g sourceObj up count x
      | (x,some ctxt) =>
        if ctxt.count < count then raise g sourceObj up (count - ctxt.count) x
        else drop g sourceObj up (ctxt.count - count) x

def path (g : Hierarchy Obj) (x : UvmObjection Obj) (obj : Obj) : List Obj :=
  (g.mode x.propMode).path obj

def raiseObjection (g : Hierarchy Obj) (x : UvmObjection Obj) (obj : Obj) (count : Nat) :
    UvmObjection Obj :=
  raise g obj (x.path g obj) count { x with cleared := false, topAllDropped := false }

def dropObjection (g : Hierarchy Obj) (x : UvmObjection Obj) (obj : Obj) (count : Nat) :
    UvmObjection Obj := drop g obj (x.path g obj) count x

def clear (g : Hierarchy Obj) (x : UvmObjection Obj) (obj : Obj) : UvmObjection Obj :=
  let name := if g.fullName obj = "" then "uvm_top" else g.fullName obj
  let x := if !x.topAllDropped && x.totalCount g.top != 0 then
      x.report .warning "OBJTN_CLEAR"
        ("Object '" ++ name ++ "' cleared objection counts for " ++ x.name)
    else x
  { x with
    sourceCount := fun _ => 0
    totalCount := fun _ => 0
    scheduledList := []
    forkedList := []
    forkedContexts := fun _ => none
    topAllDropped := false
    cleared := true }

def setPropagateMode (g : Hierarchy Obj) (x : UvmObjection Obj) (propMode : Bool) :
    UvmObjection Obj :=
  if !x.topAllDropped && x.totalCount g.top != 0 then
    x.report .error "UVM/BASE/OBJTN/PROP_MODE" ("The propagation mode of '" ++ x.name ++
      "' cannot be changed while the objection is raised or draining!")
  else { x with propMode := propMode }

/-- One turn of `m_execute_scheduled_forks`. -/
def schedule (x : UvmObjection Obj) : Option (UvmObjection Obj) :=
  match x.scheduledList with
  | [] => none
  | c :: rest => some { x with
      scheduledList := rest, forkedList := x.forkedList ++ [c], forks := x.forks+1 }

/-- A forked process starts. It serves the oldest drain, if there still is one. -/
def fork (x : UvmObjection Obj) : Option (UvmObjection Obj) :=
  if x.forks = 0 then none
  else match x.forkedList with
  | [] => some { x with forks := x.forks-1 }
  | c :: rest => some { x with
      forks := x.forks-1
      forkedList := rest
      forkedContexts := Function.update x.forkedContexts c.obj (some c) }

/-- `m_forked_drain` after the drain time, up to the end of the process. -/
def drained (g : Hierarchy Obj) (x : UvmObjection Obj) (obj : Obj) :
    Option (UvmObjection Obj) :=
  match x.forkedContexts obj with
  | none => none
  | some c =>
    let x := { x with
      topAllDropped := if obj = g.top then true else x.topAllDropped
      forkedContexts := Function.update x.forkedContexts obj none }
    some (drop g c.sourceObj (x.path g obj).tail c.count x)

def fatal (x : UvmObjection Obj) : Bool := x.reports.any (fun m => m.severity == .fatal)

/-- A fatal report ends the simulation. -/
def step (g : Hierarchy Obj) (x : UvmObjection Obj) (a : ObjectionAction Obj) :
    Option (UvmObjection Obj) :=
  if x.fatal then none
  else match a with
  | .raise obj count => some (x.raiseObjection g obj count)
  | .drop obj count => some (x.dropObjection g obj count)
  | .clear obj => some (x.clear g obj)
  | .setPropagateMode propMode => some (x.setPropagateMode g propMode)
  | .schedule => x.schedule
  | .fork => x.fork
  | .drained obj => x.drained g obj

end UvmObjection

end MemoryController.Uvm
