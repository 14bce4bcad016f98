import Mathlib.Logic.Function.Basic
import MemoryController.Library.Edges

/-!
A plain sequential memory: requests are executed one after the other, a write replaces
one location and a read answers with the last value written there.
-/

set_option autoImplicit false

namespace SequentialMemory
open Edges

inductive Request (Addr Data : Type) where
  | read : Addr → Request Addr Data
  | write : Addr → Data → Request Addr Data
  deriving DecidableEq, Repr

variable {Addr Data : Type} [DecidableEq Addr]

def Request.isRead : Request Addr Data → Bool
  | .read _ => true
  | .write _ _ => false

def Request.datum (a : Addr) : Request Addr Data → Option Data
  | .read _ => none
  | .write b d => if b = a then some d else none

def exec (m : Addr → Data) : Request Addr Data → Addr → Data
  | .read _ => m
  | .write a d => Function.update m a d

def execAll (m : Addr → Data) (rs : List (Request Addr Data)) : Addr → Data :=
  rs.foldl exec m

def lastWrite (rs : List (Request Addr Data)) (a : Addr) : Option Data :=
  (rs.filterMap (Request.datum a)).getLast?

@[simp] theorem execAll_nil (m : Addr → Data) : execAll m [] = m := rfl

theorem execAll_append (m : Addr → Data) (rs qs : List (Request Addr Data)) :
    execAll m (rs ++ qs) = execAll (execAll m rs) qs := by simp [execAll]

theorem execAll_concat (m : Addr → Data) (rs : List (Request Addr Data))
    (r : Request Addr Data) : execAll m (rs ++ [r]) = exec (execAll m rs) r := by
  simp [execAll]

theorem exec_apply (m : Addr → Data) (r : Request Addr Data) (a : Addr) :
    exec m r a = (r.datum a).getD (m a) := by
  cases r with
  | read b => rfl
  | write b d =>
    by_cases h : b = a
    · subst h
      simp [exec,Request.datum]
    · simp [exec,Request.datum,h,Ne.symm h]

theorem lastWrite_concat (rs : List (Request Addr Data)) (r : Request Addr Data)
    (a : Addr) : lastWrite (rs ++ [r]) a = (r.datum a).or (lastWrite rs a) := by
  cases h : r.datum a <;> simp [lastWrite,List.filterMap_append,h]

theorem lastWrite_append_reads (rs qs : List (Request Addr Data))
    (hq : ∀ q ∈ qs, q.isRead = true) (a : Addr) : lastWrite (rs ++ qs) a = lastWrite rs a := by
  have hn : qs.filterMap (Request.datum a) = [] := by
    rw [List.filterMap_eq_nil_iff]
    intro q hm
    have hr := hq q hm
    cases q with
    | read b => rfl
    | write b d => cases hr
  rw [lastWrite,List.filterMap_append,hn,List.append_nil,lastWrite]

theorem lastWrite_map_write {ι : Type} (l : List ι) (addr : ι → Addr) (data : ι → Data)
    (a : Addr) : lastWrite (l.map (fun i => Request.write (addr i) (data i))) a =
      (l.filter (fun i => decide (addr i = a))).getLast?.map data := by
  induction l using List.reverseRecOn with
  | nil => rfl
  | append_singleton l i ih =>
    rw [List.map_append,List.map_singleton,lastWrite_concat,ih,List.filter_append]
    by_cases h : addr i = a <;> simp [Request.datum,h]

/-- Executing a list of requests leaves every location at its last written value. -/
theorem execAll_apply (m : Addr → Data) (rs : List (Request Addr Data)) (a : Addr) :
    execAll m rs a = (lastWrite rs a).getD (m a) := by
  induction rs using List.reverseRecOn with
  | nil => rfl
  | append_singleton rs r ih =>
    rw [execAll_concat,exec_apply,ih,lastWrite_concat]
    cases r.datum a <;> simp

theorem lastWrite_history (f : Nat → Option (Request Addr Data)) (a : Addr) (n : Nat) :
    lastWrite (history f n) a =
      (latest (fun j => ((f j).bind (Request.datum a)).isSome) n).bind
        (fun j => (f j).bind (Request.datum a)) := by
  induction n with
  | zero => rfl
  | succ n ih =>
    rw [history_succ,latest_succ]
    cases hf : f n with
    | none => simp [ih]
    | some r =>
      rw [Option.toList_some,lastWrite_concat,ih]
      cases hd : r.datum a <;> simp [hf,hd]

end SequentialMemory
