import MemoryController.Library.PipelinedMemory

/-!
Values and bundles of wires. Control wires and addresses are two-state, data words are
four-state vectors, since the scoreboard compares them with `===` and the transactions
keep words that nothing ever assigned.
-/

set_option autoImplicit false

namespace MemoryController
open SequentialMemory

/-- A four-state vector in two planes: `bval` marks the unknown bits, which are x where
`aval` is set and z where it is not. -/
structure Logic (w : Nat) where
  aval : BitVec w
  bval : BitVec w
  deriving DecidableEq, Repr

def Logic.known {w : Nat} (v : BitVec w) : Logic w := ⟨v,0⟩

def Logic.x {w : Nat} : Logic w := ⟨BitVec.allOnes w,BitVec.allOnes w⟩

instance {w : Nat} : Zero (Logic w) := ⟨Logic.known 0⟩

/-- The operator `===`. -/
def Logic.caseEq {w : Nat} (u v : Logic w) : Bool :=
  u.aval == v.aval && u.bval == v.bval

@[simp] theorem Logic.caseEq_iff {w : Nat} (u v : Logic w) : u.caseEq v = true ↔ u = v := by
  cases u; cases v; simp [caseEq]

abbrev Addr := BitVec 8
abbrev Word := Logic 32

/-- The wires of `memory_if` that the DUT reads, as sampled at one clock edge. -/
structure Pins where
  rst : Bool
  write : Bool
  valid : Bool
  addr : Addr
  wdata : Word
  deriving DecidableEq, Repr

structure MonitorCb where
  write : Bool
  valid : Bool
  addr : Addr
  wdata : Word
  rdata : Word
  ready : Bool
  deriving DecidableEq, Repr

structure Transaction where
  write : Bool
  addr : Addr
  wdata : Word
  rdata : Word
  deriving DecidableEq, Repr

/-- What a write or read with these fields asks of a memory; the data of a read is dropped. -/
def request (write : Bool) (addr : Addr) (wdata : Word) : Request Addr Word :=
  if write then .write addr wdata else .read addr

def Transaction.request (tr : Transaction) : Request Addr Word :=
  MemoryController.request tr.write tr.addr tr.wdata

def Transaction.ofRequest : Request Addr Word → Transaction
  | .read a => ⟨false,a,.x,.x⟩
  | .write a d => ⟨true,a,d,.x⟩

@[simp] theorem Transaction.request_ofRequest (r : Request Addr Word) :
    (ofRequest r).request = r := by cases r <;> rfl

def Pins.request (p : Pins) : Option (Request Addr Word) :=
  if p.valid then some (MemoryController.request p.write p.addr p.wdata) else none

def Pins.input (p : Pins) : PipelinedMemory.Input Addr Word := ⟨p.rst,p.request⟩

def MonitorCb.request (cb : MonitorCb) : Request Addr Word :=
  MemoryController.request cb.write cb.addr cb.wdata

end MemoryController
