import Oscpu.Nemu.Exec

/-!
# NEMU as a reference: `ref.c`

What difftest calls of the library once it has copied the program. A call that difftest stops after,
or that the process dies of, has no result.
-/

namespace Oscpu.Nemu

open Oscpu.Rtl Oscpu.Lib

/-- The CSRs that `csr_writeback` takes over, with their places behind the registers. -/
def SHADOW_CSRS : List (BitVec 12 × Nat) :=
  [(CsrId.mstatus, 65), (CsrId.mcause, 66), (CsrId.mepc, 67), (CsrId.scause, 69), (CsrId.sepc, 70),
    (CsrId.satp, 71), (CsrId.mip, 72), (CsrId.mie, 73), (CsrId.mscratch, 74), (CsrId.sscratch, 75),
    (CsrId.mideleg, 76), (CsrId.medeleg, 77), (CsrId.mtval, 78), (CsrId.stval, 79),
    (CsrId.mtvec, 80), (CsrId.stvec, 81)]

inductive RefCall where
  | regcpy (dut : Nat → Word)
  | uarchstatusCpy (lrscValid lrscAddr : Word)
  | storeCommit (addr data : Word) (mask : BitVec 8)
  | exec
  | raiseIntr (no : Word)

namespace State

variable (n : State)

/-- `difftest_regcpy` to the reference: the registers, the pc, the CSRs and the mode. -/
def difftestRegcpy (dut : Nat → Word) : State :=
  SHADOW_CSRS.foldl (fun n (id, k) => n.setCsr id (dut k))
    { n with
      regs := { n.regs with gpr := fun r => dut r.toNat }
      fpr := fun r => dut (32 + r.toNat)
      pc := dut 64
      mode := dut 82 }

def difftestUarchstatusCpy (lrscValid lrscAddr : Word) : State :=
  { n with lrValid := lrscValid, lrAddr := lrscAddr }

/-- None if the store differs. -/
def difftestStoreCommit (addr data : Word) (mask : BitVec 8) : Option State :=
  let (differs, q) := n.storeQueue.check addr data mask
  if differs then none else some { n with storeQueue := q }

def difftestRaiseIntr (no : Word) : Option State :=
  match n.raiseIntr no n.pc with
  | .ok (pc, n) => some { n with pc := pc }
  | .error _ => none

def call : RefCall → Option State
  | .regcpy dut => some (n.difftestRegcpy dut)
  | .uarchstatusCpy lrscValid lrscAddr => some (n.difftestUarchstatusCpy lrscValid lrscAddr)
  | .storeCommit addr data mask => n.difftestStoreCommit addr data mask
  | .exec => n.cpuExec
  | .raiseIntr no => n.difftestRaiseIntr no

/-- Calls one after another. -/
def calls : List RefCall → State → Option State
  | [], n => some n
  | c :: cs, n => (n.call c).bind (calls cs)

end State

end Oscpu.Nemu
