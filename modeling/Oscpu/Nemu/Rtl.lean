import Oscpu.Lib.Bytes
import Oscpu.Nemu.StoreQueue

/-!
# The state of NEMU and its RTL instructions

NEMU is built as a shared library for difftest (`riscv64-ysyx-ref_defconfig`): an interpreter without
performance options, with the store queue and guided execution. An instruction of RISC-V is executed
as one or a few RTL instructions, whose operands are pointers to registers.
-/

namespace Oscpu.Nemu

open Oscpu.Rtl Oscpu.Lib

/-! ## Operations on values: `c_op.h` -/

def cAdd (a b : Word) : Word := a + b
def cSub (a b : Word) : Word := a - b
def cAnd (a b : Word) : Word := a &&& b
def cOr (a b : Word) : Word := a ||| b
def cXor (a b : Word) : Word := a ^^^ b
def cShl (a b : Word) : Word := a <<< (b &&& 0x3f#64)
def cShr (a b : Word) : Word := a >>> (b &&& 0x3f#64)
def cSar (a b : Word) : Word := a.sshiftRight (b &&& 0x3f#64).toNat

def cSext32to64 (a : BitVec 32) : Word := a.signExtend 64

def cAddw (a b : Word) : Word := cSext32to64 ((a + b).setWidth 32)
def cSubw (a b : Word) : Word := cSext32to64 ((a - b).setWidth 32)
def cShlw (a b : Word) : Word := cSext32to64 (a.setWidth 32 <<< (b &&& 0x1f#64))
def cShrw (a b : Word) : Word := cSext32to64 (a.setWidth 32 >>> (b &&& 0x1f#64))
def cSarw (a b : Word) : Word := cSext32to64 ((a.setWidth 32).sshiftRight (b &&& 0x1f#64).toNat)

def cMuluLo (a b : Word) : Word := a * b
def cMuluHi (a b : Word) : Word := ((a.zeroExtend 128 * b.zeroExtend 128) >>> 64).setWidth 64
def cMulsHi (a b : Word) : Word :=
  ((a.signExtend 128 * b.signExtend 128).sshiftRight 64).setWidth 64
def cMulw (a b : Word) : Word := cSext32to64 ((a * b).setWidth 32)

def cDivuQ (a b : Word) : Word := a / b
def cDivuR (a b : Word) : Word := a % b
def cDivsQ (a b : Word) : Word := BitVec.ofInt 64 (a.toInt.tdiv b.toInt)
def cDivsR (a b : Word) : Word := BitVec.ofInt 64 (a.toInt.tmod b.toInt)

/-- The relation operations that instructions use. -/
inductive Relop where
  | eq | ne | lt | ge | ltu | geu

def interpretRelop (relop : Relop) (src1 src2 : Word) : Bool :=
  match relop with
  | .eq => src1 == src2
  | .ne => src1 != src2
  | .lt => decide (src1.toInt < src2.toInt)
  | .ge => decide (src2.toInt ≤ src1.toInt)
  | .ltu => decide (src1.toNat < src2.toNat)
  | .geu => decide (src2.toNat ≤ src1.toNat)

/-! ## The state -/

/-- What a pointer to a register points to. -/
inductive Reg where
  | gpr (r : RegId)
  /-- The destination of instructions that write `$0`. -/
  | zeroNull
  /-- `rzero`, a constant. -/
  | rz
  /-- `tmp_reg`. -/
  | s0 | s1 | t0
  deriving DecidableEq

/-- What there is to point to. -/
structure RegFile where
  gpr : RegId → Word
  zeroNull : Word
  s0 : Word
  s1 : Word
  t0 : Word

namespace RegFile

def get (f : RegFile) : Reg → Word
  | .gpr r => f.gpr r
  | .zeroNull => f.zeroNull
  | .rz => 0#64
  | .s0 => f.s0
  | .s1 => f.s1
  | .t0 => f.t0

def set (f : RegFile) (r : Reg) (v : Word) : RegFile :=
  match r with
  | .gpr r => { f with gpr := Function.update f.gpr r v }
  | .zeroNull => { f with zeroNull := v }
  | .rz => f
  | .s0 => { f with s0 := v }
  | .s1 => { f with s1 := v }
  | .t0 => { f with t0 := v }

variable (f : RegFile) (r r' : Reg) (v : Word)

theorem get_set (hr : r ≠ .rz) : (f.set r v).get r' = if r' = r then v else f.get r' := by
  cases r <;> cases r' <;> simp_all [get, set, Function.update_apply]

@[simp] theorem get_rz : f.get .rz = 0#64 := rfl

end RegFile

/-- A union of two members; nothing reads the one that was not written last. -/
structure Operand where
  preg : Reg
  imm : Word

/-- The instruction under execution. -/
structure Decode where
  pc : Word
  snpc : Word
  instr : Ins
  dest : Operand
  src1 : Operand
  src2 : Operand

/-- `nemu_state.state`. -/
inductive RunState where
  | running | stop | ended | abort
  deriving DecidableEq

def MODE_S : Word := 1#64
def MODE_M : Word := 3#64

/-- The variables of NEMU. The memory is addressed by physical addresses, which have 32 bits. -/
structure State where
  regs : RegFile
  fpr : RegId → Word
  pc : Word
  mode : Word
  amo : Bool
  lrAddr : Word
  lrValid : Word
  csrArray : BitVec 12 → Word
  s : Decode
  pmem : ByteMem 32
  storeQueue : StoreQueue
  /-- `ifetch_mmu_state` and `data_mmu_state` are `MMU_TRANSLATE`. -/
  ifetchMmuState : Bool
  dataMmuState : Bool
  nemuState : RunState
  haltPc : Word
  haltRet : BitVec 32

/-- What leaves the execution of an instruction early. -/
inductive Jump where
  /-- `longjmp_exception`. -/
  | exception (cause : Word) (n : State)
  /-- `longjmp_exec(NEMU_EXEC_END)`. -/
  | halt (n : State)
  /-- The process dies: an assertion, `panic`, or an access outside of the memory of the guest. -/
  | fault
  /-- An instruction or an address translation that is left out here. -/
  | unmodelled

abbrev Exec (α : Type) := Except Jump α

namespace State

variable (n : State)

def get (r : Reg) : Word := n.regs.get r

def set (r : Reg) (v : Word) : State := { n with regs := n.regs.set r v }

def ddest : Reg := n.s.dest.preg
def dsrc1 : Reg := n.s.src1.preg
def dsrc2 : Reg := n.s.src2.preg

/-! ## RTL instructions: `rtl-basic.h` and `pseudo.h` -/

/-- `def_rtl_compute_reg`. -/
def rtlReg (c : Word → Word → Word) (dest src1 src2 : Reg) (n : State) : State :=
  n.set dest (c (n.get src1) (n.get src2))

/-- `def_rtl_compute_imm`. -/
def rtlImm (c : Word → Word → Word) (dest src1 : Reg) (imm : Word) (n : State) : State :=
  n.set dest (c (n.get src1) imm)

def rtlAdd := rtlReg cAdd
def rtlSub := rtlReg cSub
def rtlAnd := rtlReg cAnd
def rtlOr := rtlReg cOr
def rtlXor := rtlReg cXor
def rtlShl := rtlReg cShl
def rtlShr := rtlReg cShr
def rtlSar := rtlReg cSar
def rtlAddi := rtlImm cAdd
def rtlSubi := rtlImm cSub
def rtlAndi := rtlImm cAnd
def rtlOri := rtlImm cOr
def rtlXori := rtlImm cXor
def rtlShli := rtlImm cShl
def rtlShri := rtlImm cShr
def rtlSari := rtlImm cSar
def rtlAddw := rtlReg cAddw
def rtlSubw := rtlReg cSubw
def rtlShlw := rtlReg cShlw
def rtlShrw := rtlReg cShrw
def rtlSarw := rtlReg cSarw
def rtlAddiw := rtlImm cAddw
def rtlShliw := rtlImm cShlw
def rtlShriw := rtlImm cShrw
def rtlSariw := rtlImm cSarw
def rtlMuluLo := rtlReg cMuluLo
def rtlMuluHi := rtlReg cMuluHi
def rtlMulsHi := rtlReg cMulsHi
def rtlMulw := rtlReg cMulw
def rtlDivuQ := rtlReg cDivuQ
def rtlDivuR := rtlReg cDivuR
def rtlDivsQ := rtlReg cDivsQ
def rtlDivsR := rtlReg cDivsR

def rtlSetrelop (relop : Relop) (dest src1 src2 : Reg) (n : State) : State :=
  n.set dest ((BitVec.ofBool (interpretRelop relop (n.get src1) (n.get src2))).zeroExtend 64)

def rtlSetrelopi (relop : Relop) (dest src1 : Reg) (imm : Word) (n : State) : State :=
  n.set dest ((BitVec.ofBool (interpretRelop relop (n.get src1) imm)).zeroExtend 64)

def rtlLi (dest : Reg) (imm : Word) : State → State := rtlAddi dest .rz imm

def rtlMv (dest src1 : Reg) : State → State := rtlAddi dest src1 0#64

def rtlNot (dest src1 : Reg) : State → State := rtlXori dest src1 (-1#64)

/-- `width` is less than the size of a word. -/
def rtlSext (dest src1 : Reg) (width : Nat) (n : State) : State :=
  let bits := BitVec.ofNat 64 ((8 - width) * 8)
  rtlSari dest dest bits (rtlShli dest src1 bits n)

def rtlZext (dest src1 : Reg) (width : Nat) (n : State) : State :=
  let bits := BitVec.ofNat 64 ((8 - width) * 8)
  rtlShri dest dest bits (rtlShli dest src1 bits n)

def rtlJ (target : Word) (n : State) : State := { n with pc := target }

def rtlJr (target : Reg) (n : State) : State := { n with pc := n.get target }

def rtlJrelop (relop : Relop) (src1 src2 : Reg) (target : Word) (n : State) : State :=
  rtlJ (if interpretRelop relop (n.get src1) (n.get src2) then target else n.s.snpc) n

end State

end Oscpu.Nemu
