import Oscpu.Nemu.Priv

/-!
# Executing instructions: the `exec.h` files and `cpu-exec.c`

One helper for each `EXEC_ID`, then the fetch and the loop of `cpu_exec` for one instruction, which
is all that difftest asks for.
-/

namespace Oscpu.Nemu

open Oscpu.Rtl

namespace State

variable (n : State)

/-- `id_src1->imm` and so on. -/
def imm1 : Word := n.s.src1.imm
def imm2 : Word := n.s.src2.imm
def immDest : Word := n.s.dest.imm

/-! ## `rvi` -/

def execAdd : State := n.rtlAdd n.ddest n.dsrc1 n.dsrc2
def execSub : State := n.rtlSub n.ddest n.dsrc1 n.dsrc2
def execSll : State := n.rtlShl n.ddest n.dsrc1 n.dsrc2
def execSra : State := n.rtlSar n.ddest n.dsrc1 n.dsrc2
def execSrl : State := n.rtlShr n.ddest n.dsrc1 n.dsrc2
def execSlt : State := n.rtlSetrelop .lt n.ddest n.dsrc1 n.dsrc2
def execSltu : State := n.rtlSetrelop .ltu n.ddest n.dsrc1 n.dsrc2
def execXor : State := n.rtlXor n.ddest n.dsrc1 n.dsrc2
def execOr : State := n.rtlOr n.ddest n.dsrc1 n.dsrc2
def execAnd : State := n.rtlAnd n.ddest n.dsrc1 n.dsrc2
def execAddi : State := n.rtlAddi n.ddest n.dsrc1 n.imm2
def execSlli : State := n.rtlShli n.ddest n.dsrc1 n.imm2
def execSrai : State := n.rtlSari n.ddest n.dsrc1 n.imm2
def execSrli : State := n.rtlShri n.ddest n.dsrc1 n.imm2
def execSlti : State := n.rtlSetrelopi .lt n.ddest n.dsrc1 n.imm2
def execSltui : State := n.rtlSetrelopi .ltu n.ddest n.dsrc1 n.imm2
def execXori : State := n.rtlXori n.ddest n.dsrc1 n.imm2
def execOri : State := n.rtlOri n.ddest n.dsrc1 n.imm2
def execAndi : State := n.rtlAndi n.ddest n.dsrc1 n.imm2
def execAuipc : State := n.rtlLi n.ddest n.imm1
def execLui : State := n.rtlLi n.ddest n.imm1
def execAddw : State := n.rtlAddw n.ddest n.dsrc1 n.dsrc2
def execSubw : State := n.rtlSubw n.ddest n.dsrc1 n.dsrc2
def execSllw : State := n.rtlShlw n.ddest n.dsrc1 n.dsrc2
def execSrlw : State := n.rtlShrw n.ddest n.dsrc1 n.dsrc2
def execSraw : State := n.rtlSarw n.ddest n.dsrc1 n.dsrc2
def execAddiw : State := n.rtlAddiw n.ddest n.dsrc1 n.imm2
def execSlliw : State := n.rtlShliw n.ddest n.dsrc1 n.imm2
def execSrliw : State := n.rtlShriw n.ddest n.dsrc1 n.imm2
def execSraiw : State := n.rtlSariw n.ddest n.dsrc1 n.imm2

def execJal : State := rtlJ n.imm1 (n.rtlLi n.ddest n.imm2)

/-- Bit 0 of the target is not cleared. -/
def execJalr : State := rtlJr .s0 (rtlLi n.ddest n.s.snpc (n.rtlAddi .s0 n.dsrc1 n.imm2))

def execBeq : State := n.rtlJrelop .eq n.dsrc1 n.dsrc2 n.immDest
def execBne : State := n.rtlJrelop .ne n.dsrc1 n.dsrc2 n.immDest
def execBlt : State := n.rtlJrelop .lt n.dsrc1 n.dsrc2 n.immDest
def execBge : State := n.rtlJrelop .ge n.dsrc1 n.dsrc2 n.immDest
def execBltu : State := n.rtlJrelop .ltu n.dsrc1 n.dsrc2 n.immDest
def execBgeu : State := n.rtlJrelop .geu n.dsrc1 n.dsrc2 n.immDest

def execLd : Exec State := n.rtlLms n.ddest n.dsrc1 n.imm2 8
def execLw : Exec State := n.rtlLms n.ddest n.dsrc1 n.imm2 4
def execLh : Exec State := n.rtlLms n.ddest n.dsrc1 n.imm2 2
def execLb : Exec State := n.rtlLms n.ddest n.dsrc1 n.imm2 1
def execLwu : Exec State := n.rtlLm n.ddest n.dsrc1 n.imm2 4
def execLhu : Exec State := n.rtlLm n.ddest n.dsrc1 n.imm2 2
def execLbu : Exec State := n.rtlLm n.ddest n.dsrc1 n.imm2 1
def execSd : Exec State := n.rtlSm n.ddest n.dsrc1 n.imm2 8
def execSw : Exec State := n.rtlSm n.ddest n.dsrc1 n.imm2 4
def execSh : Exec State := n.rtlSm n.ddest n.dsrc1 n.imm2 2
def execSb : Exec State := n.rtlSm n.ddest n.dsrc1 n.imm2 1

def execFence : State := n

/-- The trace cache that it flushes is not there. -/
def execFenceI : State := n

/-! ## `rvm` -/

def execMul : State := n.rtlMuluLo n.ddest n.dsrc1 n.dsrc2
def execMulh : State := n.rtlMulsHi n.ddest n.dsrc1 n.dsrc2
def execMulhu : State := n.rtlMuluHi n.ddest n.dsrc1 n.dsrc2

/-- From the unsigned product, less `dsrc2` when `dsrc1` is negative. -/
def execMulhsu : State :=
  let n := n.rtlSari .s0 n.dsrc1 63#64
  let n := n.rtlAnd .s0 n.dsrc2 .s0
  let n := n.rtlMuluHi .s1 n.dsrc1 n.dsrc2
  n.rtlSub n.ddest .s1 .s0

def execDiv : State :=
  if n.get n.dsrc2 == 0#64 then n.rtlLi n.ddest (~~~0#64)
  else if n.get n.dsrc1 == 0x8000000000000000#64 && n.get n.dsrc2 == ~~~0#64 then
    n.rtlMv n.ddest n.dsrc1
  else n.rtlDivsQ n.ddest n.dsrc1 n.dsrc2

def execDivu : State :=
  if n.get n.dsrc2 == 0#64 then n.rtlLi n.ddest (~~~0#64)
  else n.rtlDivuQ n.ddest n.dsrc1 n.dsrc2

def execRem : State :=
  if n.get n.dsrc2 == 0#64 then n.rtlMv n.ddest n.dsrc1
  else if n.get n.dsrc1 == 0x8000000000000000#64 && n.get n.dsrc2 == ~~~0#64 then
    n.rtlMv n.ddest .rz
  else n.rtlDivsR n.ddest n.dsrc1 n.dsrc2

def execRemu : State :=
  if n.get n.dsrc2 == 0#64 then n.rtlMv n.ddest n.dsrc1
  else n.rtlDivuR n.ddest n.dsrc1 n.dsrc2

def execMulw : State := n.rtlMulw n.ddest n.dsrc1 n.dsrc2

/-- `s0` is sign-extended, so that the test for an overflow never holds; nothing overflows in 64
bits. -/
def execDivw : State :=
  let n := (n.rtlSext .s0 n.dsrc1 4)
  let n := (n.rtlSext .s1 n.dsrc2 4)
  let n :=
    if n.get .s1 == 0#64 then n.rtlLi .s0 (~~~0#64)
    else if n.get .s0 == 0x80000000#64 && n.get .s1 == ~~~0#64 then n
    else n.rtlDivsQ .s0 .s0 .s1
  n.rtlSext n.ddest .s0 4

def execRemw : State :=
  let n := (n.rtlSext .s0 n.dsrc1 4)
  let n := (n.rtlSext .s1 n.dsrc2 4)
  let n :=
    if n.get .s1 == 0#64 then n
    else if n.get .s0 == 0x80000000#64 && n.get .s1 == ~~~0#64 then n.rtlMv .s0 .rz
    else n.rtlDivsR .s0 .s0 .s1
  n.rtlSext n.ddest .s0 4

def execDivuw : State :=
  let n := (n.rtlZext .s0 n.dsrc1 4)
  let n := (n.rtlZext .s1 n.dsrc2 4)
  let n :=
    if n.get .s1 == 0#64 then n.rtlLi .s0 (~~~0#64)
    else n.rtlDivuQ .s0 .s0 .s1
  n.rtlSext n.ddest .s0 4

def execRemuw : State :=
  let n := (n.rtlZext .s0 n.dsrc1 4)
  let n := (n.rtlZext .s1 n.dsrc2 4)
  let n :=
    if n.get .s1 == 0#64 then n
    else n.rtlDivuR .s0 .s0 .s1
  n.rtlSext n.ddest .s0 4

/-! ## `rvc`, as far as the words of 32 bits use it -/

def execCJ : State := rtlJ n.imm1 n
def execCJr : State := rtlJr n.dsrc1 n
def execCBeqz : State := n.rtlJrelop .eq n.dsrc1 .rz n.immDest
def execCBnez : State := n.rtlJrelop .ne n.dsrc1 .rz n.immDest
def execCLi : State := n.rtlLi n.ddest n.imm2
def execCAddi : State := n.rtlAddi n.ddest n.ddest n.imm2
def execCAddiw : State := n.rtlAddiw n.ddest n.ddest n.imm2
def execCSlli : State := n.rtlShli n.ddest n.ddest n.imm2
def execCSrli : State := n.rtlShri n.ddest n.ddest n.imm2
def execCSrai : State := n.rtlSari n.ddest n.ddest n.imm2
def execCAndi : State := n.rtlAndi n.ddest n.ddest n.imm2
def execCMv : State := n.rtlMv n.ddest n.dsrc1
def execCAdd : State := n.rtlAdd n.ddest n.ddest n.dsrc2
def execCAnd : State := n.rtlAnd n.ddest n.ddest n.dsrc2
def execCOr : State := n.rtlOr n.ddest n.ddest n.dsrc2
def execCXor : State := n.rtlXor n.ddest n.ddest n.dsrc2
def execCSub : State := n.rtlSub n.ddest n.ddest n.dsrc2
def execCAddw : State := n.rtlAddw n.ddest n.ddest n.dsrc2
def execCSubw : State := n.rtlSubw n.ddest n.ddest n.dsrc2

/-! ## `pseudo.h` -/

def execPSextW : State := n.rtlAddiw n.ddest n.dsrc1 0#64
def execPBlez : State := n.rtlJrelop .ge .rz n.dsrc2 n.immDest
def execPBgtz : State := n.rtlJrelop .lt .rz n.dsrc2 n.immDest
def execPBltz : State := n.rtlJrelop .lt n.dsrc1 .rz n.immDest
def execPBgez : State := n.rtlJrelop .ge n.dsrc1 .rz n.immDest
def execPJal : State := rtlJ n.imm1 (n.rtlLi (.gpr 1#5) n.imm2)
def execPRet : State := rtlJr (.gpr 1#5) n
def execPLi0 : State := n.rtlLi n.ddest 0#64
def execPLi1 : State := n.rtlLi n.ddest 1#64
def execPInc : State := n.rtlAddi n.ddest n.ddest 1#64
def execPDec : State := n.rtlSubi n.ddest n.ddest 1#64

/-! ## `special.h` -/

/-- `set_nemu_state`, then the end. -/
def halt (state : RunState) (ret : BitVec 32) : Jump :=
  .halt { n with nemuState := state, haltPc := n.s.pc, haltRet := ret }

/-- The words that `invalid_instr` prints are fetched. -/
def execInv : Exec State := do
  let _ ← n.vaddrIfetch n.s.pc 4
  let _ ← n.vaddrIfetch (n.s.pc + 4#64) 4
  throw (n.halt .abort (-1#32))

/-- The result is `$a0`. -/
def execNemuTrap : Exec State := throw (n.halt .ended ((n.get (.gpr 10#5)).setWidth 32))

/-! ## `cpu-exec.c` -/

/-- `g_exec_table`. -/
def ehelper : ExecId → Exec State
  | .inv => n.execInv
  | .nemuTrap => n.execNemuTrap
  | .fenceI => .ok n.execFenceI
  | .fence => .ok n.execFence
  | .system => n.system
  | .pRet => .ok n.execPRet
  | .pLi0 => .ok n.execPLi0
  | .pLi1 => .ok n.execPLi1
  | .lui => .ok n.execLui
  | .auipc => .ok n.execAuipc
  | .jal => .ok n.execJal
  | .ld => n.execLd
  | .lw => n.execLw
  | .lh => n.execLh
  | .lb => n.execLb
  | .lwu => n.execLwu
  | .lhu => n.execLhu
  | .lbu => n.execLbu
  | .sd => n.execSd
  | .sw => n.execSw
  | .sh => n.execSh
  | .sb => n.execSb
  | .cJ => .ok n.execCJ
  | .pJal => .ok n.execPJal
  | .cJr => .ok n.execCJr
  | .cBeqz => .ok n.execCBeqz
  | .cBnez => .ok n.execCBnez
  | .cMv => .ok n.execCMv
  | .pSextW => .ok n.execPSextW
  | .add => .ok n.execAdd
  | .sll => .ok n.execSll
  | .srl => .ok n.execSrl
  | .slt => .ok n.execSlt
  | .sltu => .ok n.execSltu
  | .xor => .ok n.execXor
  | .or => .ok n.execOr
  | .sub => .ok n.execSub
  | .sra => .ok n.execSra
  | .and => .ok n.execAnd
  | .addi => .ok n.execAddi
  | .slli => .ok n.execSlli
  | .srli => .ok n.execSrli
  | .slti => .ok n.execSlti
  | .sltui => .ok n.execSltui
  | .xori => .ok n.execXori
  | .ori => .ok n.execOri
  | .srai => .ok n.execSrai
  | .andi => .ok n.execAndi
  | .addw => .ok n.execAddw
  | .sllw => .ok n.execSllw
  | .srlw => .ok n.execSrlw
  | .subw => .ok n.execSubw
  | .sraw => .ok n.execSraw
  | .addiw => .ok n.execAddiw
  | .slliw => .ok n.execSlliw
  | .srliw => .ok n.execSrliw
  | .sraiw => .ok n.execSraiw
  | .jalr => .ok n.execJalr
  | .beq => .ok n.execBeq
  | .bne => .ok n.execBne
  | .blt => .ok n.execBlt
  | .bge => .ok n.execBge
  | .bltu => .ok n.execBltu
  | .bgeu => .ok n.execBgeu
  | .mul => .ok n.execMul
  | .mulh => .ok n.execMulh
  | .mulhu => .ok n.execMulhu
  | .mulhsu => .ok n.execMulhsu
  | .div => .ok n.execDiv
  | .divu => .ok n.execDivu
  | .rem => .ok n.execRem
  | .remu => .ok n.execRemu
  | .mulw => .ok n.execMulw
  | .divw => .ok n.execDivw
  | .divuw => .ok n.execDivuw
  | .remw => .ok n.execRemw
  | .remuw => .ok n.execRemuw
  | .cLi => .ok n.execCLi
  | .cAddi => .ok n.execCAddi
  | .cSlli => .ok n.execCSlli
  | .cSrli => .ok n.execCSrli
  | .cSrai => .ok n.execCSrai
  | .cAndi => .ok n.execCAndi
  | .cAddiw => .ok n.execCAddiw
  | .cAdd => .ok n.execCAdd
  | .cAnd => .ok n.execCAnd
  | .cOr => .ok n.execCOr
  | .cXor => .ok n.execCXor
  | .cSub => .ok n.execCSub
  | .cAddw => .ok n.execCAddw
  | .cSubw => .ok n.execCSubw
  | .pBlez => .ok n.execPBlez
  | .pBgez => .ok n.execPBgez
  | .pBltz => .ok n.execPBltz
  | .pBgtz => .ok n.execPBgtz
  | .pInc => .ok n.execPInc
  | .pDec => .ok n.execPDec
  | .other => .error .unmodelled

/-- `isa_fetch_decode`: two halves of a word. A word with other lowest bits is a compressed
instruction. -/
def isaFetchDecode : Exec (State × ExecId) := do
  let lo ← n.vaddrIfetch n.s.snpc 2
  let s := { n.s with snpc := n.s.snpc + 2#64, instr := lo.setWidth 32 }
  if s.instr.extractLsb' 0 2 != 3#2 then throw .unmodelled
  let n := { n with s := s }
  let hi ← n.vaddrIfetch s.snpc 2
  let s := { s with snpc := s.snpc + 2#64, instr := s.instr ||| hi.setWidth 32 <<< 16 }
  let (s, idx) := s.tableMain n.dataMmuState
  return ({ n with s := s }, idx)

def fetchDecode (pc : Word) : Exec (State × ExecId) :=
  isaFetchDecode { n with s := { n.s with pc := pc, snpc := pc } }

/-- `execute(1)`. -/
def execute : Exec State := do
  let (n, idx) ← n.fetchDecode n.pc
  ehelper { n with pc := n.s.snpc } idx

/-- `cpu_exec(1)`: none if the process dies or does something that is left out here. -/
def cpuExec : Option State :=
  if n.nemuState == .ended || n.nemuState == .abort then some n
  else
    match execute { n with nemuState := .running } with
    | .ok n => some { n with nemuState := .stop }
    | .error (.halt n) => some n
    | .error (.exception cause n) =>
      match n.raiseIntr cause n.s.pc with
      | .ok (pc, n) => some { n with pc := pc, nemuState := .stop }
      | .error _ => none
    | .error _ => none

end State

end Oscpu.Nemu
