import Oscpu.Nemu.Pattern
import Oscpu.Nemu.Rtl

/-!
# Decoding: `decode.c` and the `decode.h` of `rvi`, `rvm` and `rvc`

Frequent special cases have helpers of their own, taken over from the compressed instructions or made
up as pseudo instructions: the tables look for them first. The rows of the other extensions come
behind those of RV64IM or belong to other opcodes; they lead to `other` here.
-/

namespace Oscpu.Nemu

open Oscpu.Rtl

/-- `EXEC_ID_*`. -/
inductive ExecId where
  | inv | nemuTrap | fenceI | fence | system
  | pRet | pLi0 | pLi1 | lui | auipc | jal
  | ld | lw | lh | lb | lwu | lhu | lbu | sd | sw | sh | sb
  | cJ | pJal | cJr | cBeqz | cBnez | cMv | pSextW
  | add | sll | srl | slt | sltu | xor | or | sub | sra | and
  | addi | slli | srli | slti | sltui | xori | ori | srai | andi
  | addw | sllw | srlw | subw | sraw | addiw | slliw | srliw | sraiw
  | jalr | beq | bne | blt | bge | bltu | bgeu
  | mul | mulh | mulhu | mulhsu | div | divu | rem | remu
  | mulw | divw | divuw | remw | remuw
  | cLi | cAddi | cSlli | cSrli | cSrai | cAndi | cAddiw
  | cAdd | cAnd | cOr | cXor | cSub | cAddw | cSubw
  | pBlez | pBgez | pBltz | pBgtz | pInc | pDec
  | other
  deriving DecidableEq

namespace Decode

variable (s : Decode)

/-! ## The fields of `isa.instr` -/

def rd : RegId := s.instr.extractLsb' 7 5
def rs1 : RegId := s.instr.extractLsb' 15 5
def rs2 : RegId := s.instr.extractLsb' 20 5
def funct3 : BitVec 3 := s.instr.extractLsb' 12 3
def csr : BitVec 12 := s.instr.extractLsb' 20 12

/-! ## Operands -/

/-- `decode_op_i`. -/
def opI (op : Operand) (val : Word) : Operand := { op with imm := val }

/-- `decode_op_r`. -/
def opR (op : Operand) (val : RegId) (loadVal : Bool) : Operand :=
  { op with preg := if !loadVal && val == 0#5 then .zeroNull else .gpr val }

def decodeI : Decode :=
  { s with
    src1 := opR s.src1 s.rs1 true
    src2 := opI s.src2 ((s.instr.extractLsb' 20 12).signExtend 64)
    dest := opR s.dest s.rd false }

def decodeR : Decode :=
  { s with
    src1 := opR s.src1 s.rs1 true
    src2 := opR s.src2 s.rs2 true
    dest := opR s.dest s.rd false }

def decodeU : Decode :=
  { s with
    src1 := opI s.src1 ((s.instr.extractLsb' 12 20).signExtend 64 <<< 12)
    dest := opR s.dest s.rd false }

def decodeAuipc : Decode :=
  let s := s.decodeU
  { s with src1 := opI s.src1 (s.src1.imm + s.pc) }

def decodeJ : Decode :=
  let offset := ((s.instr.extractLsb' 31 1).signExtend 64 <<< 20) |||
    ((s.instr.extractLsb' 12 8).zeroExtend 64 <<< 12) |||
    ((s.instr.extractLsb' 20 1).zeroExtend 64 <<< 11) |||
    ((s.instr.extractLsb' 21 10).zeroExtend 64 <<< 1)
  { s with
    src1 := opI s.src1 (s.pc + offset)
    dest := opR s.dest s.rd false
    src2 := opI s.src2 s.snpc }

def decodeB : Decode :=
  let offset := ((s.instr.extractLsb' 31 1).signExtend 64 <<< 12) |||
    ((s.instr.extractLsb' 7 1).zeroExtend 64 <<< 11) |||
    ((s.instr.extractLsb' 25 6).zeroExtend 64 <<< 5) |||
    ((s.instr.extractLsb' 8 4).zeroExtend 64 <<< 1)
  { s with
    dest := opI s.dest (s.pc + offset)
    src1 := opR s.src1 s.rs1 true
    src2 := opR s.src2 s.rs2 true }

def decodeS : Decode :=
  let simm := ((s.instr.extractLsb' 25 7).signExtend 64 <<< 5) |||
    (s.instr.extractLsb' 7 5).zeroExtend 64
  { s with
    src1 := opR s.src1 s.rs1 true
    src2 := opI s.src2 simm
    dest := opR s.dest s.rs2 true }

def decodeCsr : Decode :=
  { s with
    src1 := opR s.src1 s.rs1 true
    src2 := opI s.src2 (s.csr.zeroExtend 64)
    dest := opR s.dest s.rd false }

/-! ## Tables -/

/-- `translate` is whether `isa_mmu_state` is `MMU_TRANSLATE`. -/
def tableLoad (translate : Bool) : ExecId :=
  if translate then .other
  else dispatch s.instr .inv
    [("??????? ????? ????? 000 ????? ????? ??", .lb),
     ("??????? ????? ????? 001 ????? ????? ??", .lh),
     ("??????? ????? ????? 010 ????? ????? ??", .lw),
     ("??????? ????? ????? 011 ????? ????? ??", .ld),
     ("??????? ????? ????? 100 ????? ????? ??", .lbu),
     ("??????? ????? ????? 101 ????? ????? ??", .lhu),
     ("??????? ????? ????? 110 ????? ????? ??", .lwu)]

def tableStore (translate : Bool) : ExecId :=
  if translate then .other
  else dispatch s.instr .inv
    [("??????? ????? ????? 000 ????? ????? ??", .sb),
     ("??????? ????? ????? 001 ????? ????? ??", .sh),
     ("??????? ????? ????? 010 ????? ????? ??", .sw),
     ("??????? ????? ????? 011 ????? ????? ??", .sd)]

def tableAddiDispatch : ExecId := dispatch s.instr .inv
  [("0000000 00000 00000 ??? ????? ????? ??", .pLi0),
   ("0000000 00001 00000 ??? ????? ????? ??", .pLi1),
   ("??????? ????? 00000 ??? ????? ????? ??", .cLi),
   ("0000000 00000 ????? ??? ????? ????? ??", .cMv),
   ("??????? ????? ????? ??? ????? ????? ??", .addi)]

def tableCAddiDispatch : ExecId :=
  if s.src2.imm == 1#64 then .pInc
  else if s.src2.imm == -1#64 then .pDec
  else .cAddi

/-- The rows for the other words, of RVB, are left out; none of them is RV64IM. -/
def tableOpImm : ExecId :=
  let rows := dispatch s.instr .other
    [("??????? ????? ????? 000 ????? ????? ??", s.tableAddiDispatch),
     ("??????? ????? ????? 010 ????? ????? ??", .slti),
     ("??????? ????? ????? 011 ????? ????? ??", .sltui),
     ("??????? ????? ????? 100 ????? ????? ??", .xori),
     ("??????? ????? ????? 110 ????? ????? ??", .ori),
     ("??????? ????? ????? 111 ????? ????? ??", .andi),
     ("000000? ????? ????? 001 ????? ????? ??", .slli),
     ("000000? ????? ????? 101 ????? ????? ??", .srli),
     ("010000? ????? ????? 101 ????? ????? ??", .srai)]
  if s.rd == s.rs1 then dispatch s.instr rows
    [("??????? ????? ????? 000 ????? ????? ??", s.tableCAddiDispatch),
     ("??????? ????? ????? 111 ????? ????? ??", .cAndi),
     ("000000? ????? ????? 001 ????? ????? ??", .cSlli),
     ("010000? ????? ????? 101 ????? ????? ??", .cSrai),
     ("000000? ????? ????? 101 ????? ????? ??", .cSrli)]
  else rows

def tableOpImm32 : ExecId :=
  let rows := dispatch s.instr .other
    [("0000000 00000 ????? 000 ????? ????? ??", .pSextW),
     ("??????? ????? ????? 000 ????? ????? ??", .addiw),
     ("0000000 ????? ????? 001 ????? ????? ??", .slliw),
     ("0000000 ????? ????? 101 ????? ????? ??", .srliw),
     ("0100000 ????? ????? 101 ????? ????? ??", .sraiw)]
  if s.rd == s.rs1 then dispatch s.instr rows
    [("??????? ????? ????? 000 ????? ????? ??", .cAddiw)]
  else rows

def tableOp : ExecId :=
  let rows := dispatch s.instr .other
    [("0000000 ????? ????? 000 ????? ????? ??", .add),
     ("0000000 ????? ????? 001 ????? ????? ??", .sll),
     ("0000000 ????? ????? 010 ????? ????? ??", .slt),
     ("0000000 ????? ????? 011 ????? ????? ??", .sltu),
     ("0000000 ????? ????? 100 ????? ????? ??", .xor),
     ("0000000 ????? ????? 101 ????? ????? ??", .srl),
     ("0000000 ????? ????? 110 ????? ????? ??", .or),
     ("0000000 ????? ????? 111 ????? ????? ??", .and),
     ("0100000 ????? ????? 000 ????? ????? ??", .sub),
     ("0100000 ????? ????? 101 ????? ????? ??", .sra)]
  if s.rd == s.rs1 then dispatch s.instr rows
    [("0000000 ????? ????? 000 ????? ????? ??", .cAdd),
     ("0100000 ????? ????? 000 ????? ????? ??", .cSub),
     ("0000000 ????? ????? 100 ????? ????? ??", .cXor),
     ("0000000 ????? ????? 110 ????? ????? ??", .cOr),
     ("0000000 ????? ????? 111 ????? ????? ??", .cAnd)]
  else rows

def tableOp32 : ExecId :=
  let rows := dispatch s.instr .other
    [("0000000 ????? ????? 000 ????? ????? ??", .addw),
     ("0100000 ????? ????? 000 ????? ????? ??", .subw),
     ("0000000 ????? ????? 001 ????? ????? ??", .sllw),
     ("0000000 ????? ????? 101 ????? ????? ??", .srlw),
     ("0100000 ????? ????? 101 ????? ????? ??", .sraw)]
  if s.rd == s.rs1 then dispatch s.instr rows
    [("0000000 ????? ????? 000 ????? ????? ??", .cAddw),
     ("0100000 ????? ????? 000 ????? ????? ??", .cSubw)]
  else rows

def tableBranch : ExecId := dispatch s.instr .inv
  [("??????? 00000 ????? 000 ????? ????? ??", .cBeqz),
   ("??????? 00000 ????? 001 ????? ????? ??", .cBnez),
   ("??????? 00000 ????? 100 ????? ????? ??", .pBltz),
   ("??????? 00000 ????? 101 ????? ????? ??", .pBgez),
   ("??????? ????? 00000 100 ????? ????? ??", .pBgtz),
   ("??????? ????? 00000 101 ????? ????? ??", .pBlez),
   ("??????? ????? ????? 000 ????? ????? ??", .beq),
   ("??????? ????? ????? 001 ????? ????? ??", .bne),
   ("??????? ????? ????? 100 ????? ????? ??", .blt),
   ("??????? ????? ????? 101 ????? ????? ??", .bge),
   ("??????? ????? ????? 110 ????? ????? ??", .bltu),
   ("??????? ????? ????? 111 ????? ????? ??", .bgeu)]

def tableJalDispatch : ExecId := dispatch s.instr .inv
  [("??????? ????? ????? ??? 00000 ????? ??", .cJ),
   ("??????? ????? ????? ??? 00001 ????? ??", .pJal),
   ("??????? ????? ????? ??? ????? ????? ??", .jal)]

def tableJalrDispatch : ExecId := dispatch s.instr .inv
  [("0000000 00000 00001 ??? 00000 ????? ??", .pRet),
   ("0000000 00000 ????? ??? 00000 ????? ??", .cJr),
   ("??????? ????? ????? ??? ????? ????? ??", .jalr)]

def tableMemFence : ExecId := dispatch s.instr .inv
  [("??????? ????? ????? 000 ????? ????? ??", .fence),
   ("??????? ????? ????? 001 ????? ????? ??", .fenceI)]

def rvmRows : List (String × ExecId) :=
  [("??????? ????? ????? 000 ????? ????? ??", .mul),
   ("??????? ????? ????? 001 ????? ????? ??", .mulh),
   ("??????? ????? ????? 010 ????? ????? ??", .mulhsu),
   ("??????? ????? ????? 011 ????? ????? ??", .mulhu),
   ("??????? ????? ????? 100 ????? ????? ??", .div),
   ("??????? ????? ????? 101 ????? ????? ??", .divu),
   ("??????? ????? ????? 110 ????? ????? ??", .rem),
   ("??????? ????? ????? 111 ????? ????? ??", .remu)]

def tableRvm : ExecId := dispatch s.instr .inv rvmRows

def rvm32Rows : List (String × ExecId) :=
  [("??????? ????? ????? 000 ????? ????? ??", .mulw),
   ("??????? ????? ????? 100 ????? ????? ??", .divw),
   ("??????? ????? ????? 101 ????? ????? ??", .divuw),
   ("??????? ????? ????? 110 ????? ????? ??", .remw),
   ("??????? ????? ????? 111 ????? ????? ??", .remuw)]

def tableRvm32 : ExecId := dispatch s.instr .inv rvm32Rows

/-- `def_INSTR_IDTAB`: the operands, then the table. -/
def idtab (id : Decode → Decode) (tab : Decode → ExecId) : Decode × ExecId := (id s, tab (id s))

def mainRows (translate : Bool) : List (String × (Decode × ExecId)) :=
  [("??????? ????? ????? ??? ????? 00000 ??", s.idtab decodeI (tableLoad · translate)),
   ("??????? ????? ????? ??? ????? 00001 ??", (s, .other)),
   ("??????? ????? ????? ??? ????? 00011 ??", s.idtab decodeI tableMemFence),
   ("??????? ????? ????? ??? ????? 00100 ??", s.idtab decodeI tableOpImm),
   ("??????? ????? ????? ??? ????? 00101 ??", s.idtab decodeAuipc fun _ => .auipc),
   ("??????? ????? ????? ??? ????? 00110 ??", s.idtab decodeI tableOpImm32),
   ("??????? ????? ????? ??? ????? 01000 ??", s.idtab decodeS (tableStore · translate)),
   ("??????? ????? ????? ??? ????? 01001 ??", (s, .other)),
   ("??????? ????? ????? ??? ????? 01011 ??", (s, .other)),
   ("0000001 ????? ????? ??? ????? 01100 ??", s.idtab decodeR tableRvm),
   ("??????? ????? ????? ??? ????? 01100 ??", s.idtab decodeR tableOp),
   ("??????? ????? ????? ??? ????? 01101 ??", s.idtab decodeU fun _ => .lui),
   ("0000001 ????? ????? ??? ????? 01110 ??", s.idtab decodeR tableRvm32),
   ("??????? ????? ????? ??? ????? 01110 ??", s.idtab decodeR tableOp32),
   ("??????? ????? ????? ??? ????? 10000 ??", (s, .other)),
   ("??????? ????? ????? ??? ????? 10001 ??", (s, .other)),
   ("??????? ????? ????? ??? ????? 10010 ??", (s, .other)),
   ("??????? ????? ????? ??? ????? 10011 ??", (s, .other)),
   ("??????? ????? ????? ??? ????? 10100 ??", (s, .other)),
   ("??????? ????? ????? ??? ????? 11000 ??", s.idtab decodeB tableBranch),
   ("??????? ????? ????? ??? ????? 11001 ??", s.idtab decodeI tableJalrDispatch),
   ("??????? ????? ????? ??? ????? 11010 ??", (s, .nemuTrap)),
   ("??????? ????? ????? ??? ????? 11011 ??", s.idtab decodeJ tableJalDispatch),
   ("??????? ????? ????? ??? ????? 11100 ??", s.idtab decodeCsr fun _ => .system)]

/-- `def_THelper(main)`. -/
def tableMain (translate : Bool) : Decode × ExecId :=
  dispatch s.instr (s, .inv) (s.mainRows translate)

end Decode

end Oscpu.Nemu
