import Oscpu.Rtl.Config

/-!
# Instruction fields and the part of `idu` both cores share

The first `always` block of `idu.sv` (register ids, write enable, immediate) is the same in both
cores, and so is the second one (operation and operand selection) outside system instructions,
whose row is a parameter here.
-/

namespace Oscpu.Rtl

section

variable (ins : Ins)

def func7 : BitVec 7 := ins.extractLsb' 25 7
def rs2id : RegId := ins.extractLsb' 20 5
def rs1id : RegId := ins.extractLsb' 15 5
def func3 : BitVec 3 := ins.extractLsb' 12 3
def rdid : RegId := ins.extractLsb' 7 5
def opcode : BitVec 7 := ins.extractLsb' 0 7

def immI : Word := (ins.extractLsb' 20 12).signExtend 64
def immS : Word := (ins.extractLsb' 25 7 ++ ins.extractLsb' 7 5).signExtend 64
def immB : Word :=
  (ins.extractLsb' 31 1 ++ ins.extractLsb' 7 1 ++ ins.extractLsb' 25 6 ++ ins.extractLsb' 8 4 ++
    0#1).signExtend 64
def immU : Word := (ins.extractLsb' 12 20 ++ 0#12).signExtend 64
def immJ : Word :=
  (ins.extractLsb' 31 1 ++ ins.extractLsb' 12 8 ++ ins.extractLsb' 20 1 ++ ins.extractLsb' 21 10 ++
    0#1).signExtend 64

/-- `o_imm`. -/
def oImm : Word :=
  let op := opcode ins
  if op = TYPE_S then immS ins
  else if op = TYPE_B then immB ins
  else if op = TYPE_I || op = TYPE_I_W || op = TYPE_I_LOAD || op = TYPE_I_JALR || op = TYPE_CSR then
    immI ins
  else if op = TYPE_U_LUI || op = TYPE_U_AUIPC then immU ins
  else if op = TYPE_J then immJ ins
  else 0#64

/-- `o_rs1id`. -/
def oRs1id : RegId :=
  let op := opcode ins
  if op = TYPE_R || op = TYPE_R_W || op = TYPE_S || op = TYPE_B || op = TYPE_I || op = TYPE_I_W ||
      op = TYPE_I_LOAD || op = TYPE_I_JALR || op = TYPE_CSR then rs1id ins
  else 0#5

/-- `o_rs2id`. -/
def oRs2id : RegId :=
  let op := opcode ins
  if op = TYPE_R || op = TYPE_R_W || op = TYPE_S || op = TYPE_B then rs2id ins else 0#5

/-- `o_rdid`. -/
def oRdid : RegId :=
  let op := opcode ins
  if op = TYPE_R || op = TYPE_R_W || op = TYPE_I || op = TYPE_I_W || op = TYPE_I_LOAD ||
      op = TYPE_I_JALR || op = TYPE_CSR || op = TYPE_U_LUI || op = TYPE_U_AUIPC || op = TYPE_J then
    rdid ins
  else 0#5

/-- `o_rdwen`. -/
def oRdwen : Bool :=
  let op := opcode ins
  (op = TYPE_R || op = TYPE_R_W || op = TYPE_I || op = TYPE_I_W || op = TYPE_I_LOAD ||
    op = TYPE_I_JALR || op = TYPE_U_LUI || op = TYPE_U_AUIPC || op = TYPE_J) && !(oRdid ins == 0#5)

/-- `o_exopt`; the argument is the row of system instructions. -/
def oExopt (csrOpt : BitVec 6) : BitVec 6 :=
  let op := opcode ins
  let f3 := func3 ins
  let f7 := func7 ins
  if op = TYPE_CSR then csrOpt
  else if op = TYPE_I then
    if f3 = FUNC3_ADD_SUB_MUL then EXU_ADD
    else if f3 = FUNC3_SLL_MULH then EXU_SLL
    else if f3 = FUNC3_SRL_SRA_DIVU then
      if f7.extractLsb' 1 6 = 0b000000#6 then EXU_SRL
      else if f7.extractLsb' 1 6 = 0b010000#6 then EXU_SRA
      else EXU_ADD
    else if f3 = FUNC3_XOR_DIV then EXU_XOR
    else if f3 = FUNC3_OR_REM then EXU_OR
    else if f3 = FUNC3_AND_REMU then EXU_AND
    else if f3 = FUNC3_SLT_MULHSU then EXU_SLT
    else EXU_SLTU
  else if op = TYPE_I_W then
    if f3 = FUNC3_ADD_SUB_MUL then EXU_ADDW
    else if f3 = FUNC3_SLL_MULH then EXU_SLLW
    else if f3 = FUNC3_SRL_SRA_DIVU then
      if f7 = 0b0000000#7 then EXU_SRLW else if f7 = 0b0100000#7 then EXU_SRAW else EXU_ADD
    else EXU_ADD
  else if op = TYPE_R then
    if f3 = FUNC3_ADD_SUB_MUL then
      if f7 = 0b0000000#7 then EXU_ADD else if f7 = 0b0000001#7 then EXU_MUL
      else if f7 = 0b0100000#7 then EXU_SUB else EXU_ADD
    else if f3 = FUNC3_SRL_SRA_DIVU then
      if f7 = 0b0000000#7 then EXU_SRL else if f7 = 0b0000001#7 then EXU_DIVU
      else if f7 = 0b0100000#7 then EXU_SRA else EXU_ADD
    else if f3 = FUNC3_SLL_MULH then
      if f7 = 0b0000000#7 then EXU_SLL else if f7 = 0b0000001#7 then EXU_MULH else EXU_ADD
    else if f3 = FUNC3_XOR_DIV then
      if f7 = 0b0000000#7 then EXU_XOR else if f7 = 0b0000001#7 then EXU_DIV else EXU_ADD
    else if f3 = FUNC3_OR_REM then
      if f7 = 0b0000000#7 then EXU_OR else if f7 = 0b0000001#7 then EXU_REM else EXU_ADD
    else if f3 = FUNC3_AND_REMU then
      if f7 = 0b0000000#7 then EXU_AND else if f7 = 0b0000001#7 then EXU_REMU else EXU_ADD
    else if f3 = FUNC3_SLT_MULHSU then
      if f7 = 0b0000000#7 then EXU_SLT else if f7 = 0b0000001#7 then EXU_MULHSU else EXU_ADD
    else
      if f7 = 0b0000000#7 then EXU_SLTU else if f7 = 0b0000001#7 then EXU_MULHU else EXU_ADD
  else if op = TYPE_R_W then
    if f3 = FUNC3_ADD_SUB_MUL then
      if f7 = 0b0000000#7 then EXU_ADDW else if f7 = 0b0100000#7 then EXU_SUBW
      else if f7 = 0b0000001#7 then EXU_MULW else EXU_ADD
    else if f3 = FUNC3_SRL_SRA_DIVU then
      if f7 = 0b0000000#7 then EXU_SRLW else if f7 = 0b0100000#7 then EXU_SRAW
      else if f7 = 0b0000001#7 then EXU_DIVUW else EXU_ADD
    else if f3 = FUNC3_XOR_DIV then EXU_DIVW
    else if f3 = FUNC3_OR_REM then EXU_REMW
    else if f3 = FUNC3_AND_REMU then EXU_REMUW
    else if f3 = FUNC3_SLL_MULH then EXU_SLLW
    else EXU_ADD
  else EXU_ADD

/-- `o_src_sel`; the argument is the row of system instructions. -/
def oSrcSel (csrSel : BitVec 2) : BitVec 2 :=
  let op := opcode ins
  if op = TYPE_CSR then csrSel
  else if op = TYPE_I_JALR || op = TYPE_J then EXU_SEL_PC4
  else if op = TYPE_U_AUIPC then EXU_SEL_PCI
  else if op = TYPE_R || op = TYPE_R_W then EXU_SEL_REG
  else EXU_SEL_IMM

def oLsuLden : Bool := opcode ins == TYPE_I_LOAD
def oLsuSten : Bool := opcode ins == TYPE_S
def oJal : Bool := opcode ins == TYPE_J
def oJalr : Bool := opcode ins == TYPE_I_JALR
def oBrch : Bool := opcode ins == TYPE_B

theorem oRdwen_ne_zero {ins : Ins} (h : oRdwen ins = true) : oRdid ins ≠ 0#5 := by
  unfold oRdwen at h
  simp only [Bool.and_eq_true, Bool.not_eq_true', beq_eq_false_iff_ne] at h
  exact h.2

end

end Oscpu.Rtl
