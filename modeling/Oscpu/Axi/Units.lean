import Oscpu.Rtl.Alu
import Oscpu.Rtl.Decode
import Oscpu.Rtl.Mux
import Oscpu.Rtl.Reg

/-!
# The combinational units of `cpu_axi_diff`

`idu`, `exu`, `bru`, `lsu` and `wbu` as functions of their inputs. `exu` and `bru` each declare a
variable with an initialiser (`logic [63:0] csrrci = csr_data & ~csr_wdata`): that is no continuous
assignment, the variable keeps the value it is given at time zero. It is an argument here, and a
register that nothing writes in the state of the core.
-/

namespace Oscpu.Axi

open Oscpu.Rtl

/-! ## idu -/

/-- `csr` of `idu`. -/
def csrId (ins : Ins) : BitVec 12 := ins.extractLsb' 20 12

/-- `o_exopt` of `idu`. -/
def iduExopt (ins : Ins) : BitVec 6 :=
  let f3 := func3 ins
  oExopt ins <|
    if f3 = FUNC3_CSRRW || f3 = FUNC3_CSRRWI then EXU_CSRRW
    else if f3 = FUNC3_CSRRS || f3 = FUNC3_CSRRSI then EXU_OR
    else if f3 = FUNC3_CSRRC || f3 = FUNC3_CSRRCI then EXU_AND
    else EXU_ADD

/-- `o_src_sel` of `idu`. -/
def iduSrcSel (ins : Ins) : BitVec 2 :=
  let f3 := func3 ins
  oSrcSel ins <|
    if f3 = FUNC3_CSRRW || f3 = FUNC3_CSRRS || f3 = FUNC3_CSRRC then EXU_SEL_REG else EXU_SEL_IMM

def isCsr (ins : Ins) : Bool := opcode ins == TYPE_CSR

/-- `is_ecall`, which is `except_en`. -/
def isEcall (ins : Ins) : Bool := isCsr ins && csrId ins == 0b000000000000#12

/-- `is_mret`, which is `ins_mret`. -/
def isMret (ins : Ins) : Bool := isCsr ins && csrId ins == 0b001100000010#12

/-- `except_code`. -/
def exceptCode (ins : Ins) : Word := if isEcall ins then 11#64 else 0#64

/-- `csr_wdata`, from the raw register-file output `rf_rs1`. -/
def csrWdata (ins : Ins) (rfRs1 : Word) : Word :=
  let f3 := func3 ins
  if isCsr ins && (f3 = FUNC3_CSRRWI || f3 = FUNC3_CSRRSI || f3 = FUNC3_CSRRCI) then
    (oRs1id ins).zeroExtend 64
  else rfRs1

/-- `csr_choose`: one bit each for read-write, read-set and read-clear. -/
def csrChoose (ins : Ins) : BitVec 3 :=
  let f3 := func3 ins
  let bit (b : Bool) : BitVec 1 := BitVec.ofBool (isCsr ins && b)
  bit (f3 = FUNC3_CSRRW || f3 = FUNC3_CSRRWI) ++ bit (f3 = FUNC3_CSRRS || f3 = FUNC3_CSRRSI) ++
    bit (f3 = FUNC3_CSRRC || f3 = FUNC3_CSRRCI)

/-! ## exu -/

/-- `o_exu_res`. -/
def exu (pc rs1 rs2 imm : Word) (srcSel : BitVec 2) (exopt : BitVec 6) : Word :=
  let src1 := stlMuxDefault srcSel 0#64 (concatLut
    [(EXU_SEL_REG, rs1), (EXU_SEL_IMM, rs1), (EXU_SEL_PC4, pc), (EXU_SEL_PCI, pc)])
  let src2 := stlMuxDefault srcSel 0#64 (concatLut
    [(EXU_SEL_REG, rs2), (EXU_SEL_IMM, imm), (EXU_SEL_PC4, 4#64), (EXU_SEL_PCI, imm)])
  alu src1 src2 exopt

/-- `csr_data_res`. -/
def csrDataRes (choose : BitVec 3) (csrData wdata csrrci : Word) : Word :=
  if choose = 0b100#3 then wdata
  else if choose = 0b010#3 then csrData ||| wdata
  else if choose = 0b001#3 then csrData.extractLsb' 5 59 ++ csrrci.extractLsb' 0 5
  else 0#64

/-- `csr_wen`. -/
def csrWen (choose : BitVec 3) : Bool := choose ≠ 0#3

/-- `csr_to_rf`. -/
def csrToRf (choose : BitVec 3) : Bool := choose.getLsbD 1 || choose.getLsbD 0

/-! ## bru -/

/-- `branch` of `bru`: the multiplexer `mux_branch` over the bits of two subtractions. -/
def branch (bfun3 : BitVec 3) (rs1 rs2 : Word) : Bool :=
  let subRes := rs1 - rs2
  let supersubResbit := ((0#1 ++ rs1) - (0#1 ++ rs2)).extractLsb' 64 1
  let orSub : BitVec 1 := if subRes = 0#64 then 0#1 else 1#1
  let sign := subRes.extractLsb' 63 1
  stlMuxDefault bfun3 0#1 (concatLut
    [(FUNC3_BEQ, ~~~orSub), (FUNC3_BNE, orSub), (FUNC3_BLT, sign), (FUNC3_BGE, ~~~sign),
      (FUNC3_BLTU, supersubResbit), (FUNC3_BGEU, ~~~supersubResbit)]) == 1#1

/-- `jump` for the instruction word in ID. -/
def jump (ins : Ins) (rs1 rs2 : Word) : Bool :=
  (if oBrch ins then branch (func3 ins) rs1 rs2 else false) || oJal ins || oJalr ins

/-- `jalr_bp`. -/
def jalrBp (ins : Ins) : Bool := oJalr ins && oRs1id ins == oRdid ins

/-- `jump_pc`, with the saved target `jalr_bp_tar_o`. -/
def jumpPc (ins : Ins) (pc rs1 tarO : Word) : Word :=
  if oJalr ins then if jalrBp ins then tarO else rs1 + oImm ins else pc + oImm ins

/-! ## lsu -/

def MTIME : Word := 0x200bff8#64
def MTIMECMP : Word := 0x2004000#64

def SIZE_B : BitVec 2 := 0b00#2
def SIZE_H : BitVec 2 := 0b01#2
def SIZE_W : BitVec 2 := 0b10#2
def SIZE_D : BitVec 2 := 0b11#2

/-- `mem_size`. -/
def memSize (f3 : BitVec 3) : BitVec 2 :=
  if f3 = FUNC3_LB_SB then SIZE_B
  else if f3 = FUNC3_LH_SH then SIZE_H
  else if f3 = FUNC3_LW_SW then SIZE_W
  else if f3 = FUNC3_LD_SD then SIZE_D
  else if f3 = FUNC3_LWU then SIZE_W
  else if f3 = FUNC3_LHU then SIZE_H
  else SIZE_B

/-- `mem_choose_data`. -/
def memChooseData (addr mtime mtimecmp rdata : Word) : Word :=
  if addr = MTIME then mtime else if addr = MTIMECMP then mtimecmp else rdata

/-- `o_ld_data`. -/
def ldData (lden : Bool) (f3 : BitVec 3) (d : Word) : Word :=
  if !lden then 0#64
  else if f3 = FUNC3_LB_SB then (d.extractLsb' 0 8).signExtend 64
  else if f3 = FUNC3_LH_SH then (d.extractLsb' 0 16).signExtend 64
  else if f3 = FUNC3_LW_SW then (d.extractLsb' 0 32).signExtend 64
  else if f3 = FUNC3_LD_SD then d
  else if f3 = FUNC3_LBU then (d.extractLsb' 0 8).zeroExtend 64
  else if f3 = FUNC3_LHU then (d.extractLsb' 0 16).zeroExtend 64
  else if f3 = FUNC3_LWU then (d.extractLsb' 0 32).zeroExtend 64
  else 0#64

/-- `mem_wdata` of a store. -/
def storeData (f3 : BitVec 3) (addr wt : Word) : Word :=
  let shift := addr.extractLsb' 0 3
  let half := shift.extractLsb' 0 1 == 0#1
  let word := shift.extractLsb' 0 2 == 0#2
  if f3 = FUNC3_LB_SB then (wt.extractLsb' 0 8).zeroExtend 64 <<< (8 * shift.toNat)
  else if f3 = FUNC3_LH_SH then
    if half then (wt.extractLsb' 0 16).zeroExtend 64 <<< (8 * shift.toNat) else 0#64
  else if f3 = FUNC3_LW_SW then
    if word then (wt.extractLsb' 0 32).zeroExtend 64 <<< (8 * shift.toNat) else 0#64
  else if f3 = FUNC3_LD_SD then wt
  else 0#64

/-- `wmask` of a store. -/
def storeMask (f3 : BitVec 3) (addr : Word) : BitVec 8 :=
  let shift := addr.extractLsb' 0 3
  let half := shift.extractLsb' 0 1 == 0#1
  let word := shift.extractLsb' 0 2 == 0#2
  if f3 = FUNC3_LB_SB then 0b1#8 <<< shift.toNat
  else if f3 = FUNC3_LH_SH then if half then 0b11#8 <<< shift.toNat else 0#8
  else if f3 = FUNC3_LW_SW then if word then 0b1111#8 <<< shift.toNat else 0#8
  else if f3 = FUNC3_LD_SD then 0b11111111#8
  else 0#8

/-! ## wbu -/

/-- `o_rd`. -/
def wbu (exuRes lsuRes : Word) (ldflag csrToRf : Bool) (csrData : Word) : Word :=
  if csrToRf then csrData else if ldflag then lsuRes else exuRes

end Oscpu.Axi
