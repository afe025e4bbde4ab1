import Oscpu.Rtl.Alu
import Oscpu.Rtl.Decode
import Oscpu.Rtl.Mux
import Oscpu.Rtl.Reg

/-!
# The combinational units of `cpu_diff`

`ifu`, `idu`, `exu`, `bru`, `lsu` and `wbu`, as functions of their inputs. The RAM is the model of
`RAMHelper`: 64-bit words under an index, read combinationally.
-/

namespace Oscpu.Diff

open Oscpu.Rtl

/-- The words of `RAMHelper`, by index. -/
abbrev Ram := Word → Word

/-- `(addr - PC_START) >> 3`, for `rIdx` and `wIdx`. -/
def ramIdx (addr : Word) : Word := (addr - PC_START) >>> 3

/-- A write through `wmask` at the clock edge. -/
def Ram.write (ram : Ram) (wen : Bool) (wIdx wdata wmask : Word) : Ram :=
  fun i => if wen && i == wIdx then (ram i &&& ~~~wmask) ||| (wdata &&& wmask) else ram i

/-- `ifu`: the half of the RAM word that `i_pc[2]` selects. -/
def ifu (ram : Ram) (pc : Word) : Ins :=
  let rdata := ram (ramIdx pc)
  if pc.getLsbD 2 then rdata.extractLsb' 32 32 else rdata.extractLsb' 0 32

/-- `o_exopt` of `idu`, which leaves the defaults for `TYPE_I_EBRK`. -/
def iduExopt (ins : Ins) : BitVec 6 := oExopt ins EXU_ADD

/-- `o_src_sel` of `idu`, which leaves the defaults for `TYPE_I_EBRK`. -/
def iduSrcSel (ins : Ins) : BitVec 2 := oSrcSel ins EXU_SEL_IMM

/-- `exu`: the two operand multiplexers and the ALU. -/
def exu (pc rs1 rs2 imm : Word) (srcSel : BitVec 2) (exopt : BitVec 6) : Word :=
  let src1 := stlMuxDefault srcSel 0#64 (concatLut
    [(EXU_SEL_REG, rs1), (EXU_SEL_IMM, rs1), (EXU_SEL_PC4, pc), (EXU_SEL_PCI, pc)])
  let src2 := stlMuxDefault srcSel 0#64 (concatLut
    [(EXU_SEL_REG, rs2), (EXU_SEL_IMM, imm), (EXU_SEL_PC4, 4#64), (EXU_SEL_PCI, imm)])
  alu src1 src2 exopt

/-- `branch` of `bru`: the multiplexer `mux_branch` over the bits of two subtractions. -/
def branch (bfun3 : BitVec 3) (rs1 rs2 : Word) : Bool :=
  let subRes := rs1 - rs2
  let supersubResbit := ((0#1 ++ rs1) - (0#1 ++ rs2)).extractLsb' 64 1
  let orSub : BitVec 1 := if subRes = 0#64 then 0#1 else 1#1
  let sign := subRes.extractLsb' 63 1
  stlMuxDefault bfun3 0#1 (concatLut
    [(FUNC3_BEQ, ~~~orSub), (FUNC3_BNE, orSub), (FUNC3_BLT, sign), (FUNC3_BGE, ~~~sign),
      (FUNC3_BLTU, supersubResbit), (FUNC3_BGEU, ~~~supersubResbit)]) == 1#1

/-- `jump` of `bru` for the instruction word in ID. -/
def jump (ins : Ins) (rs1 rs2 : Word) : Bool :=
  (if oBrch ins then branch (func3 ins) rs1 rs2 else false) || oJal ins || oJalr ins

/-- `jump_pc` of `bru`. -/
def jumpPc (ins : Ins) (pc rs1 : Word) : Word :=
  if oJalr ins then rs1 + oImm ins else pc + oImm ins

/-- `o_regld` of `lsu`. The block assigns nothing when `i_lden` is low, so the value is held. -/
def lsuRegld (lden : Bool) (f3 : BitVec 3) (addr rdata held : Word) : Word :=
  let shift := addr.extractLsb' 0 3
  let at8 := rdata.extractLsb' (8 * shift.toNat) 8
  let at16 := rdata.extractLsb' (8 * shift.toNat) 16
  let at32 := rdata.extractLsb' (8 * shift.toNat) 32
  let half := shift.extractLsb' 0 1 == 0#1
  let word := shift.extractLsb' 0 2 == 0#2
  if !lden then held
  else if f3 = FUNC3_LB_SB then at8.signExtend 64
  else if f3 = FUNC3_LH_SH then if half then at16.signExtend 64 else 0#64
  else if f3 = FUNC3_LW_SW then if word then at32.signExtend 64 else 0#64
  else if f3 = FUNC3_LD_SD then rdata
  else if f3 = FUNC3_LBU then at8.zeroExtend 64
  else if f3 = FUNC3_LHU then if half then at16.zeroExtend 64 else 0#64
  else if f3 = FUNC3_LWU then if word then at32.zeroExtend 64 else 0#64
  else 0#64

/-- `wmask` of `lsu` for a store (it is read only then). -/
def lsuWmask (f3 : BitVec 3) (addr : Word) : Word :=
  let shift := addr.extractLsb' 0 3
  let half := shift.extractLsb' 0 1 == 0#1
  let word := shift.extractLsb' 0 2 == 0#2
  if f3 = FUNC3_LB_SB then 0xff#64 <<< (8 * shift.toNat)
  else if f3 = FUNC3_LH_SH then if half then 0xffff#64 <<< (8 * shift.toNat) else 0#64
  else if f3 = FUNC3_LW_SW then if word then 0xffffffff#64 <<< (8 * shift.toNat) else 0#64
  else if f3 = FUNC3_LD_SD then 0xffffffffffffffff#64
  else 0#64

/-- `wdata` of `lsu`. It is not assigned when `i_sten` is low, nor in the default case. -/
def lsuWdata (sten : Bool) (f3 : BitVec 3) (regst held : Word) : Word :=
  if !sten then held
  else if f3 = FUNC3_LB_SB then (regst.extractLsb' 0 8).replicate 8
  else if f3 = FUNC3_LH_SH then (regst.extractLsb' 0 16).replicate 4
  else if f3 = FUNC3_LW_SW then (regst.extractLsb' 0 32).replicate 2
  else if f3 = FUNC3_LD_SD then regst
  else held

/-- `wbu`. -/
def wbu (exuRes lsuRes : Word) (ldflag : Bool) : Word := if ldflag then lsuRes else exuRes

end Oscpu.Diff
