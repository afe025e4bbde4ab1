import Oscpu.Rtl.Config

/-!
# The arithmetic unit `alu.sv`

The result of every operation as Verilog evaluates it: operands are unsigned vectors, an operation
in a concatenation is evaluated at the width of its widest operand, elsewhere at the width of the
assigned variable. `DIVIDER` is not defined. Both cores share the unit.
-/

namespace Oscpu.Rtl

/-- `/` on vectors; the two-state value of a division by zero is 0. -/
def vdiv {w : Nat} (x y : BitVec w) : BitVec w := if y = 0#w then 0#w else x / y

/-- `%` on vectors; the two-state value of a remainder by zero is 0. -/
def vmod {w : Nat} (x y : BitVec w) : BitVec w := if y = 0#w then 0#w else x % y

/-- `o_exe_res = {{32{o_exe_res[31]}}, o_exe_res[31:0]}`, after the low half is assigned. -/
def sextW (x : BitVec 32) : Word := x.signExtend 64

/-- The low half `x[31:0]`. -/
def lowW (x : Word) : BitVec 32 := x.extractLsb' 0 32

/-- `o_exe_res` of `alu`. -/
def alu (src1 src2 : Word) (exopt : BitVec 6) : Word :=
  let sh := (src2.extractLsb' 0 6).toNat
  let shW := (src2.extractLsb' 0 5).toNat
  let zext (x : Word) : BitVec 65 := 0#1 ++ x
  let zextW (x : BitVec 32) : BitVec 33 := 0#1 ++ x
  if exopt = EXU_ADD then src1 + src2
  else if exopt = EXU_SUB then src1 - src2
  else if exopt = EXU_ADDW then sextW (lowW src1 + lowW src2)
  else if exopt = EXU_SUBW then sextW (lowW src1 - lowW src2)
  else if exopt = EXU_AND then src1 &&& src2
  else if exopt = EXU_OR then src1 ||| src2
  else if exopt = EXU_XOR then src1 ^^^ src2
  else if exopt = EXU_SLL then src1 <<< sh
  else if exopt = EXU_SRL then src1 >>> sh
  else if exopt = EXU_SRA then ((src1.signExtend 128) >>> sh).extractLsb' 0 64
  else if exopt = EXU_SLLW then sextW (lowW src1 <<< shW)
  else if exopt = EXU_SRLW then sextW (lowW src1 >>> shW)
  else if exopt = EXU_SRAW then sextW (lowW ((lowW src1).signExtend 64 >>> shW))
  else if exopt = EXU_MUL then src1 * src2
  else if exopt = EXU_MULH then (src1 * src2) >>> 64
  else if exopt = EXU_MULHSU then ((zext src1 * src2.zeroExtend 65) >>> 64).extractLsb' 0 64
  else if exopt = EXU_MULHU then ((zext src1 * zext src2) >>> 64).extractLsb' 0 64
  else if exopt = EXU_DIV then vdiv src1 src2
  else if exopt = EXU_DIVU then (vdiv (zext src1) (zext src2)).extractLsb' 0 64
  else if exopt = EXU_REM then vmod src1 src2
  else if exopt = EXU_REMU then (vmod (zext src1) (zext src2)).extractLsb' 0 64
  else if exopt = EXU_MULW then sextW (lowW src1 * lowW src2)
  else if exopt = EXU_DIVW then sextW (vdiv (lowW src1) (lowW src2))
  else if exopt = EXU_DIVUW then
    sextW ((vdiv (zextW (lowW src1)) (zextW (lowW src2))).extractLsb' 0 32)
  else if exopt = EXU_REMW then sextW (vmod (lowW src1) (lowW src2))
  else if exopt = EXU_REMUW then
    sextW ((vmod (zextW (lowW src1)) (zextW (lowW src2))).extractLsb' 0 32)
  else if exopt = EXU_SLT then 0#63 ++ (src1 - src2).extractLsb' 63 1
  else if exopt = EXU_SLTU then 0#63 ++ (zext src1 - zext src2).extractLsb' 64 1
  else 0#64

end Oscpu.Rtl
