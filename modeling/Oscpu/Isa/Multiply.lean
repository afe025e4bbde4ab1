import Oscpu.Isa.Execute
import Oscpu.Lib.Signed

/-!
# Multiplication

The low half of a product is right. For the high half the ALU shifts a product that is too short:
of 64 bits for `MULH`, which leaves nothing, and of 65 bits for `MULHSU` and `MULHU`, which leaves
one bit of the product of the unsigned readings.
-/

namespace Oscpu.Isa

open Rtl Lib

section

variable (a b : Word)

theorem operands_mul (rf : Regs) (pc : Word) (ins : Ins) (o : Rv64.MulOp) :
    (Instr.mul o).operands rf pc ins = (rf.read (Rv64.rs1 ins), rf.read (Rv64.rs2 ins)) := by
  cases o <;> rfl

/-- The upper half of a product is the product divided by `2 ^ 64`, rounded down. -/
theorem extractLsb'_ofInt (p : Int) :
    (BitVec.ofInt 128 p).extractLsb' 64 64 = BitVec.ofInt 64 (p / 2 ^ 64) := by
  apply BitVec.eq_of_toNat_eq
  rw [BitVec.extractLsb'_toNat, BitVec.toNat_ofInt, BitVec.toNat_ofInt, Nat.shiftRight_eq_div_pow]
  omega

theorem alu_mul : alu a b EXU_MUL = Rv64.MulOp.mul.value a b := by
  have hlow (p : Int) : (BitVec.ofInt 128 p).extractLsb' 0 64 = BitVec.ofInt 64 p := by
    apply BitVec.eq_of_toNat_eq
    rw [extractLsb'_toNat, BitVec.toNat_ofInt, BitVec.toNat_ofInt]
    omega
  change a * b = (BitVec.ofInt 128 (a.toInt * b.toInt)).extractLsb' 0 64
  rw [hlow, BitVec.ofInt_mul, BitVec.ofInt_toInt, BitVec.ofInt_toInt]

theorem alu_mulh : alu a b EXU_MULH = 0#64 := by
  change (a * b) >>> 64 = 0#64
  exact BitVec.ushiftRight_eq_zero (by omega)

/-- Bit 64 of the product of the unsigned readings. -/
theorem alu_mulhu : alu a b EXU_MULHU = BitVec.ofNat 64 (a.toNat * b.toNat / 2 ^ 64 % 2) := by
  change (((0#1 ++ a) * (0#1 ++ b) : BitVec 65) >>> 64).extractLsb' 0 64 = _
  apply BitVec.eq_of_toNat_eq
  rw [extractLsb'_toNat, BitVec.toNat_ushiftRight, BitVec.toNat_mul, toNat_append_zero,
    toNat_append_zero, BitVec.toNat_ofNat, Nat.shiftRight_eq_div_pow]
  generalize a.toNat * b.toNat = p
  omega

theorem alu_mulhsu : alu a b EXU_MULHSU = alu a b EXU_MULHU := by
  have hzero : b.zeroExtend 65 = 0#1 ++ b := by
    apply BitVec.eq_of_toNat_eq
    rw [toNat_append_zero, BitVec.toNat_setWidth, Nat.mod_eq_of_lt (by omega)]
  change (((0#1 ++ a) * b.zeroExtend 65 : BitVec 65) >>> 64).extractLsb' 0 64 = _
  rw [hzero]
  rfl

/-- The operands for which the core returns the half of the product that the instruction asks
for. -/
def Multiplies (o : Rv64.MulOp) : Prop :=
  match o with
  | .mul => True
  | .mulh => 0 ≤ o.product a b ∧ o.product a b < 2 ^ 64
  | .mulhsu | .mulhu => 0 ≤ o.product a b ∧ o.product a b < 2 ^ 65

instance (o : Rv64.MulOp) : Decidable (Multiplies a b o) := by
  cases o <;> unfold Multiplies <;> infer_instance

theorem mulh_iff : 0#64 = Rv64.MulOp.mulh.value a b ↔ Multiplies a b .mulh := by
  have hlo : -(2 ^ 126 : Int) ≤ a.toInt * b.toInt := BitVec.le_toInt_mul_toInt
  have hhi : a.toInt * b.toInt ≤ 2 ^ 126 := BitVec.toInt_mul_toInt_le
  change 0#64 = (BitVec.ofInt 128 (a.toInt * b.toInt)).extractLsb' 64 64 ↔
    0 ≤ a.toInt * b.toInt ∧ a.toInt * b.toInt < 2 ^ 64
  generalize a.toInt * b.toInt = p at *
  rw [extractLsb'_ofInt]
  apply Iff.trans (ofInt_eq_ofInt_iff (p := 0))
  omega

/-- One bit is the upper half exactly if the product fits into 65 bits. -/
theorem ofNat_mod_two_iff {p : Int} {n : Nat} (hn : n < 2 ^ 64 * 2 ^ 64) (hp : p = n) :
    BitVec.ofNat 64 (n / 2 ^ 64 % 2) = BitVec.ofInt 64 (p / 2 ^ 64) ↔ 0 ≤ p ∧ p < 2 ^ 65 := by
  rw [← BitVec.ofInt_natCast, ofInt_eq_ofInt_iff]
  omega

theorem mulhu_iff : alu a b EXU_MULHU = Rv64.MulOp.mulhu.value a b ↔ Multiplies a b .mulhu := by
  change _ = (BitVec.ofInt 128 (a.toNat * b.toNat)).extractLsb' 64 64 ↔ _
  have hlt : a.toNat * b.toNat < 2 ^ 64 * 2 ^ 64 := Nat.mul_lt_mul'' a.isLt b.isLt
  rw [alu_mulhu, extractLsb'_ofInt]
  exact ofNat_mod_two_iff hlt (Nat.cast_mul _ _).symm

theorem mulhsu_iff : alu a b EXU_MULHU = Rv64.MulOp.mulhsu.value a b ↔ Multiplies a b .mulhsu := by
  change _ = (BitVec.ofInt 128 (a.toInt * b.toNat)).extractLsb' 64 64 ↔
    0 ≤ a.toInt * b.toNat ∧ a.toInt * b.toNat < 2 ^ 65
  have hlt : a.toNat * b.toNat < 2 ^ 64 * 2 ^ 64 := Nat.mul_lt_mul'' a.isLt b.isLt
  rw [alu_mulhu, extractLsb'_ofInt]
  rcases toInt_cases a with ⟨ha, -⟩ | ⟨c, ha, hc, hc0, -⟩
  · exact ofNat_mod_two_iff hlt (by rw [ha, Nat.cast_mul])
  · have hprod : a.toInt * b.toNat = (a.toNat * b.toNat : Nat) - 2 ^ 64 * b.toNat := by
      have hn : (a.toNat : Int) = 2 ^ 64 - c := by omega
      rw [ha, Nat.cast_mul, hn, sub_mul, neg_mul]
      omega
    have hb := b.isLt
    -- a negative product, unless it is zero
    have hneg : a.toNat * b.toNat ≤ 2 ^ 64 * b.toNat := Nat.mul_le_mul_right _ (by omega)
    have heq : a.toNat * b.toNat = 2 ^ 64 * b.toNat → b.toNat = 0 := by
      intro h
      by_contra hb0
      have hcancel := Nat.eq_of_mul_eq_mul_right (by omega) h
      omega
    rw [hprod, ← BitVec.ofInt_natCast, ofInt_eq_ofInt_iff]
    generalize a.toNat * b.toNat = p at *
    omega

/-- **Multiplication.** Both cores multiply right exactly for the operands of `Multiplies`. -/
theorem multiplications_iff {o : Rv64.MulOp} {ins : Ins} (h : o.format.Matches ins) (rf : Regs)
    (pc : Word) :
    let a := rf.read (Rv64.rs1 ins)
    let b := rf.read (Rv64.rs2 ins)
    (Axi.compute rf pc ins = o.value a b ↔ Multiplies a b o) ∧
      (Diff.compute rf pc ins = o.value a b ↔ Multiplies a b o) := by
  intro a b
  have haxi : Axi.compute rf pc ins = o.value a b ↔ Multiplies a b o := by
    rw [compute_eq (o := .mul o) h, operands_mul]
    cases o with
    | mul => exact iff_of_true (alu_mul a b) trivial
    | mulh => exact (Eq.congr_left (alu_mulh a b)).trans (mulh_iff a b)
    | mulhsu => exact (Eq.congr_left (alu_mulhsu a b)).trans (mulhsu_iff a b)
    | mulhu => exact mulhu_iff a b
  exact ⟨haxi, by rw [compute_diff (o := .mul o) h]; exact haxi⟩

/-- `mulhu x3, x1, x2` with the registers `2 ^ 40` and `2 ^ 24`. -/
theorem multiplications_mulhu :
    let rf : Regs := fun r => if r = 1#5 then 0x10000000000#64 else 0x1000000#64
    Axi.compute rf 0#64 0x0220b1b3#32 = 1#64 ∧ Diff.compute rf 0#64 0x0220b1b3#32 = 1#64 := by
  intro rf
  have hins : Rv64.MulOp.mulhu.format.Matches 0x0220b1b3#32 := by decide
  have hmul : Multiplies (rf.read 1#5) (rf.read 2#5) .mulhu := by decide
  have hval : Rv64.MulOp.mulhu.value (rf.read 1#5) (rf.read 2#5) = 1#64 := by decide
  have h := multiplications_iff hins rf 0#64
  exact ⟨(h.1.2 hmul).trans hval, (h.2.2 hmul).trans hval⟩

/-- The upper half of `2 ^ 40 * 2 ^ 26` is 4, and `mulh`, `mulhsu` and `mulhu` return 0. -/
theorem multiplications_fail :
    let rf : Regs := fun r => if r = 1#5 then 0x10000000000#64 else 0x4000000#64
    let wrong (o : Rv64.MulOp) (ins : Ins) : Prop := o.format.Matches ins ∧
      o.value 0x10000000000#64 0x4000000#64 = 4#64 ∧ Axi.compute rf 0#64 ins = 0#64 ∧
        Diff.compute rf 0#64 ins = 0#64
    wrong .mulh 0x022091b3#32 ∧ wrong .mulhsu 0x0220a1b3#32 ∧ wrong .mulhu 0x0220b1b3#32 := by
  decide

end

end Oscpu.Isa
