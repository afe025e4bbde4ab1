import Oscpu.Isa.Multiply
import Oscpu.Lib.Encode
import Oscpu.Nemu.Rtl

/-!
# What the operations of `c_op.h` compute

The operations that multiplication and division are made of, against the values of the instruction
set. `mulhsu` is an unsigned product with a correction, and words are divided in 64 bits.
-/

namespace Oscpu.Nemu

open Oscpu.Rtl Oscpu.Lib

/-! ## Doublewords -/

section

variable (a b : Word)

theorem cMuluLo_eq : cMuluLo a b = Rv64.MulOp.mul.value a b := Isa.alu_mul a b

theorem cMulsHi_eq : cMulsHi a b = Rv64.MulOp.mulh.value a b := by
  have hprod : a.signExtend 128 * b.signExtend 128 = BitVec.ofInt 128 (a.toInt * b.toInt) := by
    rw [BitVec.ofInt_mul, BitVec.signExtend, BitVec.signExtend]
  change ((a.signExtend 128 * b.signExtend 128).sshiftRight 64).setWidth 64 =
    (BitVec.ofInt 128 (a.toInt * b.toInt)).extractLsb' 64 64
  rw [hprod]
  apply BitVec.eq_of_getLsbD_eq
  intro k hk
  have hlt : 64 + k < 128 := by omega
  simp [BitVec.getLsbD_sshiftRight, hk, hlt]
  omega

theorem cMuluHi_eq_ofInt : cMuluHi a b = BitVec.ofInt 64 ((a.toNat * b.toNat : Nat) / 2 ^ 64) := by
  have hlt : a.toNat * b.toNat < 2 ^ 64 * 2 ^ 64 := Nat.mul_lt_mul'' a.isLt b.isLt
  have ha : a.toNat < 2 ^ 128 := by omega
  have hb : b.toNat < 2 ^ 128 := by omega
  apply BitVec.eq_of_toNat_eq
  rw [cMuluHi, BitVec.toNat_setWidth, BitVec.toNat_ushiftRight, BitVec.toNat_mul,
    BitVec.toNat_setWidth, BitVec.toNat_setWidth, Nat.mod_eq_of_lt ha, Nat.mod_eq_of_lt hb,
    BitVec.toNat_ofInt, Nat.shiftRight_eq_div_pow]
  generalize a.toNat * b.toNat = p at *
  omega

theorem cMuluHi_eq : cMuluHi a b = Rv64.MulOp.mulhu.value a b := by
  rw [cMuluHi_eq_ofInt, Nat.cast_mul]
  exact (Isa.extractLsb'_ofInt _).symm

/-- The product of the unsigned readings is too large by `b` in the upper half, if `a` is
negative. -/
theorem mulhsu_eq : cMuluHi a b - (b &&& cSar a 63#64) = Rv64.MulOp.mulhsu.value a b := by
  have hsign : cSar a 63#64 = if a.msb then BitVec.allOnes 64 else 0#64 := by
    apply BitVec.eq_of_getLsbD_eq
    intro k hk
    have hbit : (cSar a 63#64).getLsbD k = a.msb := by
      change (a.sshiftRight 63).getLsbD k = a.msb
      rw [BitVec.getLsbD_sshiftRight, BitVec.msb_eq_getLsbD_last]
      by_cases h0 : k = 0
      · simp [h0]
      · have hge : ¬ 63 + k < 64 := by omega
        simp [hge, hk]
    rw [hbit]
    cases a.msb with
    | false => simp
    | true => rw [if_pos rfl, BitVec.getLsbD_allOnes, decide_eq_true hk]
  refine Eq.trans ?_ (Isa.extractLsb'_ofInt (a.toInt * b.toNat)).symm
  rw [cMuluHi_eq_ofInt, hsign]
  cases ha : a.msb with
  | false =>
    have htoInt : a.toInt = a.toNat := BitVec.toInt_eq_toNat_of_msb ha
    simp [htoInt]
  | true =>
    have htoInt : a.toInt = a.toNat - 2 ^ 64 := by
      rw [BitVec.toInt_eq_msb_cond, ha]
      rfl
    have hneg : BitVec.ofInt 64 (-(b.toNat : Int)) = -b := by
      rw [BitVec.ofInt_neg, BitVec.ofInt_natCast, BitVec.ofNat_toNat, BitVec.setWidth_eq]
    have hdiv : a.toInt * b.toNat / 2 ^ 64 = (a.toNat * b.toNat : Nat) / 2 ^ 64 - (b.toNat : Int) := by
      rw [htoInt, sub_mul, Nat.cast_mul]
      omega
    rw [if_pos rfl, BitVec.and_allOnes, hdiv, Int.sub_eq_add_neg, BitVec.ofInt_add, hneg,
      BitVec.sub_eq_add_neg]

theorem cMulw_eq : cMulw a b = Rv64.sextW (a.setWidth 32 * b.setWidth 32) := by
  rw [cMulw, BitVec.setWidth_mul _ _ (by omega)]
  rfl

theorem div_eq : (if b == 0#64 then ~~~0#64
    else if a == 0x8000000000000000#64 && b == ~~~0#64 then a else cDivsQ a b) = Rv64.quotS a b := by
  unfold Rv64.quotS
  by_cases hb : b = 0#64
  · simp [hb]
  · rw [if_neg (by simpa using hb), if_neg hb]
    split
    · rename_i hover
      obtain ⟨rfl, rfl⟩ : a = 0x8000000000000000#64 ∧ b = ~~~0#64 := by simpa using hover
      decide
    · rfl

theorem rem_eq : (if b == 0#64 then a
    else if a == 0x8000000000000000#64 && b == ~~~0#64 then 0#64 else cDivsR a b) =
      Rv64.remS a b := by
  unfold Rv64.remS
  by_cases hb : b = 0#64
  · simp [hb]
  · rw [if_neg (by simpa using hb), if_neg hb]
    split
    · rename_i hover
      obtain ⟨rfl, rfl⟩ : a = 0x8000000000000000#64 ∧ b = ~~~0#64 := by simpa using hover
      decide
    · rfl

theorem divu_eq : (if b == 0#64 then ~~~0#64 else cDivuQ a b) = Rv64.quotU a b := by
  unfold Rv64.quotU
  by_cases hb : b = 0#64
  · simp [hb]
  · rw [if_neg (by simpa using hb), if_neg hb]
    apply BitVec.eq_of_toNat_eq
    rw [cDivuQ, BitVec.toNat_udiv, BitVec.toNat_ofNat,
      Nat.mod_eq_of_lt (lt_of_le_of_lt (Nat.div_le_self ..) a.isLt)]

theorem remu_eq : (if b == 0#64 then a else cDivuR a b) = Rv64.remU a b := by
  unfold Rv64.remU
  by_cases hb : b = 0#64
  · simp [hb]
  · rw [if_neg (by simpa using hb), if_neg hb]
    apply BitVec.eq_of_toNat_eq
    rw [cDivuR, BitVec.toNat_umod, BitVec.toNat_ofNat,
      Nat.mod_eq_of_lt (lt_of_le_of_lt (Nat.mod_le ..) a.isLt)]

end

/-! ## Words -/

section

variable (x y : BitVec 32)

theorem signExtend_eq_zero_iff : x.signExtend 64 = 0#64 ↔ x = 0#32 := by
  rw [← BitVec.toInt_inj, ← BitVec.toInt_inj, BitVec.toInt_signExtend_of_le (by omega)]
  rfl

theorem setWidth_signExtend : (x.signExtend 64).setWidth 32 = x := by
  apply BitVec.eq_of_getLsbD_eq
  intro k hk
  have hlt : k < 64 := by omega
  rw [BitVec.getLsbD_setWidth, BitVec.getLsbD_signExtend]
  simp only [hk, hlt, decide_true, Bool.true_and, if_true]

/-- The test of `divw` and `remw` for an overflow. -/
theorem signExtend_ne : x.signExtend 64 ≠ 0x80000000#64 := by
  intro h
  have hint := congrArg BitVec.toInt h
  rw [BitVec.toInt_signExtend_of_le (by omega)] at hint
  have hlt := BitVec.toInt_lt (x := x)
  have hval : (0x80000000#64).toInt = 2147483648 := by decide
  omega

theorem divw_eq : (if y.signExtend 64 == 0#64 then ~~~0#64
    else if x.signExtend 64 == 0x80000000#64 && y.signExtend 64 == ~~~0#64 then x.signExtend 64
    else cDivsQ (x.signExtend 64) (y.signExtend 64)).setWidth 32 = Rv64.quotS x y := by
  unfold Rv64.quotS
  by_cases hy : y = 0#32
  · subst hy
    rw [if_pos (by decide), if_pos rfl]
    rfl
  · have hne : ¬ (y.signExtend 64 == 0#64) = true := by
      rw [beq_iff_eq, signExtend_eq_zero_iff]
      exact hy
    rw [if_neg hne, if_neg (by simp [signExtend_ne]), if_neg hy, cDivsQ,
      setWidth_ofInt (by omega), BitVec.toInt_signExtend_of_le (by omega),
      BitVec.toInt_signExtend_of_le (by omega)]

theorem remw_eq : (if y.signExtend 64 == 0#64 then x.signExtend 64
    else if x.signExtend 64 == 0x80000000#64 && y.signExtend 64 == ~~~0#64 then 0#64
    else cDivsR (x.signExtend 64) (y.signExtend 64)).setWidth 32 = Rv64.remS x y := by
  unfold Rv64.remS
  by_cases hy : y = 0#32
  · subst hy
    exact setWidth_signExtend x
  · have hne : ¬ (y.signExtend 64 == 0#64) = true := by
      rw [beq_iff_eq, signExtend_eq_zero_iff]
      exact hy
    rw [if_neg hne, if_neg (by simp [signExtend_ne]), if_neg hy, cDivsR,
      setWidth_ofInt (by omega), BitVec.toInt_signExtend_of_le (by omega),
      BitVec.toInt_signExtend_of_le (by omega)]

theorem zeroExtend_eq_zero_iff : x.zeroExtend 64 = 0#64 ↔ x = 0#32 := by
  rw [← BitVec.toNat_inj, ← BitVec.toNat_inj, BitVec.toNat_setWidth,
    Nat.mod_eq_of_lt (by omega)]
  rfl

theorem divuw_eq : (if y.zeroExtend 64 == 0#64 then ~~~0#64
    else cDivuQ (x.zeroExtend 64) (y.zeroExtend 64)).setWidth 32 = Rv64.quotU x y := by
  unfold Rv64.quotU
  by_cases hy : y = 0#32
  · subst hy
    rw [if_pos (by decide), if_pos rfl]
    rfl
  · have hne : ¬ (y.zeroExtend 64 == 0#64) = true := by
      rw [beq_iff_eq, zeroExtend_eq_zero_iff]
      exact hy
    rw [if_neg hne, if_neg hy]
    apply BitVec.eq_of_toNat_eq
    rw [cDivuQ, BitVec.toNat_setWidth, BitVec.toNat_udiv, BitVec.toNat_setWidth,
      BitVec.toNat_setWidth, BitVec.toNat_ofNat, Nat.mod_eq_of_lt (a := x.toNat) (by omega),
      Nat.mod_eq_of_lt (a := y.toNat) (by omega)]

theorem remuw_eq : (if y.zeroExtend 64 == 0#64 then x.zeroExtend 64
    else cDivuR (x.zeroExtend 64) (y.zeroExtend 64)).setWidth 32 = Rv64.remU x y := by
  unfold Rv64.remU
  by_cases hy : y = 0#32
  · subst hy
    exact BitVec.setWidth_setWidth_of_le x (by omega) |>.trans (BitVec.setWidth_eq x)
  · have hne : ¬ (y.zeroExtend 64 == 0#64) = true := by
      rw [beq_iff_eq, zeroExtend_eq_zero_iff]
      exact hy
    rw [if_neg hne, if_neg hy]
    apply BitVec.eq_of_toNat_eq
    rw [cDivuR, BitVec.toNat_setWidth, BitVec.toNat_umod, BitVec.toNat_setWidth,
      BitVec.toNat_setWidth, BitVec.toNat_ofNat, Nat.mod_eq_of_lt (a := x.toNat) (by omega),
      Nat.mod_eq_of_lt (a := y.toNat) (by omega)]

end

/-! ## Extensions -/

theorem sext_eq (a : Word) : cSar (cShl a 32#64) 32#64 = (a.setWidth 32).signExtend 64 := by
  change (a <<< 32).sshiftRight 32 = _
  apply BitVec.eq_of_getLsbD_eq
  intro k hk
  have hmsb : (a <<< 32).msb = a.getLsbD 31 := by
    rw [BitVec.msb_eq_getLsbD_last, BitVec.getLsbD_shiftLeft]
    simp
  have hmsb' : (a.setWidth 32).msb = a.getLsbD 31 := by
    rw [BitVec.msb_eq_getLsbD_last, BitVec.getLsbD_setWidth]
    simp
  rw [BitVec.getLsbD_sshiftRight, BitVec.getLsbD_signExtend, hmsb, hmsb', BitVec.getLsbD_shiftLeft,
    BitVec.getLsbD_setWidth]
  by_cases h32 : k < 32
  · have hlt : 32 + k < 64 := by omega
    have hge : ¬ 64 ≤ k := by omega
    have hge' : ¬ 32 + k < 32 := by omega
    simp [hk, h32, hlt, hge, hge']
  · have hge : ¬ 32 + k < 64 := by omega
    simp [hk, h32, hge]

theorem zext_eq (a : Word) : cShr (cShl a 32#64) 32#64 = (a.setWidth 32).zeroExtend 64 := by
  change (a <<< 32) >>> 32 = _
  apply BitVec.eq_of_getLsbD_eq
  intro k hk
  rw [BitVec.getLsbD_ushiftRight, BitVec.getLsbD_shiftLeft, BitVec.getLsbD_setWidth,
    BitVec.getLsbD_setWidth]
  by_cases h32 : k < 32
  · have hlt : 32 + k < 64 := by omega
    simp [hk, h32, hlt]
  · have hge : ¬ 32 + k < 64 := by omega
    simp [h32, hge]

end Oscpu.Nemu
