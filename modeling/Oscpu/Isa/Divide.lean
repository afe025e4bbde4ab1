import Oscpu.Isa.Execute
import Oscpu.Lib.Signed

/-!
# Division

All eight operations divide the unsigned readings, and a division by zero comes to zero. So the
signed instructions are right only where the two readings have the same quotient or remainder, and
the unsigned ones for divisors other than zero.
-/

namespace Oscpu.Isa

open Rtl Lib

section

variable {w : Nat} (x y : BitVec w)

/-- The operands whose unsigned quotient is the signed one. -/
def QuotSigned : Prop :=
  y ≠ 0#w ∧ (y = 1#w ∨ x = y ∨ 0 ≤ x.toInt ∧ (0 < y.toInt ∨ x.toInt < -y.toInt))

/-- The operands whose unsigned remainder is the signed one. A negative dividend has it when both
are zero. -/
def RemSigned : Prop :=
  if y = 0#w then x = 0#w
  else x = y ∨ 0 ≤ x.toInt ∧ (0 < y.toInt ∨ x.toInt < -y.toInt) ∨
    x.toInt < 0 ∧ 0 < y.toInt ∧ y.toNat ∣ 2 ^ w ∧ y.toNat ∣ x.toNat

instance : Decidable (QuotSigned x y) := inferInstanceAs (Decidable (_ ∧ _))

instance : Decidable (RemSigned x y) := by unfold RemSigned; infer_instance

theorem vdiv_eq_quotS_iff (hw : w ≠ 0) : vdiv x y = Rv64.quotS x y ↔ QuotSigned x y := by
  unfold vdiv Rv64.quotS QuotSigned
  by_cases hy : y = 0#w
  · rw [if_pos hy, if_pos hy, BitVec.zero_eq_allOnes_iff]
    exact iff_of_false hw fun h => h.1 hy
  · rw [if_neg hy, if_neg hy, udiv_eq_tdiv_iff x y hy]
    exact (and_iff_right hy).symm

theorem vmod_eq_remS_iff : vmod x y = Rv64.remS x y ↔ RemSigned x y := by
  unfold vmod Rv64.remS RemSigned
  by_cases hy : y = 0#w
  · rw [if_pos hy, if_pos hy, if_pos hy]
    exact eq_comm
  · rw [if_neg hy, if_neg hy, if_neg hy]
    exact umod_eq_tmod_iff x y hy

theorem vdiv_eq_quotU_iff (hw : w ≠ 0) : vdiv x y = Rv64.quotU x y ↔ y ≠ 0#w := by
  unfold vdiv Rv64.quotU
  by_cases hy : y = 0#w
  · rw [if_pos hy, if_pos hy, BitVec.zero_eq_allOnes_iff]
    exact iff_of_false hw fun h => h hy
  · rw [if_neg hy, if_neg hy]
    refine iff_of_true (BitVec.eq_of_toNat_eq ?_) hy
    have hlt : x.toNat / y.toNat < 2 ^ w := lt_of_le_of_lt (Nat.div_le_self _ _) x.isLt
    rw [BitVec.toNat_udiv, BitVec.toNat_ofNat, Nat.mod_eq_of_lt hlt]

theorem vmod_eq_remU_iff : vmod x y = Rv64.remU x y ↔ (y = 0#w → x = 0#w) := by
  unfold vmod Rv64.remU
  by_cases hy : y = 0#w
  · rw [if_pos hy, if_pos hy]
    exact ⟨fun h _ => h.symm, fun h => (h hy).symm⟩
  · rw [if_neg hy, if_neg hy]
    refine iff_of_true (BitVec.eq_of_toNat_eq ?_) fun h => absurd h hy
    have hlt : x.toNat % y.toNat < 2 ^ w := lt_of_le_of_lt (Nat.mod_le _ _) x.isLt
    rw [BitVec.toNat_umod, BitVec.toNat_ofNat, Nat.mod_eq_of_lt hlt]

/-! The unsigned operations put a zero before the operands, which changes nothing. -/

theorem append_zero_eq_zero_iff : 0#1 ++ y = 0#(1 + w) ↔ y = 0#w := by
  rw [← BitVec.toNat_inj, ← BitVec.toNat_inj, toNat_append_zero]
  simp

theorem vdiv_append_zero : (vdiv (0#1 ++ x) (0#1 ++ y)).extractLsb' 0 w = vdiv x y := by
  unfold vdiv
  apply BitVec.eq_of_toNat_eq
  have hlt : x.toNat / y.toNat < 2 ^ w := lt_of_le_of_lt (Nat.div_le_self _ _) x.isLt
  simp only [append_zero_eq_zero_iff, extractLsb'_toNat]
  split_ifs with hy
  · simp
  · rw [BitVec.toNat_udiv, BitVec.toNat_udiv, toNat_append_zero, toNat_append_zero,
      Nat.mod_eq_of_lt hlt]

theorem vmod_append_zero : (vmod (0#1 ++ x) (0#1 ++ y)).extractLsb' 0 w = vmod x y := by
  unfold vmod
  apply BitVec.eq_of_toNat_eq
  have hlt : x.toNat % y.toNat < 2 ^ w := lt_of_le_of_lt (Nat.mod_le _ _) x.isLt
  simp only [append_zero_eq_zero_iff, extractLsb'_toNat]
  split_ifs with hy
  · simp
  · rw [BitVec.toNat_umod, BitVec.toNat_umod, toNat_append_zero, toNat_append_zero,
      Nat.mod_eq_of_lt hlt]

end

/-- The operands for which the core's operation is the one of the instruction set. -/
def Divides (a b : Word) : Rv64.DivOp → Prop
  | .div => QuotSigned a b
  | .divu => b ≠ 0#64
  | .rem => RemSigned a b
  | .remu => b = 0#64 → a = 0#64
  | .divw => QuotSigned (a.setWidth 32) (b.setWidth 32)
  | .divuw => b.setWidth 32 ≠ 0#32
  | .remw => RemSigned (a.setWidth 32) (b.setWidth 32)
  | .remuw => b.setWidth 32 = 0#32 → a.setWidth 32 = 0#32

instance (a b : Word) (o : Rv64.DivOp) : Decidable (Divides a b o) := by
  cases o <;> unfold Divides <;> infer_instance

theorem lowW_sextW (x : BitVec 32) : lowW (sextW x) = x := by
  have h := extractLsb'_signExtend_ushiftRight (v := 64) (n := 0) x (by omega)
  rwa [BitVec.ushiftRight_zero, BitVec.sshiftRight_zero] at h

theorem sextW_eq_iff {x y : BitVec 32} : sextW x = Rv64.sextW y ↔ x = y := by
  refine ⟨?_, congrArg Rv64.sextW⟩
  intro h
  rw [← lowW_sextW x, h]
  exact lowW_sextW y

/-- What the ALU computes for a division: one of four operations, on words or on their low
halves. -/
theorem alu_div (a b : Word) (o : Rv64.DivOp) :
    alu a b (Instr.div o).exopt = match o with
      | .div | .divu => vdiv a b
      | .rem | .remu => vmod a b
      | .divw | .divuw => sextW (vdiv (a.setWidth 32) (b.setWidth 32))
      | .remw | .remuw => sextW (vmod (a.setWidth 32) (b.setWidth 32)) := by
  rw [← lowW_eq, ← lowW_eq]
  cases o with
  | div | rem | divw | remw => rfl
  | divu => exact vdiv_append_zero a b
  | remu => exact vmod_append_zero a b
  | divuw => exact congrArg sextW (vdiv_append_zero (lowW a) (lowW b))
  | remuw => exact congrArg sextW (vmod_append_zero (lowW a) (lowW b))

theorem alu_div_iff (a b : Word) (o : Rv64.DivOp) :
    alu a b (Instr.div o).exopt = o.value a b ↔ Divides a b o := by
  rw [alu_div]
  cases o with
  | div => exact vdiv_eq_quotS_iff a b (by omega)
  | divu => exact vdiv_eq_quotU_iff a b (by omega)
  | rem => exact vmod_eq_remS_iff a b
  | remu => exact vmod_eq_remU_iff a b
  | divw => exact sextW_eq_iff.trans (vdiv_eq_quotS_iff _ _ (by omega))
  | divuw => exact sextW_eq_iff.trans (vdiv_eq_quotU_iff _ _ (by omega))
  | remw => exact sextW_eq_iff.trans (vmod_eq_remS_iff _ _)
  | remuw => exact sextW_eq_iff.trans (vmod_eq_remU_iff _ _)

theorem operands_div (rf : Regs) (pc : Word) (ins : Ins) (o : Rv64.DivOp) :
    (Instr.div o).operands rf pc ins = (rf.read (Rv64.rs1 ins), rf.read (Rv64.rs2 ins)) := by
  cases o <;> rfl

/-- Quotient and remainder belong together, also where they are not those of the instruction
set. -/
theorem dividend_eq (a b : Word) :
    (b ≠ 0#64 → a = b * alu a b EXU_DIV + alu a b EXU_REM ∧
      a = b * alu a b EXU_DIVU + alu a b EXU_REMU) ∧
    (lowW b ≠ 0#32 → lowW a = lowW b * lowW (alu a b EXU_DIVW) + lowW (alu a b EXU_REMW) ∧
      lowW a = lowW b * lowW (alu a b EXU_DIVUW) + lowW (alu a b EXU_REMUW)) := by
  have hid {w : Nat} (x y : BitVec w) (hy : y ≠ 0#w) : x = y * vdiv x y + vmod x y := by
    rw [vdiv, vmod, if_neg hy, if_neg hy]
    apply BitVec.eq_of_toNat_eq
    rw [BitVec.toNat_add, BitVec.toNat_mul, BitVec.toNat_udiv, BitVec.toNat_umod, Nat.mod_add_mod,
      Nat.div_add_mod, Nat.mod_eq_of_lt x.isLt]
  have hdiv : alu a b EXU_DIV = vdiv a b := alu_div a b .div
  have hrem : alu a b EXU_REM = vmod a b := alu_div a b .rem
  have hdivu : alu a b EXU_DIVU = vdiv a b := alu_div a b .divu
  have hremu : alu a b EXU_REMU = vmod a b := alu_div a b .remu
  have hdivw : lowW (alu a b EXU_DIVW) = vdiv (lowW a) (lowW b) := lowW_sextW _
  have hremw : lowW (alu a b EXU_REMW) = vmod (lowW a) (lowW b) := lowW_sextW _
  have hdivuw : lowW (alu a b EXU_DIVUW) = vdiv (lowW a) (lowW b) :=
    (lowW_sextW _).trans (vdiv_append_zero _ _)
  have hremuw : lowW (alu a b EXU_REMUW) = vmod (lowW a) (lowW b) :=
    (lowW_sextW _).trans (vmod_append_zero _ _)
  rw [hdiv, hrem, hdivu, hremu, hdivw, hremw, hdivuw, hremuw]
  exact ⟨fun hb => ⟨hid a b hb, hid a b hb⟩, fun hb => ⟨hid _ _ hb, hid _ _ hb⟩⟩

/-- **Division.** Both cores divide right exactly for the operands of `Divides`. -/
theorem divisions_iff {o : Rv64.DivOp} {ins : Ins} (h : o.format.Matches ins) (rf : Regs)
    (pc : Word) :
    let a := rf.read (Rv64.rs1 ins)
    let b := rf.read (Rv64.rs2 ins)
    (Axi.compute rf pc ins = o.value a b ↔ Divides a b o) ∧
      (Diff.compute rf pc ins = o.value a b ↔ Divides a b o) := by
  intro a b
  have haxi : Axi.compute rf pc ins = o.value a b ↔ Divides a b o := by
    rw [compute_eq (o := .div o) h, operands_div]
    exact alu_div_iff a b o
  exact ⟨haxi, by rw [compute_diff (o := .div o) h]; exact haxi⟩

/-- `div x3, x1, x2` with the registers 7 and 2. -/
theorem divisions_div :
    let rf : Regs := fun r => if r = 1#5 then 7#64 else 2#64
    Axi.compute rf 0#64 0x0220c1b3#32 = 3#64 ∧ Diff.compute rf 0#64 0x0220c1b3#32 = 3#64 := by
  intro rf
  have hins : Rv64.DivOp.div.format.Matches 0x0220c1b3#32 := by decide
  have hdiv : Divides (rf.read 1#5) (rf.read 2#5) .div := by decide
  have hval : Rv64.DivOp.div.value (rf.read 1#5) (rf.read 2#5) = 3#64 := by decide
  have h := divisions_iff hins rf 0#64
  exact ⟨(h.1.2 hdiv).trans hval, (h.2.2 hdiv).trans hval⟩

/-- `div x3, x1, x2` takes `-7` for a large number, and divides by zero to zero. -/
theorem divisions_fail :
    let ins : Ins := 0x0220c1b3#32
    let rf (b : Word) : Regs := fun r => if r = 1#5 then -7#64 else b
    Rv64.DivOp.div.format.Matches ins ∧
      Rv64.DivOp.div.value (-7#64) 2#64 = -3#64 ∧
      Axi.compute (rf 2#64) 0#64 ins = 0x7ffffffffffffffc#64 ∧
      Diff.compute (rf 2#64) 0#64 ins = 0x7ffffffffffffffc#64 ∧
      Rv64.DivOp.div.value (-7#64) 0#64 = -1#64 ∧
      Axi.compute (rf 0#64) 0#64 ins = 0#64 ∧ Diff.compute (rf 0#64) 0#64 ins = 0#64 := by
  decide

end Oscpu.Isa
