import Oscpu.Isa.Execute
import Oscpu.Lib.Signed

/-!
# Comparisons

The ALU and `bru` read a signed comparison off the sign of the 64-bit difference, which is right
exactly when the difference does not overflow. Unsigned comparisons have a borrow bit to read, and
are right everywhere.
-/

namespace Oscpu.Isa

open Rtl Lib

section

variable (a b : Word)

theorem extractLsb'_eq_ofBool_msb (x : Word) : x.extractLsb' 63 1 = BitVec.ofBool x.msb := by
  apply BitVec.eq_of_getLsbD_eq
  intro k hk
  have hk0 : k = 0 := by omega
  subst hk0
  simp [BitVec.msb_eq_getLsbD_last]

/-- A bit under zeros is one of the two outcomes. -/
theorem append_ofBool_eq_iff (c : Bool) (p : Prop) [Decidable p] :
    (0#63 ++ BitVec.ofBool c : Word) = (if p then 1#64 else 0#64) ↔ c = decide p := by
  cases c <;> by_cases h : p <;> simp [h]

/-- The comparison that a core makes by an order: the sign of the difference, or its borrow. -/
def compared : Rv64.Order → Bool
  | .signed => (a - b).msb
  | .unsigned => a.toNat < b.toNat

theorem compared_iff (o : Rv64.Order) :
    compared a b o = decide (o.Less a b) ↔ (o = .signed → a.ssubOverflow b = false) := by
  cases o with
  | signed => exact (msb_sub_iff a b).trans ⟨fun h _ => h, fun h => h rfl⟩
  | unsigned => exact iff_of_true rfl fun h => Rv64.Order.noConfusion h

theorem alu_set (rf : Regs) (pc : Word) (ins : Ins) (o : Rv64.SetOp) :
    alu ((Instr.set o).operands rf pc ins).1 ((Instr.set o).operands rf pc ins).2
        (Instr.set o).exopt =
      0#63 ++ BitVec.ofBool (compared (rf.read (Rv64.rs1 ins))
        (o.operand ins (rf.read (Rv64.rs2 ins))) o.order) := by
  have hslt (a b : Word) : alu a b EXU_SLT = 0#63 ++ BitVec.ofBool (a - b).msb := by
    rw [← extractLsb'_eq_ofBool_msb]
    rfl
  have hsltu (a b : Word) : alu a b EXU_SLTU = 0#63 ++ BitVec.ofBool (a.toNat < b.toNat) := by
    rw [← borrow_eq]
    rfl
  cases o with
  | slt | slti => exact hslt _ _
  | sltu | sltiu => exact hsltu _ _

/-! ## Branches -/

/-- What `bru` takes for the condition of a branch. -/
def branchTaken : Rv64.BranchOp → Bool
  | .beq => decide (a = b)
  | .bne => !decide (a = b)
  | .blt => compared a b .signed
  | .bge => !compared a b .signed
  | .bltu => compared a b .unsigned
  | .bgeu => !compared a b .unsigned

/-- The multiplexer `mux_branch` has an entry for every branch. -/
theorem branch_eq {o : Rv64.BranchOp} {f3 : BitVec 3} (hf3 : o.format.funct3 = some f3) :
    Axi.branch f3 a b = branchTaken a b o := by
  have hkeys (p q r s t u : BitVec 1) : ([(FUNC3_BEQ, p), (FUNC3_BNE, q), (FUNC3_BLT, r),
      (FUNC3_BGE, s), (FUNC3_BLTU, t), (FUNC3_BGEU, u)].map Prod.fst).Nodup := by
    simp [FUNC3_BEQ, FUNC3_BNE, FUNC3_BLT, FUNC3_BGE, FUNC3_BLTU, FUNC3_BGEU]
  have hbit (c : Bool) : (BitVec.ofBool c == 1#1) = c := by cases c <;> rfl
  have hnot (c : Bool) : (~~~BitVec.ofBool c == 1#1) = !c := by cases c <;> rfl
  have hzero : (if a - b = 0#64 then 0#1 else 1#1 : BitVec 1) = BitVec.ofBool !decide (a = b) := by
    have hsub : a - b = 0#64 ↔ a = b := by rw [BitVec.sub_eq_iff_eq_add, BitVec.zero_add]
    by_cases h : a = b <;> simp [hsub, h]
  unfold Axi.branch
  dsimp only
  rw [stlMuxDefault_concatLut _ _ (hkeys ..), extractLsb'_eq_ofBool_msb, borrow_eq, hzero]
  cases o <;> cases hf3
  case beq => exact (hnot _).trans (Bool.not_not _)
  case bne | blt | bltu => exact hbit _
  case bge | bgeu => exact hnot _

theorem branchTaken_iff (o : Rv64.BranchOp) : branchTaken a b o = decide (o.Holds a b) ↔
    (o.signed = true → a.ssubOverflow b = false) := by
  have hs : compared a b .signed = decide (a.toInt < b.toInt) ↔ a.ssubOverflow b = false :=
    msb_sub_iff a b
  have hge : decide (b.toInt ≤ a.toInt) = !decide (a.toInt < b.toInt) := by
    rw [← decide_not, decide_eq_decide, Int.not_lt]
  have hgeu : decide (b.toNat ≤ a.toNat) = !decide (a.toNat < b.toNat) := by
    rw [← decide_not, decide_eq_decide, Nat.not_lt]
  cases o with
  | beq => exact iff_of_true rfl nofun
  | bne => exact iff_of_true (decide_not (p := a = b)).symm nofun
  | blt => exact hs.trans ⟨fun h _ => h, fun h => h rfl⟩
  | bge =>
    refine Iff.trans ?_ (hs.trans ⟨fun h _ => h, fun h => h rfl⟩)
    exact (Eq.congr_right hge).trans (Bool.not_inj_iff)
  | bltu => exact iff_of_true rfl nofun
  | bgeu => exact iff_of_true hgeu.symm nofun

theorem jump_eq {o : Rv64.BranchOp} {ins : Ins} (h : o.format.Matches ins) :
    Axi.jump ins a b = branchTaken a b o := by
  have hf3 : o.format.funct3 = some (func3 ins) := by
    cases o <;> exact congrArg some (h.2.1 _ rfl).symm
  have hop : opcode ins = 0b1100011#7 := by cases o <;> exact h.1
  rw [Axi.jump, branch_eq a b hf3, oBrch, oJal, oJalr, hop]
  exact (Bool.or_false _).trans (Bool.or_false _)

end

/-- **Comparisons.** A comparison comes out right exactly if it is not a signed one whose
difference overflows. -/
theorem comparisons_iff (ins : Ins) :
    (∀ (o : Rv64.SetOp) (rf : Regs) (pc : Word), o.format.Matches ins →
      let a := rf.read (Rv64.rs1 ins)
      let b := rf.read (Rv64.rs2 ins)
      let fits := o.order = .signed → a.ssubOverflow (o.operand ins b) = false
      (Axi.compute rf pc ins = o.value ins a b ↔ fits) ∧
        (Diff.compute rf pc ins = o.value ins a b ↔ fits)) ∧
    ∀ (o : Rv64.BranchOp) (a b : Word), o.format.Matches ins →
      let fits := o.signed = true → a.ssubOverflow b = false
      (Axi.jump ins a b = decide (o.Holds a b) ↔ fits) ∧
        (Diff.jump ins a b = decide (o.Holds a b) ↔ fits) := by
  constructor
  · intro o rf pc h a b fits
    have haxi : Axi.compute rf pc ins = o.value ins a b ↔ fits := by
      rw [compute_eq (o := .set o) h, alu_set, Rv64.SetOp.value, append_ofBool_eq_iff]
      exact compared_iff a (o.operand ins b) o.order
    exact ⟨haxi, by rw [compute_diff (o := .set o) h]; exact haxi⟩
  · intro o a b h fits
    have haxi : Axi.jump ins a b = decide (o.Holds a b) ↔ fits := by
      rw [jump_eq a b h]
      exact branchTaken_iff a b o
    exact ⟨haxi, haxi⟩

/-- `slt x3, x1, x2` with the registers `-1` and `1`. -/
theorem comparisons_slt :
    let rf : Regs := fun r => if r = 1#5 then 0xffffffffffffffff#64 else 1#64
    Axi.compute rf 0#64 0x0020a1b3#32 = 1#64 ∧ Diff.compute rf 0#64 0x0020a1b3#32 = 1#64 := by
  intro rf
  have h := (comparisons_iff 0x0020a1b3#32).1 .slt rf 0#64 (by decide)
  exact ⟨h.1.2 fun _ => by decide, h.2.2 fun _ => by decide⟩

/-- The least number is not less than 1 for `slt x3, x1, x2` and `blt x1, x2, 8`. -/
theorem comparisons_fail :
    let least := 0x8000000000000000#64
    let rf : Regs := fun r => if r = 1#5 then least else 1#64
    Rv64.SetOp.slt.format.Matches 0x0020a1b3#32 ∧
      Rv64.SetOp.slt.value 0x0020a1b3#32 least 1#64 = 1#64 ∧
      Axi.compute rf 0#64 0x0020a1b3#32 = 0#64 ∧ Diff.compute rf 0#64 0x0020a1b3#32 = 0#64 ∧
      Rv64.BranchOp.blt.format.Matches 0x0020c463#32 ∧ Rv64.BranchOp.blt.Holds least 1#64 ∧
      Axi.jump 0x0020c463#32 least 1#64 = false ∧ Diff.jump 0x0020c463#32 least 1#64 = false := by
  decide

end Oscpu.Isa
