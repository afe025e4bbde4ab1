import Oscpu.Axi.Units
import Oscpu.Diff.Units
import Oscpu.Lib.Rv64

/-!
# `idu` and `exu` on the words of RV64IM

Both cores decode a computing instruction to the same operation and operands. The operations that
neither compare nor multiply nor divide are those of the instruction set, whatever the registers
hold.
-/

namespace Oscpu

open Rtl Lib

/-- `idu` and `exu` of `cpu_axi_diff` on an instruction word, with the operands from the register
file. -/
def Axi.compute (rf : Regs) (pc : Word) (ins : Ins) : Word :=
  Axi.exu pc (rf.read (oRs1id ins)) (rf.read (oRs2id ins)) (oImm ins) (Axi.iduSrcSel ins)
    (Axi.iduExopt ins)

/-- `idu` and `exu` of `cpu_diff`. -/
def Diff.compute (rf : Regs) (pc : Word) (ins : Ins) : Word :=
  Diff.exu pc (rf.read (oRs1id ins)) (rf.read (oRs2id ins)) (oImm ins) (Diff.iduSrcSel ins)
    (Diff.iduExopt ins)

namespace Isa

/-- An instruction that the ALU computes. -/
inductive Instr where
  | int (o : Rv64.IntOp)
  | set (o : Rv64.SetOp)
  | mul (o : Rv64.MulOp)
  | div (o : Rv64.DivOp)

namespace Instr

@[simp] def format : Instr → Rv64.Format
  | int o => o.format
  | set o => o.format
  | mul o => o.format
  | div o => o.format

/-- The operation that `idu` decodes it to. -/
def exopt : Instr → BitVec 6
  | int .add | int .addi | int .lui | int .auipc | int .jal | int .jalr => EXU_ADD
  | int .sub => EXU_SUB
  | int .sll | int .slli => EXU_SLL
  | int .srl | int .srli => EXU_SRL
  | int .sra | int .srai => EXU_SRA
  | int .xor | int .xori => EXU_XOR
  | int .or | int .ori => EXU_OR
  | int .and | int .andi => EXU_AND
  | int .addw | int .addiw => EXU_ADDW
  | int .subw => EXU_SUBW
  | int .sllw | int .slliw => EXU_SLLW
  | int .srlw | int .srliw => EXU_SRLW
  | int .sraw | int .sraiw => EXU_SRAW
  | set .slt | set .slti => EXU_SLT
  | set .sltu | set .sltiu => EXU_SLTU
  | mul .mul => EXU_MUL
  | mul .mulh => EXU_MULH
  | mul .mulhsu => EXU_MULHSU
  | mul .mulhu => EXU_MULHU
  | div .div => EXU_DIV
  | div .divu => EXU_DIVU
  | div .rem => EXU_REM
  | div .remu => EXU_REMU
  | div .divw => EXU_DIVW
  | div .divuw => EXU_DIVUW
  | div .remw => EXU_REMW
  | div .remuw => EXU_REMUW

/-- The operands that `exu` selects. -/
def operands (rf : Regs) (pc : Word) (ins : Ins) : Instr → Word × Word
  | int .addi | int .slli | int .srli | int .srai | int .xori | int .ori | int .andi
  | int .addiw | int .slliw | int .srliw | int .sraiw
  | set .slti | set .sltiu => (rf.read (Rv64.rs1 ins), Rv64.immI ins)
  | int .lui => (0#64, Rv64.immU ins)
  | int .auipc => (pc, Rv64.immU ins)
  | int .jal | int .jalr => (pc, 4#64)
  | _ => (rf.read (Rv64.rs1 ins), rf.read (Rv64.rs2 ins))

end Instr

section

variable {o : Instr} {ins : Ins}

@[simp] theorem matches_seven (f : BitVec 7) :
    (Rv64.Funct.seven f).Matches ins ↔ func7 ins = f := Iff.rfl

@[simp] theorem matches_six (f : BitVec 6) :
    (Rv64.Funct.six f).Matches ins ↔ (func7 ins).extractLsb' 1 6 = f := by
  have hsix : (func7 ins).extractLsb' 1 6 = ins.extractLsb' 26 6 := by
    apply BitVec.eq_of_getLsbD_eq
    intro k hk
    simp [func7, hk, Nat.add_lt_add_left hk 1, ← Nat.add_assoc]
  rw [hsix]
  rfl

/-- The fields as `idu` names them. -/
theorem fields {f : Rv64.Format} (h : f.Matches ins) :
    opcode ins = f.opcode ∧ (∀ x ∈ f.funct3, func3 ins = x) ∧ f.funct.Matches ins := h

/-- The operation does not depend on the row of system instructions. -/
theorem oExopt_eq (h : o.format.Matches ins) (csrOpt : BitVec 6) :
    oExopt ins csrOpt = o.exopt := by
  have hf := fields h
  unfold oExopt
  rcases o with o | o | o | o <;> cases o
  all_goals
    simp at hf
    simp only [hf]
    rfl

theorem oSrcSel_eq (h : o.format.Matches ins) (csrSel : BitVec 2) :
    oSrcSel ins csrSel = oSrcSel ins EXU_SEL_IMM := by
  have hop : opcode ins = o.format.opcode := h.1
  unfold oSrcSel
  rw [hop]
  rcases o with o | o | o | o <;> cases o <;> rfl

/-- The operand multiplexers of `exu`. -/
theorem exu_eq (pc rs1 rs2 imm : Word) (sel : BitVec 2) (opt : BitVec 6) :
    Axi.exu pc rs1 rs2 imm sel opt =
      alu (if sel = EXU_SEL_REG ∨ sel = EXU_SEL_IMM then rs1 else pc)
        (if sel = EXU_SEL_REG then rs2 else if sel = EXU_SEL_PC4 then 4#64 else imm) opt := by
  have hkeys (x y z w : Word) : ([(EXU_SEL_REG, x), (EXU_SEL_IMM, y), (EXU_SEL_PC4, z),
      (EXU_SEL_PCI, w)].map Prod.fst).Nodup := by
    simp [EXU_SEL_REG, EXU_SEL_IMM, EXU_SEL_PC4, EXU_SEL_PCI]
  unfold Axi.exu
  rw [stlMuxDefault_concatLut _ _ (hkeys ..), stlMuxDefault_concatLut _ _ (hkeys ..)]
  have hsel : sel = EXU_SEL_REG ∨ sel = EXU_SEL_IMM ∨ sel = EXU_SEL_PC4 ∨ sel = EXU_SEL_PCI := by
    revert sel
    decide
  rcases hsel with rfl | rfl | rfl | rfl <;> rfl

theorem compute_eq (h : o.format.Matches ins) (rf : Regs) (pc : Word) :
    Axi.compute rf pc ins = alu (o.operands rf pc ins).1 (o.operands rf pc ins).2 o.exopt := by
  have hop : opcode ins = o.format.opcode := h.1
  rw [Axi.compute, Axi.iduExopt, oExopt_eq h, exu_eq, Axi.iduSrcSel, oSrcSel, oRs1id, oRs2id, oImm]
  simp only [hop]
  rcases o with o | o | o | o <;> cases o <;> rfl

/-- `cpu_diff` has the same tables. -/
theorem compute_diff (h : o.format.Matches ins) (rf : Regs) (pc : Word) :
    Diff.compute rf pc ins = Axi.compute rf pc ins := by
  rw [Diff.compute, Diff.iduExopt, oExopt_eq h, Axi.compute, Axi.iduExopt, oExopt_eq h,
    Axi.iduSrcSel, oSrcSel_eq h]
  rfl

/-! ## The operations of the ALU -/

theorem extractLsb'_toNat {w : Nat} (x : BitVec w) (n : Nat) :
    (x.extractLsb' 0 n).toNat = x.toNat % 2 ^ n := by
  rw [BitVec.extractLsb'_toNat, Nat.shiftRight_zero]

theorem lowW_eq (x : Word) : lowW x = x.setWidth 32 := BitVec.eq_of_toNat_eq <| by
  rw [lowW, extractLsb'_toNat, BitVec.toNat_setWidth]

theorem extractLsb'_immI (ins : Ins) {n : Nat} (hn : n ≤ 12) :
    (Rv64.immI ins).extractLsb' 0 n = ins.extractLsb' 20 n := by
  apply BitVec.eq_of_getLsbD_eq
  intro k hk
  have h12 : k < 12 := by omega
  have h64 : k < 64 := by omega
  simp only [Rv64.immI, BitVec.getLsbD_extractLsb', BitVec.getLsbD_signExtend, Nat.zero_add, hk, h12,
    h64, decide_true, Bool.true_and, if_true]

/-- An arithmetic shift as a logical shift of the word between copies of its sign. -/
theorem extractLsb'_signExtend_ushiftRight {w v n : Nat} (x : BitVec w) (hn : w + n ≤ v) :
    ((x.signExtend v) >>> n).extractLsb' 0 w = x.sshiftRight n := by
  apply BitVec.eq_of_getLsbD_eq
  intro k hk
  have hv : n + k < v := by omega
  rw [BitVec.getLsbD_extractLsb', Nat.zero_add, BitVec.getLsbD_ushiftRight,
    BitVec.getLsbD_signExtend, BitVec.getLsbD_sshiftRight]
  simp [hk, hv]

theorem alu_int (rf : Regs) (pc : Word) (ins : Ins) (o : Rv64.IntOp) :
    alu ((Instr.int o).operands rf pc ins).1 ((Instr.int o).operands rf pc ins).2
        (Instr.int o).exopt =
      o.value ins pc (rf.read (Rv64.rs1 ins)) (rf.read (Rv64.rs2 ins)) := by
  have hsh (b : Word) : (b.extractLsb' 0 6).toNat = b.toNat % 64 := extractLsb'_toNat b 6
  have hshW (b : Word) : (b.extractLsb' 0 5).toNat = b.toNat % 32 := extractLsb'_toNat b 5
  have hshI : ((Rv64.immI ins).extractLsb' 0 6).toNat = Rv64.shamt ins := by
    rw [extractLsb'_immI ins (by omega), Rv64.shamt]
  have hshIW : ((Rv64.immI ins).extractLsb' 0 5).toNat = Rv64.shamtW ins := by
    rw [extractLsb'_immI ins (by omega), Rv64.shamtW]
  have hsra (a : Word) (n : Nat) (hn : n < 64) :
      ((a.signExtend 128) >>> n).extractLsb' 0 64 = a.sshiftRight n :=
    extractLsb'_signExtend_ushiftRight a (by omega)
  have hsraW (a : BitVec 32) (n : Nat) (hn : n < 32) :
      lowW ((a.signExtend 64) >>> n) = a.sshiftRight n :=
    extractLsb'_signExtend_ushiftRight a (by omega)
  cases o with
  | add | sub | xor | or | and | addi | xori | ori | andi | auipc | jal | jalr => rfl
  | lui => exact BitVec.zero_add _
  | sll | srl | slli | srli => simp only [Rv64.IntOp.value, ← hsh, ← hshI]; rfl
  | sra => simp only [Rv64.IntOp.value, ← hsh]; rw [← hsra _ _ (BitVec.isLt _)]; rfl
  | srai => simp only [Rv64.IntOp.value, ← hshI]; rw [← hsra _ _ (BitVec.isLt _)]; rfl
  | addw | subw | addiw => simp only [Rv64.IntOp.value, ← lowW_eq]; rfl
  | sllw | srlw | slliw | srliw => simp only [Rv64.IntOp.value, ← lowW_eq, ← hshW, ← hshIW]; rfl
  | sraw =>
    simp only [Rv64.IntOp.value, ← lowW_eq, ← hshW]; rw [← hsraW _ _ (BitVec.isLt _)]; rfl
  | sraiw =>
    simp only [Rv64.IntOp.value, ← lowW_eq, ← hshIW]; rw [← hsraW _ _ (BitVec.isLt _)]; rfl

/-- **Computation.** What both cores compute for an instruction word is the value of the
instruction set. -/
theorem compute_int {o : Rv64.IntOp} (h : o.format.Matches ins) (rf : Regs) (pc : Word) :
    let v := o.value ins pc (rf.read (Rv64.rs1 ins)) (rf.read (Rv64.rs2 ins))
    Axi.compute rf pc ins = v ∧ Diff.compute rf pc ins = v := by
  intro v
  have haxi : Axi.compute rf pc ins = v :=
    (compute_eq (o := .int o) h rf pc).trans (alu_int rf pc ins o)
  exact ⟨haxi, (compute_diff (o := .int o) h rf pc).trans haxi⟩

end

/-- `sraiw x1, x2, 4` of `2 ^ 31`. -/
theorem compute_int_sraiw :
    let rf : Regs := fun _ => 0x80000000#64
    Axi.compute rf 0#64 0x4041509b#32 = 0xfffffffff8000000#64 ∧
      Diff.compute rf 0#64 0x4041509b#32 = 0xfffffffff8000000#64 := by
  intro rf
  have hins : Rv64.IntOp.sraiw.format.Matches 0x4041509b#32 := by decide
  have hval : Rv64.IntOp.sraiw.value 0x4041509b#32 0#64 (rf.read 2#5) (rf.read 4#5) =
      0xfffffffff8000000#64 := by decide
  have h := compute_int hins rf 0#64
  exact ⟨h.1.trans hval, h.2.trans hval⟩

end Isa

end Oscpu
