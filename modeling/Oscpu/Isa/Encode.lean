import Oscpu.Lib.Encode
import Oscpu.Rtl.Decode

/-!
# Decoding is the inverse of encoding

What `idu` reads from an encoded instruction of a supported opcode: its immediate, the registers of
its format and the kind of its opcode. The block is the same in both cores.
-/

namespace Oscpu.Isa

open Rtl Lib

section

variable (m : Rv64.Major) (f : Rv64.Operands m.layout)

theorem opcode_encode : opcode (f.encode m.code) = m.code := f.opcode_encode m.code

/-- The row of `idu` for the immediate. -/
theorem oImm_encode : oImm (f.encode m.code) = BitVec.ofInt 64 f.imm := by
  unfold oImm
  simp only [opcode_encode]
  cases m with
  | op | op32 =>
    have himm : f.imm = 0 := f.representable
    rw [himm]
    rfl
  | opImm | opImm32 | load | jalr | system => exact f.immI_encode _
  | store => exact f.immS_encode _
  | branch => exact f.immB_encode _
  | lui | auipc => exact f.immU_encode _
  | jal => exact f.immJ_encode _

theorem oRs1id_encode : oRs1id (f.encode m.code) = if m.layout.hasRs1 then f.rs1 else 0#5 := by
  unfold oRs1id
  simp only [opcode_encode]
  cases m with
  | lui | auipc | jal => rfl
  | _ => exact f.rs1_encode _ rfl

theorem oRs2id_encode : oRs2id (f.encode m.code) = if m.layout.hasRs2 then f.rs2 else 0#5 := by
  unfold oRs2id
  simp only [opcode_encode]
  cases m with
  | op | op32 | store | branch => exact f.rs2_encode _ rfl
  | _ => rfl

theorem oRdid_encode : oRdid (f.encode m.code) = if m.layout.hasRd then f.rd else 0#5 := by
  unfold oRdid
  simp only [opcode_encode]
  cases m with
  | store | branch => rfl
  | _ => exact f.rd_encode _ rfl

theorem oRdwen_encode : oRdwen (f.encode m.code) =
    (m.layout.hasRd && m != .system && f.rd != 0#5) := by
  unfold oRdwen
  simp only [opcode_encode, oRdid_encode]
  cases m <;> rfl

/-- **`idu` inverts the encoding** of every instruction of a supported opcode. -/
theorem idu_encode :
    oImm (f.encode m.code) = BitVec.ofInt 64 f.imm ∧
    oRs1id (f.encode m.code) = (if m.layout.hasRs1 then f.rs1 else 0#5) ∧
    oRs2id (f.encode m.code) = (if m.layout.hasRs2 then f.rs2 else 0#5) ∧
    oRdid (f.encode m.code) = (if m.layout.hasRd then f.rd else 0#5) ∧
    oRdwen (f.encode m.code) = (m.layout.hasRd && m != .system && f.rd != 0#5) ∧
    oLsuLden (f.encode m.code) = (m == .load) ∧ oLsuSten (f.encode m.code) = (m == .store) ∧
    oJal (f.encode m.code) = (m == .jal) ∧ oJalr (f.encode m.code) = (m == .jalr) ∧
    oBrch (f.encode m.code) = (m == .branch) := by
  refine ⟨oImm_encode m f, oRs1id_encode m f, oRs2id_encode m f, oRdid_encode m f,
    oRdwen_encode m f, ?_, ?_, ?_, ?_, ?_⟩
  · rw [oLsuLden, opcode_encode]
    cases m <;> rfl
  · rw [oLsuSten, opcode_encode]
    cases m <;> rfl
  · rw [oJal, opcode_encode]
    cases m <;> rfl
  · rw [oJalr, opcode_encode]
    cases m <;> rfl
  · rw [oBrch, opcode_encode]
    cases m <;> rfl

end

end Oscpu.Isa
