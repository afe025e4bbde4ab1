import Oscpu.Axi.Jump
import Oscpu.Diff.Runs
import Oscpu.Lib.Bytes
import Oscpu.Lib.Rv64

/-!
# Jump targets

Both cores add the immediate to the right base, and neither clears bit 0 of the target of a `jalr`.
In `cpu_axi_diff` a `jalr` with `rd = rs1` goes where the variable `jalr_bp_tar_i` says, which does
not depend on the instruction.
-/

namespace Oscpu.Isa

open Rtl Lib

section

variable {ins : Ins} {o : Rv64.JumpOp} (h : o.format.Matches ins) (pc a : Word)
include h

theorem oImm_eq : oImm ins = match o with
    | .jal => Rv64.immJ ins
    | .jalr => Rv64.immI ins
    | .branch _ => Rv64.immB ins := by
  have hop : opcode ins = o.format.opcode := h.1
  unfold oImm
  simp only [hop]
  cases o with
  | jal | jalr => rfl
  | branch b => cases b <;> rfl

theorem oJalr_eq : oJalr ins = decide (o = .jalr) := by
  have hop : opcode ins = o.format.opcode := h.1
  rw [oJalr, hop]
  cases o with
  | jal | jalr => rfl
  | branch b => cases b <;> rfl

/-- The sum that `bru` computes: the target, but for bit 0 of that of a `jalr`. -/
theorem jumpPc_eq : Diff.jumpPc ins pc a =
    if o = .jalr then a + Rv64.immI ins else o.target ins pc a := by
  rw [Diff.jumpPc, oJalr_eq h, oImm_eq h]
  cases o <;> simp [Rv64.JumpOp.target]

theorem jalrBp_eq : Axi.jalrBp ins = decide (o = .jalr ∧ Rv64.rs1 ins = Rv64.rd ins) := by
  have hop : opcode ins = o.format.opcode := h.1
  rw [Axi.jalrBp, oJalr_eq h]
  cases o with
  | jal | branch => simp
  | jalr =>
    have hrs1 : oRs1id ins = Rv64.rs1 ins := by
      rw [oRs1id, hop]
      rfl
    have hrd : oRdid ins = Rv64.rd ins := by
      rw [oRdid, hop]
      rfl
    rw [Bool.eq_iff_iff]
    simp [hrs1, hrd]

theorem jumpPc_axi (tar : Word) : Axi.jumpPc ins pc a tar =
    if o = .jalr ∧ Rv64.rs1 ins = Rv64.rd ins then tar else Diff.jumpPc ins pc a := by
  unfold Axi.jumpPc Diff.jumpPc
  rw [jalrBp_eq h, oJalr_eq h]
  by_cases hj : o = .jalr <;> simp [hj]

theorem jumpPc_iff : Diff.jumpPc ins pc a = o.target ins pc a ↔
    (o = .jalr → (a + Rv64.immI ins).getLsbD 0 = false) := by
  rw [jumpPc_eq h]
  by_cases hj : o = .jalr
  · subst hj
    simpa [Rv64.JumpOp.target] using eq_clear_iff (by decide : 0 < 64) (a + Rv64.immI ins)
  · simp [hj]

end

/-- What keeps a `jalr` in `cpu_axi_diff` on its target: bit 0 of the sum is clear, or with
`rd = rs1`, the variable is that target. -/
def jalrFits (s : Axi.Core) (a : Word) : Bool :=
  let ins := s.ifId.data.ins
  if Rv64.rs1 ins = Rv64.rd ins then s.bru.tarI == (a + Rv64.immI ins) &&& ~~~1#64
  else !(a + Rv64.immI ins).getLsbD 0

/-- **Jump targets.** The target is right for each `jal` and each branch that is taken, and for a
`jalr` exactly if nothing has to be cleared, or the variable happens to fit. -/
theorem jumps_iff (o : Rv64.JumpOp) :
    (∀ s : Diff.Core, o.format.Matches s.ifId.data.ins → s.ifidBubble = true →
      (s.nextPc = o.target s.ifId.data.ins s.ifId.data.pc s.iduRs1 ↔
        (o = .jalr → (s.iduRs1 + Rv64.immI s.ifId.data.ins).getLsbD 0 = false))) ∧
    ∀ (y : Axi.System) (is : Nat → Axi.AxiIn) (n : Nat), y.Reachable →
      Admits Axi.System.step Axi.System.Ok y is (n + 1) → Axi.JumpFetch y is n →
      o.format.Matches y.core.ifId.data.ins →
      let a := y.core.iduRs1 (is 0)
      ((run Axi.System.step y is (n + 1)).core.ifuPc =
          o.target y.core.ifId.data.ins y.core.ifId.data.pc a ↔
        (o = .jalr → jalrFits y.core a = true)) := by
  constructor
  · intro s h hjump
    rw [Diff.Core.nextPc, hjump, if_pos rfl]
    exact jumpPc_iff h _ _
  · intro y is n hy hok hf h a
    rw [hf.ifuPc_eq hy hok, Axi.Core.jumpPcEx, jumpPc_axi h, jalrFits]
    by_cases hself : o = .jalr ∧ Rv64.rs1 y.core.ifId.data.ins = Rv64.rd y.core.ifId.data.ins
    · obtain ⟨rfl, heq⟩ := hself
      simp [heq, Rv64.JumpOp.target]
    · rw [if_neg hself, jumpPc_iff h]
      apply forall_congr'
      intro hj
      rw [if_neg fun heq => hself ⟨hj, heq⟩, Bool.not_eq_true']

/-! ## A `jalr` at the start of a program -/

/-- `cpu_diff` with this word in IF/ID and `0x80000010` in each register. -/
def jalrCore (ins : Ins) : Diff.Core :=
  let s := Diff.Core.start false (fun _ => 0x80000010#64)
    (fun k => if k = 0#64 then 0x13#32 ++ ins else 0#64) 0#64 0#64
  ((s.step false).step false).step false

/-- And `cpu_axi_diff`. -/
def jalrSystem (ins : Ins) : Axi.System :=
  Axi.System.driven (Axi.System.boot true (fun _ => 0x80000010#64) 0#4 0#4
    (Axi.Mem.image [0x13#32 ++ ins, 0x1300000013#64, 0x1300000013#64])) Axi.noWait 7

def jalrInputs (ins : Ins) : Nat → Axi.AxiIn := Axi.System.inputs (jalrSystem ins) Axi.noWait

theorem reachable_jalrSystem (ins : Ins) : (jalrSystem ins).Reachable :=
  Axi.System.reachable_driven (Axi.System.afterReset_boot _ _ _ _ _) _ _

/-- `jalr x1, 0(x5)`. -/
theorem jumps_jalr :
    let s := jalrCore 0x000280e7#32
    let y := jalrSystem 0x000280e7#32
    let is := jalrInputs 0x000280e7#32
    s.nextPc = Rv64.JumpOp.jalr.target s.ifId.data.ins s.ifId.data.pc s.iduRs1 ∧
      (run Axi.System.step y is 3).core.ifuPc =
        Rv64.JumpOp.jalr.target y.core.ifId.data.ins y.core.ifId.data.pc (y.core.iduRs1 (is 0)) := by
  intro s y is
  have h := jumps_iff .jalr
  have hf : Axi.JumpFetch y is 2 := by decide +kernel
  refine ⟨(h.1 s (by decide +kernel) (by decide +kernel)).2 fun _ => by decide +kernel, ?_⟩
  exact (h.2 y is 2 (reachable_jalrSystem _) (Axi.System.admits_inputs _ _ _) hf
    (by decide +kernel)).2 fun _ => by decide +kernel

/-- `jalr x1, 1(x5)` goes to an odd address, and in `cpu_axi_diff` `jalr x5, 0(x5)` to address 0. -/
theorem jumps_fail :
    let odd := 0x001280e7#32
    let self := 0x000282e7#32
    let s := jalrCore odd
    let y := jalrSystem odd
    let z := jalrSystem self
    (Rv64.JumpOp.jalr.format.Matches odd ∧ Rv64.JumpOp.jalr.format.Matches self) ∧
    (s.ifId.data.ins = odd ∧ s.ifidBubble = true ∧
      Rv64.JumpOp.jalr.target odd s.ifId.data.pc s.iduRs1 = 0x80000010#64 ∧
        s.nextPc = 0x80000011#64) ∧
    (y.Reachable ∧ Admits Axi.System.step Axi.System.Ok y (jalrInputs odd) 3 ∧
      Axi.JumpFetch y (jalrInputs odd) 2 ∧ y.core.ifId.data.ins = odd ∧
      Rv64.JumpOp.jalr.target odd y.core.ifId.data.pc (y.core.iduRs1 (jalrInputs odd 0)) =
        0x80000010#64 ∧
      (run Axi.System.step y (jalrInputs odd) 3).core.ifuPc = 0x80000011#64) ∧
    (z.Reachable ∧ Admits Axi.System.step Axi.System.Ok z (jalrInputs self) 3 ∧
      Axi.JumpFetch z (jalrInputs self) 2 ∧ z.core.ifId.data.ins = self ∧
      Rv64.JumpOp.jalr.target self z.core.ifId.data.pc (z.core.iduRs1 (jalrInputs self 0)) =
        0x80000010#64 ∧
      (run Axi.System.step z (jalrInputs self) 3).core.ifuPc = 0#64) := by
  intro odd self s y z
  have hy : Axi.JumpFetch y (jalrInputs odd) 2 := by decide +kernel
  have hz : Axi.JumpFetch z (jalrInputs self) 2 := by decide +kernel
  exact ⟨by decide +kernel, by decide +kernel,
    ⟨reachable_jalrSystem _, Axi.System.admits_inputs _ _ _, hy, by decide +kernel⟩,
    ⟨reachable_jalrSystem _, Axi.System.admits_inputs _ _ _, hz, by decide +kernel⟩⟩

end Oscpu.Isa
