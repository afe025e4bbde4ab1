import Oscpu.Axi.Redirect
import Oscpu.Lib.Bytes

/-!
# The values of the CSRs that are reported

Beside each register `csr` has a wire with the value that the register is about to take. The wires
have update rules of their own: they forget that `mip` loses bit 11, and that the record of a timer
interrupt comes before an exception and before a write of `mepc` or `mcause`. Everything else
agrees, also where the rules differ, as no instruction is both a write and an `ecall` or `mret`.
-/

namespace Oscpu.Axi

open Oscpu.Rtl Oscpu.Lib

namespace Csr

variable (c : Csr) (i : CsrIn)

/-- `int_change`. -/
def intChange : Bool := c.mstatus.getLsbD 3 && (i.exceptEn || i.mtimeInt && c.interruptEn i)

/-- `mstatus_en`. -/
def mstatusEn : Bool := writes i CSR_MSTATUS && !c.timeInt i && i.wbReady

/-- `mip_diff`. -/
def mipDiff : Word := if writes i CSR_MIP then i.wdata else c.mip

/-- `mie_diff`. -/
def mieDiff : Word := if writes i CSR_MIE then i.wdata else c.mie

/-- `mscratch_diff`. -/
def mscratchDiff : Word := if writes i CSR_MSCRATCH then i.wdata else c.mscratch

/-- `mcause_diff`. -/
def mcauseDiff : Word :=
  if i.exceptEn then i.exceptCode
  else if writes i CSR_MCAUSE then i.wdata
  else if c.timeTrap i then 0x8000000000000007#64
  else c.mcause

/-- `mepc_diff`. -/
def mepcDiff : Word :=
  if i.exceptEn then alignPc i.exaddr
  else if writes i CSR_MEPC then i.wdata
  else if c.timeTrap i then alignPc i.wbaddr
  else c.mepc

/-- `mtvec_diff`. -/
def mtvecDiff : Word := if writes i CSR_MTVEC then i.wdata else c.mtvec

/-- `mstatus_diff`. -/
def mstatusDiff : Word :=
  if c.mstatusEn i then mstatusWrite i.wdata
  else if c.intChange i then mstatusTrap c.mstatus
  else if i.mret then mstatusMret c.mstatus
  else c.mstatus

/-- The wires have the values that the registers hold in `d`. -/
structure DiffsEq (d : Csr) : Prop where
  mstatus : c.mstatusDiff i = d.mstatus
  mie : c.mieDiff i = d.mie
  mtvec : c.mtvecDiff i = d.mtvec
  mepc : c.mepcDiff i = d.mepc
  mcause : c.mcauseDiff i = d.mcause
  mip : c.mipDiff i = d.mip
  mscratch : c.mscratchDiff i = d.mscratch

/-- Bit 11 of `mip` is clear or overwritten. -/
def mipKept : Bool := writes i CSR_MIP || !c.mip.getLsbD 11

/-- A timer interrupt that is recorded meets no exception, and no write of another value. -/
def recordKept : Bool :=
  !c.timeTrap i || !i.exceptEn && (!writes i CSR_MCAUSE || i.wdata == 0x8000000000000007#64) &&
    (!writes i CSR_MEPC || i.wdata == alignPc i.wbaddr)

end Csr

namespace System

variable (y : System) (i : AxiIn)

/-- What is reported in a cycle with a retirement or a flush is what the registers hold after it. -/
def DiffsOk : Prop :=
  (y.core.wbHs i || y.core.flush i) = true →
    y.core.csr.DiffsEq (y.core.csrIn i) (y.step i).core.csr

/-- The rules of the wires and of the registers come to the same. -/
def diffsFit : Bool :=
  !(y.core.wbHs i || y.core.flush i) ||
    y.core.csr.mipKept (y.core.csrIn i) && y.core.csr.recordKept (y.core.csrIn i)

end System

/-! ## One register at a time -/

namespace Csr

variable {c : Csr} {i : CsrIn}

/-- What write-back holds decodes to a single system instruction, with write-back ready for a write
of a CSR. -/
structure Single (i : CsrIn) : Prop where
  word : SysWord i.exceptEn i.mret i.csrW i.exceptCode
  ready : writes i CSR_MIE = true → i.wbReady = true

namespace Single

theorem not_writes (h : Single i) (he : i.exceptEn = true) {n : BitVec 12} (hn : n ≠ 0#12) :
    writes i n = false := by
  have hword := h.word
  rw [he] at hword
  rw [writes, hword.of_ecall.2.1, beq_eq_false_iff_ne.2 hn.symm, Bool.and_false]

theorem exceptCode_eq (h : Single i) (he : i.exceptEn = true) : i.exceptCode = 11#64 := by
  have hword := h.word
  rw [he] at hword
  exact hword.of_ecall.2.2

theorem mstatusDiff_eq (h : Single i) : c.mstatusDiff i = (c.step i false).mstatus := by
  have hstep : (c.step i false).mstatus =
      if c.intChange i then mstatusTrap c.mstatus
      else if c.mstatusEn i then mstatusWrite i.wdata
      else if i.mret then mstatusMret c.mstatus
      else c.mstatus := rfl
  rw [hstep, mstatusDiff]
  cases hen : c.mstatusEn i with
  | false => simp only [Bool.false_eq_true, if_false]
  | true =>
    -- a write excludes a trap
    have hno : c.intChange i = false := by
      simp only [mstatusEn, Bool.and_eq_true, Bool.not_eq_true'] at hen
      have he : i.exceptEn = false := by
        by_contra he
        have hwr := h.not_writes (Bool.eq_true_of_not_eq_false he)
          (show CSR_MSTATUS ≠ 0#12 by decide)
        exact Bool.false_ne_true (hwr.symm.trans hen.1.1)
      have ht := hen.1.2
      simp only [timeInt] at ht
      unfold intChange interruptEn
      rw [he, hen.2, Bool.false_or, Bool.true_and, ← Bool.and_assoc, ← Bool.and_assoc,
        Bool.and_comm (c.mstatus.getLsbD 3), ht]
    rw [hno]
    simp only [Bool.false_eq_true, if_false]

theorem mieDiff_eq (h : Single i) : c.mieDiff i = (c.step i false).mie := by
  unfold mieDiff step
  cases hw : writes i CSR_MIE with
  | false => simp only [Bool.false_and, Bool.false_eq_true, if_false]
  | true => simp only [h.ready hw, Bool.and_self, Bool.false_eq_true, if_false]

theorem mipDiff_iff : c.mipDiff i = (c.step i false).mip ↔ c.mipKept i = true := by
  unfold mipDiff step mipKept
  cases writes i CSR_MIP with
  | true => simp
  | false => simpa using eq_clear_iff (by decide : 11 < 64) c.mip

theorem record_iff (h : Single i) :
    c.mcauseDiff i = (c.step i false).mcause ∧ c.mepcDiff i = (c.step i false).mepc ↔
      c.recordKept i = true := by
  unfold mcauseDiff mepcDiff step recordKept
  cases ht : c.timeTrap i with
  | false =>
    simp
  | true =>
    cases he : i.exceptEn with
    | true =>
      rw [h.exceptCode_eq he]
      simp
    | false =>
      cases writes i CSR_MCAUSE <;> cases writes i CSR_MEPC <;> simp

end Single

theorem diffsEq_iff (h : Single i) :
    c.DiffsEq i (c.step i false) ↔ (c.mipKept i && c.recordKept i) = true := by
  rw [Bool.and_eq_true, ← Single.mipDiff_iff, ← h.record_iff]
  constructor
  · intro hd
    exact ⟨hd.mip, hd.mcause, hd.mepc⟩
  · rintro ⟨hmip, hmcause, hmepc⟩
    exact ⟨h.mstatusDiff_eq, h.mieDiff_eq, rfl, hmepc, hmcause, hmip, rfl⟩

end Csr

theorem SysWords.single {y : System} {i : AxiIn} (h : SysWords y)
    (ha : (y.core.wbHs i || y.core.flush i) = true) : Csr.Single (y.core.csrIn i) := by
  refine ⟨h.wb, ?_⟩
  intro hw
  by_contra hready
  have hf : y.core.ifReadyAxi i = false := Bool.eq_false_iff.2 hready
  -- without write-back ready only an `mret` flushes, and that writes no register
  have hm : y.core.lsWb.data.mret = true := by
    simpa [Core.wbHs, Core.flush, Csr.flush, Csr.ecall, Csr.interruptEn, Core.csrIn, hf] using ha
  have hwb := h.wb
  simp only [hm] at hwb
  have hcsr : (y.core.csrIn i).csrW = 0x302#12 := hwb.of_mret.2
  rw [Csr.writes, hcsr] at hw
  exact Bool.false_ne_true ((Bool.and_false _).symm.trans hw)

theorem SysWords.diffsOk_iff {y : System} {i : AxiIn} (h : SysWords y) :
    y.DiffsOk i ↔ y.diffsFit i = true := by
  unfold System.DiffsOk System.diffsFit
  cases ha : (y.core.wbHs i || y.core.flush i) with
  | false => simp
  | true =>
    have hiff : y.core.csr.DiffsEq (y.core.csrIn i) (y.step i).core.csr ↔ _ :=
      Csr.diffsEq_iff (h.single ha)
    simpa using hiff

/-- **The reported values.** They are those of the registers after each cycle of a run in which an
instruction retires or the pipeline is flushed exactly if the rules come to the same in all of
these. -/
theorem diffs_iff {y : System} {is : Nat → AxiIn} {n : Nat} (h₀ : y.AfterReset) :
    Admits System.step System.DiffsOk y is n ↔
      Admits System.step (fun y i => y.diffsFit i = true) y is n := by
  have hsys (k : Nat) : SysWords (run System.step y is k) := by
    have htrue : Admits System.step (fun _ _ => True) y is k := fun _ _ => trivial
    exact Lib.run_invariant (fun _ _ h _ => h.step) (SysWords.afterReset h₀) htrue k le_rfl
  exact forall₂_congr fun k _ => (hsys k).diffsOk_iff

/-- Two writes, an `ecall` and an `mret` are reported right. -/
theorem diffs_iff_slowReads :
    Admits System.step System.DiffsOk trapProgram (System.inputs trapProgram slowReads) 64 :=
  (diffs_iff (System.afterReset_boot _ _ _ _ _)).2 (by unfold Admits; decide +kernel)

/-- `addi x1, x0, 128`, three `nop`s, `csrrw x0, mie, x1`, `csrrw x0, mcause, x1` and `nop`s. -/
def mcauseProgram : System :=
  System.boot false (fun _ => 0#64) 0#4 0#4
    (Mem.image [0x0000001308000093#64, 0x0000001300000013#64, 0x0000001300000013#64,
      0x3420907330409073#64, 0x1300000013#64, 0x1300000013#64])

/-- The timer interrupt is taken with the write of `mcause` in write-back: the register records the
interrupt, and the value that is written is reported. -/
theorem diffs_fail :
    let y := System.driven mcauseProgram noWait 33
    let i := y.slave.drive (noWait 33)
    y.Reachable ∧ y.Ok i ∧ y.core.wbHs i = true ∧ y.core.flush i = true ∧
      y.core.csr.mcauseDiff (y.core.csrIn i) = 128#64 ∧
        (y.step i).core.csr.mcause = 0x8000000000000007#64 ∧ ¬ y.DiffsOk i := by
  intro y i
  have hwb : y.core.wbHs i = true := by decide +kernel
  have hdiff : y.core.csr.mcauseDiff (y.core.csrIn i) = 128#64 := by decide +kernel
  have hreg : (y.step i).core.csr.mcause = 0x8000000000000007#64 := by decide +kernel
  refine ⟨System.reachable_driven (System.afterReset_boot _ _ _ _ _) _ _, Slave.drives_drive _ _,
    hwb, by decide +kernel, hdiff, hreg, ?_⟩
  intro hok
  have heq := (hok (by rw [hwb, Bool.true_or])).mcause
  rw [hdiff, hreg] at heq
  exact absurd heq (by decide)

end Oscpu.Axi
