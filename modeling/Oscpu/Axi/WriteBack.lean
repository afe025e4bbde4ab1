import Oscpu.Axi.Reference

/-!
# Write-back and the reference machine

Write-back holds one instruction at most, and when that has retired its data stays in the register
and keeps acting on the CSRs. `Back` relates both situations to the state of the machine behind that
instruction. The register file, `mstatus` and `mie` are written at the retirement, the other CSRs
from the first cycle on.
-/

namespace Oscpu.Axi

open Oscpu.Rtl Oscpu.Lib

structure LsWb.Holds (w : LsWb) (b : Arch) : Prop where
  eq : w = .of b.ins b.pc w.exres w.lsres w.csrDataRes w.csrData w.mtimeInt
  exres : oRdwen b.ins = true → w.exres = b.exres
  lsres : oRdwen b.ins = true → w.lsres = b.lsres
  csrRes : Axi.csrWen (csrChoose b.ins) = true → w.csrDataRes = b.csrRes
  csrData : Axi.csrToRf (csrChoose b.ins) = true → w.csrData = b.csrData

theorem LsWb.holds_of {b : Arch} {x l r d : Word} {t : Bool} (hx : oRdwen b.ins = true → x = b.exres)
    (hl : oRdwen b.ins = true → l = b.lsres)
    (hr : Axi.csrWen (csrChoose b.ins) = true → r = b.csrRes)
    (hd : Axi.csrToRf (csrChoose b.ins) = true → d = b.csrData) :
    (LsWb.of b.ins b.pc x l r d t).Holds b := ⟨rfl, hx, hl, hr, hd⟩

namespace LsWb.Holds

variable {w : LsWb} {b : Arch} (h : w.Holds b)
include h

theorem rdid : w.rdid = oRdid b.ins := congrArg LsWb.rdid h.eq

theorem rdwen : w.rdwen = oRdwen b.ins := congrArg LsWb.rdwen h.eq

theorem csrToRf : w.csrToRf = Axi.csrToRf (csrChoose b.ins) := congrArg LsWb.csrToRf h.eq

theorem csrWen : w.csrWen = Axi.csrWen (csrChoose b.ins) := congrArg LsWb.csrWen h.eq

theorem csr : w.csr = csrId b.ins := congrArg LsWb.csr h.eq

theorem exceptEn : w.exceptEn = isEcall b.ins := congrArg LsWb.exceptEn h.eq

theorem mret : w.mret = isMret b.ins := congrArg LsWb.mret h.eq

theorem pc : w.pc = b.pc := congrArg LsWb.pc h.eq

theorem trap : w.trap = b.lsWb.trap := by
  rw [LsWb.trap, h.exceptEn, h.mret]
  rfl

theorem wen : w.wen = b.lsWb.wen := by
  rw [LsWb.wen, h.rdwen, h.csrToRf, h.trap]
  rfl

/-- What is written is the result of the reference machine. -/
theorem rd (hw : w.wen = true) : w.rd = b.lsWb.rd := by
  have hlden : w.lden = oLsuLden b.ins := congrArg LsWb.lden h.eq
  have hb : b.lsWb.rd = wbu b.exres b.lsres (oLsuLden b.ins) (Axi.csrToRf (csrChoose b.ins))
      b.csrData := rfl
  rw [hb, LsWb.rd, hlden, h.csrToRf]
  cases hc : Axi.csrToRf (csrChoose b.ins) with
  | true => exact h.csrData hc
  | false =>
    have hrd : oRdwen b.ins = true := by
      rw [LsWb.wen, h.csrToRf, hc, Bool.or_false, Bool.and_eq_true, h.rdwen] at hw
      exact hw.1
    rw [h.exres hrd, h.lsres hrd]
    rfl

theorem writes : w.writes = b.lsWb.writes := by
  have hrd : w.rdid = b.lsWb.rdid := h.rdid
  unfold LsWb.writes
  rw [← h.wen, hrd]
  cases hw : w.wen with
  | true => rw [h.rd hw]
  | false => rfl

/-- And so are the CSRs behind it. -/
theorem settle (c : Csr) (r : Bool) : c.settle w r = c.settle b.lsWb r := by
  cases hw : w.csrWen with
  | true =>
    have hin : w.csrIn r = b.lsWb.csrIn r := by
      rw [h.eq, h.csrRes (h.csrWen.symm.trans hw)]
      rfl
    rw [Csr.settle, Csr.settle, hin]
  | false =>
    have hb : b.lsWb.csrWen = false := h.csrWen.symm.trans hw
    have hfix : b.lsWb.exceptEn = w.exceptEn ∧ b.lsWb.mret = w.mret ∧ b.lsWb.pc = w.pc ∧
        b.lsWb.exceptCode = w.exceptCode :=
      ⟨h.exceptEn.symm, h.mret.symm, h.pc.symm, (congrArg LsWb.exceptCode h.eq).symm⟩
    simp only [Csr.settle_eq, hw, hb, hfix, Bool.false_and, Bool.false_eq_true, if_false]

end LsWb.Holds

/-! ## Write-back -/

/-- Write-back is empty, and what it held has no effect any more. -/
structure Idle (y : System) (a : Arch) : Prop where
  valid : y.core.lsWb.valid = false
  trap : y.core.lsWb.data.trap = false
  rf : y.core.rf = a.rf
  csr : y.core.csr.bare = a.csr
  stable : ∀ r, a.csr.settle y.core.lsWb.data r = a.csr

/-- Write-back holds the instruction that the machine executes from `p`, and `a` is behind it. The
CSRs that do not wait for the retirement are written in its first cycle. -/
structure Full (y : System) (p a : Arch) : Prop where
  valid : y.core.lsWb.valid = true
  data : y.core.lsWb.data.Holds p
  trap : p.lsWb.trap = false
  rf : y.core.rf = p.rf
  csr : y.core.csr.bare = p.csr.settle p.lsWb false ∨
    y.core.csr.bare = p.csr ∧ y.core.idEx.valid = false
  rfNext : p.step.rf = a.rf
  csrNext : p.step.csr = a.csr

/-- Write-back, with the register write that is still to come. -/
inductive Back (y : System) (a : Arch) : List (RegId × Word) → Prop
  | idle (h : Idle y a) : Back y a []
  | full {p : Arch} (h : Full y p a) : Back y a p.lsWb.writes

namespace Csr

variable {c : Csr} {j : CsrIn}

theorem not_timeInt (h : (c.mstatus.getLsbD 3 && c.mie.getLsbD 7) = false) :
    c.timeInt j = false := by
  rw [timeInt, Bool.and_assoc j.mtimeInt, h, Bool.and_false, Bool.false_and]

theorem not_timeTrap (h : (c.mstatus.getLsbD 3 && c.mie.getLsbD 7) = false) :
    c.timeTrap j = false := by
  rw [timeTrap_eq, not_timeInt h, Bool.and_false]

theorem traps_of_masked (h : (c.mstatus.getLsbD 3 && c.mie.getLsbD 7) = false) :
    (c.mstatus.getLsbD 3 && (j.exceptEn || j.mtimeInt && c.interruptEn j)) =
      (c.mstatus.getLsbD 3 && j.exceptEn) := by
  rw [interruptEn]
  revert h
  generalize c.mstatus.getLsbD 3 = b
  generalize c.mie.getLsbD 7 = b'
  cases b <;> cases b' <;> simp

/-- With the timer masked, `mtimeInt` has no effect, and `exaddr` has one only on an `ecall`. -/
theorem step_of_masked (h : (c.mstatus.getLsbD 3 && c.mie.getLsbD 7) = false)
    (hx : j.exceptEn = true → j.exaddr = j.wbaddr) :
    (c.step j false).bare = (c.step { j with mtimeInt := false, exaddr := j.wbaddr } false).bare := by
  simp only [bare, step, traps_of_masked h, not_timeInt h, not_timeTrap h, writes, Bool.false_and,
    Bool.or_false]
  cases hex : j.exceptEn with
  | true =>
    rw [hx hex]
    rfl
  | false => rfl

end Csr

namespace Occ

variable {y : System} {i : AxiIn}

theorem bits_of_masked (hq : y.masked = true) :
    (y.core.csr.mstatus.getLsbD 3 && y.core.csr.mie.getLsbD 7) = false := by
  simpa only [System.masked, Bool.not_eq_true'] using hq

/-- Without interrupts, only a trap or a return from one flushes. -/
theorem not_flush_of_masked (hq : y.masked = true) (ht : y.core.lsWb.data.trap = false) :
    y.core.flush i = false := by
  obtain ⟨he, hm⟩ := Bool.or_eq_false_iff.1 ht
  have hex : (y.core.csrIn i).exceptEn = false := he
  have hmr : (y.core.csrIn i).mret = false := hm
  rw [Core.flush, Csr.flush, Csr.ecall, Csr.not_timeInt (bits_of_masked hq), hex, hmr]
  simp

theorem step_csr (hq : y.masked = true)
    (hx : y.core.lsWb.data.exceptEn = true → y.core.idEx.data.pc = y.core.lsWb.data.pc) :
    (y.step i).core.csr.bare =
      y.core.csr.bare.settle y.core.lsWb.data (y.core.ifReadyAxi i) :=
  Csr.step_of_masked (j := y.core.csrIn i) (bits_of_masked hq) hx

theorem step_csr_of_plain (hq : y.masked = true) (ht : y.core.lsWb.data.trap = false) :
    (y.step i).core.csr.bare =
      y.core.csr.bare.settle y.core.lsWb.data (y.core.ifReadyAxi i) := by
  apply step_csr hq
  intro he
  rw [(Bool.or_eq_false_iff.1 ht).1] at he
  exact absurd he Bool.false_ne_true

theorem step_rf (y : System) (i : AxiIn) : (y.step i).core.rf =
    y.core.rf.write (y.core.rfWen i) y.core.lsWb.data.rdid y.core.wbuRd := rfl

end Occ

namespace Idle

variable {y : System} {i : AxiIn} {a : Arch} (h : Idle y a) (hq : y.masked = true)
include h

theorem step_rf : (y.step i).core.rf = a.rf := by
  have hw : y.core.rfWen i = false := by simp [Core.rfWen, Core.wbHs, h.valid]
  rw [Occ.step_rf, hw, Regs.write_false, h.rf]

theorem regWrites_eq : y.regWrites i = [] := by
  have hw : y.core.rfWen i = false := by simp [Core.rfWen, Core.wbHs, h.valid]
  rw [System.regWrites, hw]
  rfl

include hq

theorem step_csr : (y.step i).core.csr.bare = a.csr := by
  rw [Occ.step_csr_of_plain hq h.trap, h.csr, h.stable]

theorem step_stay (hl : y.core.leaves i = false) : Idle (y.step i) a := by
  have hdata : (y.step i).core.lsWb.data = y.core.lsWb.data :=
    Occ.step_lsWb_of_quiet hl (Occ.not_flush_of_masked hq h.trap)
  refine ⟨Occ.step_wb_of_stay hl (.inl h.valid), ?_, h.step_rf, h.step_csr hq, ?_⟩
  · rw [hdata]
    exact h.trap
  · rw [hdata]
    exact h.stable

end Idle

namespace Full

variable {y : System} {i : AxiIn} {p a : Arch} (h : Full y p a)
include h

theorem plain : y.core.lsWb.data.trap = false := h.data.trap.trans h.trap

theorem settled (r : Bool) : y.core.csr.bare.settle y.core.lsWb.data r = p.csr.settle p.lsWb r := by
  have hx : p.lsWb.exceptEn = false ∧ p.lsWb.mret = false := Bool.or_eq_false_iff.1 h.trap
  rw [h.data.settle]
  rcases h.csr with hc | ⟨hc, -⟩
  · rw [hc, Csr.settle_settle (fun he => absurd (hx.1.symm.trans he) Bool.false_ne_true) hx.2]
    rfl
  · rw [hc]

variable (hq : y.masked = true)
include hq

theorem not_flush : y.core.flush i = false := Occ.not_flush_of_masked hq h.plain

theorem rfWen_eq : y.core.rfWen i = (p.lsWb.wen && y.core.ifReadyAxi i) := by
  have hw : y.core.rfWen i =
      ((y.core.lsWb.data.rdwen || y.core.lsWb.data.csrToRf) && y.core.wbHs i &&
        !y.core.flush i) := rfl
  rw [hw, h.not_flush hq, Core.wbHs, h.valid, ← h.data.wen, LsWb.wen, h.plain]
  simp

theorem regWrites_eq :
    y.regWrites i = if y.core.ifReadyAxi i then p.lsWb.writes else [] := by
  rw [System.regWrites, h.rfWen_eq hq]
  cases y.core.ifReadyAxi i with
  | false => simp
  | true =>
    rw [Bool.and_true, if_pos rfl, ← h.data.writes, ← h.data.wen]
    rfl

theorem step_rf_of_retire (hf : y.core.ifReadyAxi i = true) : (y.step i).core.rf = a.rf := by
  rw [Occ.step_rf, h.rfWen_eq hq, hf, Bool.and_true, h.rf, ← h.rfNext]
  have hstep : p.step.rf = p.rf.write p.lsWb.wen p.lsWb.rdid p.lsWb.rd := rfl
  have hrd : y.core.lsWb.data.rdid = p.lsWb.rdid := h.data.rdid
  have hwbu : y.core.wbuRd = y.core.lsWb.data.rd := rfl
  rw [hstep, hrd, hwbu]
  cases hw : p.lsWb.wen with
  | false => simp
  | true => rw [h.data.rd (h.data.wen.trans hw)]

theorem step_csr_of_retire (hf : y.core.ifReadyAxi i = true) :
    (y.step i).core.csr.bare = a.csr := by
  rw [Occ.step_csr_of_plain hq h.plain, h.settled, hf, ← h.csrNext]
  rfl

/-- It retires, and nothing takes its place. -/
theorem step_retire (hl : y.core.leaves i = false) (hf : y.core.ifReadyAxi i = true) :
    Idle (y.step i) a := by
  have hdata : (y.step i).core.lsWb.data = y.core.lsWb.data :=
    Occ.step_lsWb_of_quiet hl (h.not_flush hq)
  have hx : p.lsWb.exceptEn = false ∧ p.lsWb.mret = false := Bool.or_eq_false_iff.1 h.trap
  refine ⟨Occ.step_wb_of_stay hl (.inr hf), ?_, h.step_rf_of_retire hq hf,
    h.step_csr_of_retire hq hf, ?_⟩
  · rw [hdata]
    exact h.plain
  · intro r
    have hnext : a.csr = p.csr.settle p.lsWb true := h.csrNext.symm
    rw [hdata, h.data.settle, hnext,
      Csr.settle_settle (fun he => absurd (hx.1.symm.trans he) Bool.false_ne_true) hx.2]
    rfl

theorem step_wait (hf : y.core.ifReadyAxi i = false) : Full (y.step i) p a := by
  have hsame := Occ.step_lsWb_of_wait h.valid hf (h.not_flush hq)
  refine ⟨?_, ?_, h.trap, ?_, .inl ?_, h.rfNext, h.csrNext⟩
  · rw [hsame]
    exact h.valid
  · rw [hsame]
    exact h.data
  · rw [Occ.step_rf, h.rfWen_eq hq, hf, Bool.and_false, Regs.write_false, h.rf]
  · rw [Occ.step_csr_of_plain hq h.plain, h.settled, hf]

end Full

namespace Back

variable {y : System} {i : AxiIn} {a : Arch} {out : List (RegId × Word)} (h : Back y a out)
include h

theorem plain : y.core.lsWb.data.trap = false := by
  cases h with
  | idle h => exact h.trap
  | full h => exact h.plain

theorem not_flush (hq : y.masked = true) : y.core.flush i = false :=
  Occ.not_flush_of_masked hq h.plain

/-- Nothing leaves MEM. -/
theorem step_stay (hq : y.masked = true) (hl : y.core.leaves i = false) :
    ∃ out', out = y.regWrites i ++ out' ∧ Back (y.step i) a out' := by
  cases h with
  | idle h => exact ⟨[], by rw [h.regWrites_eq, List.append_nil], .idle (h.step_stay hq hl)⟩
  | full h =>
    rw [h.regWrites_eq hq]
    cases hf : y.core.ifReadyAxi i with
    | true => exact ⟨[], (List.append_nil _).symm, .idle (h.step_retire hq hl hf)⟩
    | false => exact ⟨_, rfl, .full (h.step_wait hq hf)⟩

/-- What leaves MEM finds write-back done with what it held. -/
theorem step_leave (hq : y.masked = true) (hl : y.core.leaves i = true) :
    out = y.regWrites i ∧ (y.step i).core.rf = a.rf ∧ (y.step i).core.csr.bare = a.csr := by
  cases h with
  | idle h => exact ⟨h.regWrites_eq.symm, h.step_rf, h.step_csr hq⟩
  | full h =>
    have hf : y.core.ifReadyAxi i = true := by
      simp only [Core.leaves, Core.memReady, Stage.ready, h.valid, Bool.not_true, Bool.false_or,
        Bool.and_eq_true] at hl
      exact hl.2
    exact ⟨by rw [h.regWrites_eq hq, hf, if_pos rfl], h.step_rf_of_retire hq hf,
      h.step_csr_of_retire hq hf⟩

end Back

/-! ## What the younger instruction reads -/

/-- A register that is no destination in write-back, or only one that is forwarded. -/
theorem Full.older_eq {y : System} {p a : Arch} (h : Full y p a) {r : RegId}
    (hr : r = 0#5 ∨ (y.core.lsWb.data.csrToRf && y.core.lsWb.data.rdid == r) = false) :
    y.core.older r = a.rf.read r := by
  have hstep : p.step.rf = p.rf.write p.lsWb.wen p.lsWb.rdid p.lsWb.rd := rfl
  have hrd : p.lsWb.rdid = y.core.lsWb.data.rdid := h.data.rdid.symm
  have hwen : p.lsWb.wen = (y.core.lsWb.data.rdwen || y.core.lsWb.data.csrToRf) := by
    rw [← h.data.wen, LsWb.wen, h.plain, Bool.not_false, Bool.and_true]
  rw [← h.rfNext, hstep, Regs.read_write, hwen, hrd, Core.older, h.valid, Bool.true_and, h.rf]
  cases hm : (y.core.lsWb.data.rdwen && y.core.lsWb.data.rdid == r) with
  | true =>
    simp only [Bool.and_eq_true, beq_iff_eq] at hm
    obtain ⟨hw, rfl⟩ := hm
    have hne : y.core.lsWb.data.rdid ≠ 0#5 := by
      rw [h.data.rdid]
      exact oRdwen_ne_zero (h.data.rdwen.symm.trans hw)
    have hval : y.core.wbuRd = p.lsWb.rd := by
      apply h.data.rd
      rw [h.data.wen, hwen, hw, Bool.true_or]
    simp [hw, hval, hne]
  | false =>
    rcases hr with rfl | hr
    · simp
    · have hno : ((y.core.lsWb.data.rdwen || y.core.lsWb.data.csrToRf) &&
          y.core.lsWb.data.rdid == r) = false := by
        rw [Bool.and_or_distrib_right, hm, hr]
        rfl
      simp [hno]

theorem Full.raw_eq {y : System} {p a : Arch} (h : Full y p a) {r : RegId}
    (hr : r = 0#5 ∨ ((y.core.lsWb.data.csrToRf || y.core.lsWb.data.rdwen) &&
      y.core.lsWb.data.rdid == r) = false) :
    y.core.rf.read r = a.rf.read r := by
  have hstep : p.step.rf = p.rf.write p.lsWb.wen p.lsWb.rdid p.lsWb.rd := rfl
  have hrd : p.lsWb.rdid = y.core.lsWb.data.rdid := h.data.rdid.symm
  have hwen : p.lsWb.wen = (y.core.lsWb.data.csrToRf || y.core.lsWb.data.rdwen) := by
    rw [← h.data.wen, LsWb.wen, h.plain, Bool.not_false, Bool.and_true, Bool.or_comm]
  rw [← h.rfNext, hstep, Regs.read_write, hwen, hrd, h.rf]
  rcases hr with rfl | hr
  · simp
  · rw [hr]
    rfl

namespace Back

variable {y : System} {a : Arch} {out : List (RegId × Word)} {ins : Ins} (h : Back y a out)
  (hc : y.core.lsWb.valid = true → y.core.lsWb.data.withholds ins = false)
include h hc

theorem older_eq (hins : isCsr ins = false) {r : RegId} (hr : r = oRs1id ins ∨ r = oRs2id ins) :
    y.core.older r = a.rf.read r := by
  cases h with
  | idle h => rw [Core.older, h.valid, h.rf]; rfl
  | full h =>
    refine h.older_eq (or_iff_not_imp_left.2 ?_)
    intro hne
    have hw := hc h.valid
    by_contra hm
    simp only [Bool.not_eq_false, Bool.and_eq_true, beq_iff_eq] at hm
    obtain ⟨ht, hrd⟩ := hm
    have hreads : readsReg ins r = true := by
      simp only [readsReg, hins, Bool.false_eq_true, if_false, Bool.and_eq_true, Bool.not_eq_true',
        beq_eq_false_iff_ne, Bool.or_eq_true, beq_iff_eq]
      exact ⟨hne, hr.imp Eq.symm Eq.symm⟩
    simp [LsWb.withholds, ht, hrd, hreads] at hw

/-- `csr_wdata` of the instruction in EX. -/
theorem csrWdata_eq (hwen : csrWen (csrChoose ins) = true) :
    csrWdata ins (y.core.rf.read (oRs1id ins)) = csrWdata ins (a.rf.read (oRs1id ins)) := by
  cases h with
  | idle h => rw [h.rf]
  | full h =>
    obtain ⟨op, imm, hop⟩ := csrOp_of_csrWen hwen
    have hcsr := isCsr_of_csrOp hop
    rw [csrWdata_of_csrOp hop, csrWdata_of_csrOp hop, csrOperand, csrOperand]
    cases himm : imm with
    | true => rfl
    | false =>
      have hrs1 : rs1id ins = oRs1id ins := by
        have htype : opcode ins = TYPE_CSR := by simpa [isCsr] using hcsr
        simp [oRs1id, htype]
      rw [if_neg Bool.false_ne_true, if_neg Bool.false_ne_true, hrs1]
      refine h.raw_eq (or_iff_not_imp_left.2 ?_)
      intro hne
      have hw := hc h.valid
      by_contra hm
      simp only [Bool.not_eq_false, Bool.and_eq_true, beq_iff_eq] at hm
      obtain ⟨ht, hrd⟩ := hm
      have hreads : readsReg ins (oRs1id ins) = true := by
        rw [himm] at hop
        rw [readsReg, hcsr, func3_of_csrOp hop]
        cases op <;> simp [CsrOp.func3, hne]
      simp [LsWb.withholds, hcsr, ht, hrd, hreads] at hw

/-- And what it reads of the CSRs. -/
theorem csrData_eq (hex : y.core.idEx.valid = true) (hrs : csrToRf (csrChoose ins) = true) :
    y.core.csr.read (csrId ins) = a.csr.read (csrId ins) := by
  cases h with
  | idle h => rw [← h.csr, Csr.bare_read]
  | @full p h =>
    have hw := hc h.valid
    rcases h.csr with hcsr | ⟨-, hn⟩
    · have hnext : a.csr = p.csr.settle p.lsWb true := h.csrNext.symm
      rw [← Csr.bare_read, hcsr, hnext]
      apply Csr.read_settle
      intro hwen hn
      have hwen' : y.core.lsWb.data.csrWen = true := h.data.csrWen.trans hwen
      have hn' : y.core.lsWb.data.csr = csrId ins := h.data.csr.trans hn
      rw [LsWb.withholds, Bool.or_eq_false_iff] at hw
      simpa [hwen', hn', hrs] using hw.2
    · rw [hex] at hn
      exact absurd hn (by simp)

end Back

end Oscpu.Axi
