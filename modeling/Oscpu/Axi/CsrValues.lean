import Oscpu.Axi.Redirect

/-!
# What a CSR instruction reads

`exu` reads the CSR and the operand without forwarding, while an older instruction may still be in
write-back: `csrHazard` is the case that this one writes what is read. In every other case the
registers are the same when the CSR instruction comes to write-back. The data of write-back outlive
their instruction, and `csr` goes on writing them, but what it writes is there already.
-/

namespace Oscpu.Axi

open Oscpu.Rtl Oscpu.Lib

/-! ## One edge of `csr` -/

/-- The value of a register, read without the multiplexer of `csr`. -/
def Csr.value (c : Csr) (n : BitVec 12) : Word :=
  if n = CSR_MSTATUS then c.mstatus
  else if n = CSR_MIE then c.mie
  else if n = CSR_MTVEC then c.mtvec
  else if n = CSR_MSCRATCH then c.mscratch
  else if n = CSR_MEPC then c.mepc
  else if n = CSR_MCAUSE then c.mcause
  else if n = CSR_MIP then c.mip
  else 0#64

/-- The registers that a program can write. -/
def writableCsr (n : BitVec 12) : Bool :=
  n == CSR_MSTATUS || n == CSR_MIE || n == CSR_MTVEC || n == CSR_MSCRATCH || n == CSR_MEPC ||
    n == CSR_MCAUSE || n == CSR_MIP

theorem writable_cases {n : BitVec 12} (hn : writableCsr n = true) :
    (((((n = CSR_MSTATUS ∨ n = CSR_MIE) ∨ n = CSR_MTVEC) ∨ n = CSR_MSCRATCH) ∨ n = CSR_MEPC) ∨
      n = CSR_MCAUSE) ∨ n = CSR_MIP := by
  simpa only [writableCsr, Bool.or_eq_true, beq_iff_eq] using hn

/-- Bit 11 of `mip`, which only a write of `mip` sets and only until the next instruction, is clear. -/
def Csr.Cleared (c : Csr) : Prop := c.mip &&& ~~~(1#64 <<< 11) = c.mip

/-- What a write leaves in a register. -/
def Csr.written (n : BitVec 12) (w : Word) : Word := if n = CSR_MSTATUS then mstatusWrite w else w

/-- What is in write-back neither traps nor returns, and no interrupt is taken on it. -/
structure Csr.Quiet (c : Csr) (i : CsrIn) : Prop where
  exceptEn : i.exceptEn = false
  mret : i.mret = false
  timeTrap : c.timeTrap i = false

namespace Csr

variable {c : Csr} {i : CsrIn} {n : BitVec 12}

theorem Quiet.interrupt (h : Quiet c i) :
    (c.mstatus.getLsbD 3 && (i.exceptEn || i.mtimeInt && c.interruptEn i)) = false := by
  have htrap : (i.mtimeInt && c.mstatus.getLsbD 3 && c.interruptEn i) = false := h.timeTrap
  rw [h.exceptEn, Bool.false_or, ← Bool.and_assoc, Bool.and_comm (c.mstatus.getLsbD 3), htrap]

/-- Where write-back is ready, no interrupt is pending either. -/
theorem Quiet.timeInt (h : Quiet c i) (hr : i.wbReady = true) : c.timeInt i = false := by
  rw [← h.timeTrap]
  simp [Csr.timeTrap, interruptEn, Csr.timeInt, hr, Bool.and_assoc]

section

variable (h : Quiet c i) (hn : writableCsr n = true)
include h hn

/-- Whatever `csr` holds, the register of an instruction that retires is written. -/
theorem step_value (hw : writes i n = true) (hr : i.wbReady = true) :
    (c.step i false).value n = written n i.wdata := by
  have htrap := h.timeTrap
  have hint := h.interrupt
  have htime := h.timeInt hr
  rw [h.exceptEn] at hint
  unfold step
  simp only [htrap, h.exceptEn, htime, hr, hint, Bool.false_eq_true, if_false, Bool.and_true,
    Bool.not_false]
  rcases writable_cases hn with (((((rfl | rfl) | rfl) | rfl) | rfl) | rfl) | rfl <;> rw [hw] <;> rfl

/-- Before that it may be written, or not yet. -/
theorem step_value_of_writes (hw : writes i n = true) :
    (c.step i false).value n = written n i.wdata ∨ (c.step i false).value n = c.value n := by
  cases hr : i.wbReady with
  | true => exact .inl (step_value h hn hw hr)
  | false =>
    have htrap := h.timeTrap
    have hint := h.interrupt
    rw [h.exceptEn] at hint
    unfold step
    simp only [htrap, h.exceptEn, h.mret, hr, hint, Bool.false_eq_true, if_false, Bool.and_false]
    rcases writable_cases hn with (((((rfl | rfl) | rfl) | rfl) | rfl) | rfl) | rfl
    · exact .inr rfl
    · exact .inr rfl
    all_goals
      rw [hw]
      exact .inl rfl

theorem step_value_of_not_writes (hw : writes i n = false) (hc : n = CSR_MIP → c.Cleared) :
    (c.step i false).value n = c.value n := by
  have htrap := h.timeTrap
  have hint := h.interrupt
  rw [h.exceptEn] at hint
  unfold step
  simp only [htrap, h.exceptEn, h.mret, hint, Bool.false_eq_true, if_false]
  rcases writable_cases hn with (((((rfl | rfl) | rfl) | rfl) | rfl) | rfl) | rfl <;> rw [hw]
  case inr => exact hc rfl
  all_goals rfl

end

theorem cleared_of_not_writes (hw : writes i CSR_MIP = false) : (c.step i false).Cleared := by
  have hmip : (c.step i false).mip = c.mip &&& ~~~(1#64 <<< 11) := by simp [step, hw]
  rw [Cleared, hmip, BitVec.and_assoc, BitVec.and_self]

end Csr

/-! ## What is left in write-back -/

/-- An interrupt that is taken, an `ecall` that retires and an `mret` flush. -/
theorem quiet_of_not_flush {y : System} {i : AxiIn} (hfl : y.core.flush i = false)
    (he : y.core.lsWb.data.exceptEn = false) : Csr.Quiet y.core.csr (y.core.csrIn i) := by
  simp only [Core.flush, Csr.flush, Bool.or_eq_false_iff] at hfl
  exact ⟨he, hfl.2, (Csr.timeTrap_eq _ _).trans hfl.1.2⟩

/-- A writable register is not named by an `ecall`. -/
theorem SysWords.not_ecall {y : System} (h : SysWords y)
    (hn : writableCsr y.core.lsWb.data.csr = true) : y.core.lsWb.data.exceptEn = false := by
  by_contra he
  have hwb := h.wb
  simp only [Bool.eq_true_of_not_eq_false he] at hwb
  rw [hwb.of_ecall.2.1] at hn
  exact absurd hn (by decide)

/-- An `ecall` in write-back flushes before another instruction can follow it there. -/
theorem SysWords.not_ecall_of_leave {y : System} {i : AxiIn} (h : SysWords y)
    (hfl : y.core.flush i = false) (hleave : y.core.memReady i = true) :
    y.core.lsWb.data.exceptEn = false := by
  by_contra he
  have hecall : y.core.lsWb.data.exceptEn = true := Bool.eq_true_of_not_eq_false he
  have hvalid := h.valid hecall
  have hfetch : y.core.ifReadyAxi i = true := by
    simpa [Core.memReady, Stage.ready, hvalid] using hleave
  rw [Occ.flush_of_ecall hfetch hecall] at hfl
  exact Bool.false_ne_true hfl.symm

/-- What is left of an instruction that has retired is in its register. -/
def Settled (y : System) : Prop :=
  y.core.lsWb.valid = false → y.core.lsWb.data.csrWen = true →
    writableCsr y.core.lsWb.data.csr = true →
      y.core.csr.value y.core.lsWb.data.csr =
        Csr.written y.core.lsWb.data.csr y.core.lsWb.data.csrDataRes

namespace Settled

variable {y : System} {i : AxiIn}

theorem step (h : Settled y) (hs : SysWords y) : Settled (y.step i) := by
  intro hv hwen hn
  cases hfl : y.core.flush i with
  | true =>
    rw [Occ.step_lsWb_of_flush hfl] at hwen
    exact absurd hwen (by decide)
  | false =>
    have hvalid : (y.step i).core.lsWb.valid =
        if y.core.memReady i then y.core.memValid i else y.core.lsWb.valid :=
      Core.step_lsWb_valid y.core i
    cases hl : (y.core.memValid i && y.core.memReady i) with
    | true =>
      simp only [Bool.and_eq_true] at hl
      rw [hvalid, hl.2, if_pos rfl, hl.1] at hv
      exact absurd hv (by simp)
    | false =>
      rw [Occ.step_lsWb_of_quiet hl hfl] at hwen hn ⊢
      have hq := quiet_of_not_flush hfl (hs.not_ecall hn)
      have hw : Csr.writes (y.core.csrIn i) y.core.lsWb.data.csr = true := by
        simp [Csr.writes, Core.csrIn, hwen]
      cases hv0 : y.core.lsWb.valid with
      | true =>
        have hready : y.core.ifReadyAxi i = true := by
          by_contra hf
          have hmem : y.core.memReady i = false := by
            simp [Core.memReady, Stage.ready, hv0, Bool.eq_false_iff.2 hf]
          rw [hvalid, hmem, hv0] at hv
          exact absurd hv (by simp)
        exact Csr.step_value hq hn hw hready
      | false =>
        rcases Csr.step_value_of_writes hq hn hw with hval | hval
        · exact hval
        · exact hval.trans (h hv0 hwen hn)

theorem afterReset (h : y.AfterReset) : Settled y := by
  intro _ hwen
  rw [h.core.lsWb] at hwen
  exact absurd hwen (by decide)

end Settled

theorem settled_run {y : System} (h : SysWords y ∧ Settled y) (is : Nat → AxiIn) (n : Nat) :
    SysWords (run System.step y is n) ∧ Settled (run System.step y is n) := by
  induction n with
  | zero => exact h
  | succ n ih => exact ⟨ih.1.step, ih.2.step ih.1⟩

theorem System.Reachable.settled {y : System} (h : y.Reachable) : SysWords y ∧ Settled y := by
  obtain ⟨y₀, is, n, h₀, -, rfl⟩ := h
  exact settled_run ⟨SysWords.afterReset h₀, Settled.afterReset h₀⟩ is n

/-! ## From EX to write-back -/

/-- The operand of a CSR instruction: `rs1`, or the five bits in its place. -/
def csrOperand (rf : Regs) (ins : Ins) (imm : Bool) : Word :=
  if imm then (rs1id ins).zeroExtend 64 else rf.read (rs1id ins)

/-- The instruction in write-back has yet to write what a CSR instruction in EX reads. -/
def Core.csrHazard (s : Core) (ins : Ins) (imm : Bool) : Bool :=
  let w := s.lsWb.data
  s.lsWb.valid &&
    (w.csrWen && w.csr == csrId ins ||
      !imm && (w.rdwen || w.csrToRf) && w.rdid == rs1id ins && rs1id ins != 0#5)

namespace Core

variable {s : Core} {ins : Ins}

/-- Without a hazard no instruction in write-back writes the register. -/
theorem lsWb_valid_of_not_csrHazard {imm : Bool} (h : s.csrHazard ins imm = false)
    (hwen : s.lsWb.data.csrWen = true) (hcsr : s.lsWb.data.csr = csrId ins) :
    s.lsWb.valid = false := by
  by_contra hv
  simp [csrHazard, hv, hwen, hcsr] at h

/-- Nor does it write the operand. -/
theorem not_writes_of_not_csrHazard (h : s.csrHazard ins false = false)
    (hv : s.lsWb.valid = true) (hrs1 : rs1id ins ≠ 0#5) :
    ((s.lsWb.data.rdwen || s.lsWb.data.csrToRf) && s.lsWb.data.rdid == rs1id ins) = false := by
  by_contra hmatch
  simp only [Bool.not_eq_false, Bool.and_eq_true] at hmatch
  simp [csrHazard, hv, hmatch, hrs1] at h

end Core

section

variable {x : System} {is : Nat → AxiIn} {N : Nat}
  (hdata : ∀ k < N, (run System.step x is k).core.lsWb.data = x.core.lsWb.data)
  (hfl : ∀ k < N, (run System.step x is k).core.flush (is k) = false)
include hdata hfl

omit hdata hfl in
/-- What stays in write-back from step to step stays there over a run. -/
theorem lsWb_run
    (hstep : ∀ k < N, (run System.step x is (k + 1)).core.lsWb.data =
        (run System.step x is k).core.lsWb.data ∧
      ((run System.step x is (k + 1)).core.lsWb.valid = true →
        (run System.step x is k).core.lsWb.valid = true)) :
    ∀ k ≤ N, (run System.step x is k).core.lsWb.data = x.core.lsWb.data ∧
      ((run System.step x is k).core.lsWb.valid = true → x.core.lsWb.valid = true) := by
  intro k hk
  induction k with
  | zero => exact ⟨rfl, id⟩
  | succ k ih =>
    obtain ⟨hd, hv⟩ := ih (by omega)
    obtain ⟨hd', hv'⟩ := hstep k (by omega)
    exact ⟨hd'.trans hd, fun h => hv (hv' h)⟩

/-- A register keeps its value while what is in write-back does not write it, or writes that. -/
theorem value_run {n : BitVec 12} (hn : writableCsr n = true)
    (he : x.core.lsWb.data.exceptEn = false)
    (hsame : x.core.lsWb.data.csrWen = true → x.core.lsWb.data.csr = n →
      x.core.csr.value n = Csr.written n x.core.lsWb.data.csrDataRes)
    (hclear : (x.core.lsWb.data.csrWen && x.core.lsWb.data.csr == CSR_MIP) = false →
      x.core.csr.Cleared) :
    (run System.step x is N).core.csr.value n = x.core.csr.value n := by
  induction N with
  | zero => rfl
  | succ N ih =>
    have hval := ih (fun k hk => hdata k (by omega)) fun k hk => hfl k (by omega)
    have hd := hdata N N.lt_succ_self
    have hf := hfl N N.lt_succ_self
    rw [run_succ]
    generalize run System.step x is N = z at hval hd hf ⊢
    have hq := quiet_of_not_flush hf (hd ▸ he)
    have hwrites : Csr.writes (z.core.csrIn (is N)) n =
        (x.core.lsWb.data.csrWen && x.core.lsWb.data.csr == n) := by
      rw [← hd]
      rfl
    have hwdata : (z.core.csrIn (is N)).wdata = x.core.lsWb.data.csrDataRes := by
      rw [← hd]
      rfl
    change (z.core.csr.step (z.core.csrIn (is N)) false).value n = _
    cases hw : (x.core.lsWb.data.csrWen && x.core.lsWb.data.csr == n) with
    | true =>
      have hparts := hw
      simp only [Bool.and_eq_true, beq_iff_eq] at hparts
      rcases Csr.step_value_of_writes hq hn (hwrites.trans hw) with h | h
      · rw [h, hwdata, hsame hparts.1 hparts.2]
      · exact h.trans hval
    | false =>
      refine (Csr.step_value_of_not_writes hq hn (hwrites.trans hw) ?_).trans hval
      rintro rfl
      have hmip : z.core.csr.mip = x.core.csr.mip := hval
      have hc := hclear hw
      rw [Csr.Cleared, ← hmip] at hc
      exact hc

/-- A general register keeps its value while nothing that writes it is in write-back. -/
theorem read_run {a : RegId}
    (hvalid : ∀ k < N, (run System.step x is k).core.lsWb.valid = true →
      x.core.lsWb.valid = true)
    (hno : x.core.lsWb.valid = true → a ≠ 0#5 →
      ((x.core.lsWb.data.rdwen || x.core.lsWb.data.csrToRf) && x.core.lsWb.data.rdid == a) = false) :
    (run System.step x is N).core.rf.read a = x.core.rf.read a := by
  induction N with
  | zero => rfl
  | succ N ih =>
    have hval := ih (fun k hk => hdata k (by omega)) (fun k hk => hfl k (by omega))
      fun k hk => hvalid k (by omega)
    have hd := hdata N N.lt_succ_self
    have hv := hvalid N N.lt_succ_self
    rw [run_succ]
    generalize run System.step x is N = z at hval hd hv ⊢
    change (z.core.rf.write (z.core.rfWen (is N)) z.core.lsWb.data.rdid z.core.wbuRd).read a = _
    rw [Regs.read_write, ← hval]
    by_cases ha : a = 0#5
    · simp [ha]
    · have hwen : (z.core.rfWen (is N) && z.core.lsWb.data.rdid == a) = false := by
        by_contra hw
        simp only [Core.rfWen, Core.wbHs, Bool.not_eq_false, Bool.and_eq_true] at hw
        have hx := hno (hv hw.1.1.2.1) ha
        rw [← hd, hw.1.1.1, hw.2] at hx
        exact absurd hx (by decide)
      simp [hwen]

end

end Oscpu.Axi
