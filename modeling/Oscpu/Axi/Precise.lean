import Oscpu.Axi.Delivery
import Oscpu.Axi.Trap

/-!
# Precise traps

An instruction is followed through MEM and write-back to the flush it causes. Nothing younger acts
meanwhile: only write-back changes registers, and a younger load or store in MEM would keep every
fetch from completing, and with it the flush. The instruction itself has done nothing if a timer
interrupt is taken on it, unless it is a store, which acts in MEM, or writes one of the registers
that `csr` does not protect.
-/

namespace Oscpu.Axi

open Oscpu.Rtl Oscpu.Lib

/-- The registers that write-back writes whatever becomes of the instruction. -/
def unguardedCsr (n : BitVec 12) : Bool :=
  n == CSR_MIE || n == CSR_MTVEC || n == CSR_MIP || n == CSR_MSCRATCH

/-- A timer interrupt is taken on an instruction that is still in write-back, is no store and does
not write an unguarded register. -/
def System.plainInterrupt (y : System) (i : AxiIn) : Bool :=
  let w := y.core.lsWb.data
  !y.timerTaken i || y.core.lsWb.valid && !w.sten && !(w.csrWen && unguardedCsr w.csr)

/-- The registers that a trap itself does not set. Bit 11 of `mip` falls by itself. -/
structure SameCsr (c c' : Csr) : Prop where
  mie : c'.mie = c.mie
  mtvec : c'.mtvec = c.mtvec
  mip : c'.mip &&& ~~~(1#64 <<< 11) = c.mip &&& ~~~(1#64 <<< 11)
  mscratch : c'.mscratch = c.mscratch

theorem SameCsr.trans {a b c : Csr} (h : SameCsr a b) (h' : SameCsr b c) : SameCsr a c :=
  ⟨h'.mie.trans h.mie, h'.mtvec.trans h.mtvec, h'.mip.trans h.mip, h'.mscratch.trans h.mscratch⟩

theorem Csr.step_same {c : Csr} {i : CsrIn} (h : (i.csrWen && unguardedCsr i.csrW) = false) :
    SameCsr c (c.step i false) := by
  have hnot (n : BitVec 12) (hn : unguardedCsr n = true) : Csr.writes i n = false := by
    rw [Csr.writes]
    cases hw : i.csrWen with
    | false => rfl
    | true =>
      rw [Bool.true_and, beq_eq_false_iff_ne]
      rintro rfl
      simp [hw, hn] at h
  refine ⟨?_, ?_, ?_, ?_⟩
  · simp [Csr.step, hnot CSR_MIE (by decide)]
  · simp [Csr.step, hnot CSR_MTVEC (by decide)]
  · simp only [Csr.step, hnot CSR_MIP (by decide), Bool.false_eq_true, if_false]
    rw [BitVec.and_assoc, BitVec.and_self]
  · simp [Csr.step, hnot CSR_MSCRATCH (by decide)]

namespace Occ

variable {y : System} {i : AxiIn}

theorem not_flush_of_zero (hz : y.core.lsWb.data = LsWb.zero) : y.core.flush i = false := by
  simp [Core.flush, Core.csrIn, hz, LsWb.zero, Csr.flush, Csr.ecall, Csr.interruptEn]

theorem step_sten_of_not_ex (he : y.core.idEx.valid = false)
    (hs : y.core.exLs.data.sten = false) : (y.step i).core.exLs.data.sten = false := by
  rw [step_exLs_of_stay he]
  split_ifs
  · rfl
  · exact hs

end Occ

/-! ## From MEM to the flush -/

/-- The cycles of an instruction: it is in MEM from `e` to `s`, in write-back from then on, and
something flushes in cycle `t`. -/
structure Passage (c : Nat → System) (is : Nat → AxiIn) (e s t : Nat) : Prop where
  step : ∀ k, c (k + 1) = (c k).step (is k)
  occ : ∀ k ≤ t, Occ (c k)
  mem : (c e).core.exLs.valid = true
  le : e ≤ s
  lt : s < t
  wait : ∀ k, e ≤ k → k < s → (c k).core.leaves (is k) = false
  leave : (c s).core.leaves (is s) = true
  stay : ∀ k, s < k → k < t → (c k).core.leaves (is k) = false
  flush : (c t).core.flush (is t) = true

namespace Passage

variable {c : Nat → System} {is : Nat → AxiIn} {e s t : Nat} (h : Passage c is e s t)
include h

theorem wb_ne_zero {k : Nat} (hsk : s < k) (hkt : k ≤ t) : (c k).core.lsWb.data ≠ LsWb.zero := by
  intro hz
  have hzero : (c t).core.lsWb.data = LsWb.zero := by
    refine of_stays (P := fun j => (c j).core.lsWb.data = LsWb.zero) hz hkt fun j hkj hjt ih => ?_
    rw [h.step, Occ.step_lsWb_of_stay (h.stay j (by omega) hjt), ih]
    exact ite_self _
  have hfl := h.flush
  rw [Occ.not_flush_of_zero hzero] at hfl
  exact Bool.false_ne_true hfl

/-- Nothing flushes before, so write-back holds one instruction. -/
theorem wb_data {k : Nat} (hsk : s < k) (hkt : k ≤ t) :
    (c k).core.lsWb.data = (c (s + 1)).core.lsWb.data := by
  induction k, hsk using Nat.le_induction with
  | base => rfl
  | succ k hsk ih =>
    have hne := h.wb_ne_zero (k := k + 1) (by omega) hkt
    rw [h.step, Occ.step_lsWb_of_stay (h.stay k (by omega) (by omega))] at hne ⊢
    cases hfl : (c k).core.flush (is k) with
    | true => simp [hfl] at hne
    | false => exact ih (by omega)

/-- **No younger load or store is on the bus.** It would stay there, and nothing could flush. -/
theorem not_sigMem {k : Nat} (hsk : s < k) (hkt : k ≤ t) : (c k).core.axiSigMem = false := by
  by_contra hm
  have hstays : (c t).core.axiSigMem = true := by
    refine of_stays (P := fun j => (c j).core.axiSigMem = true) (Bool.eq_true_of_not_eq_false hm)
      hkt fun j hkj hjt hmj => ?_
    have hl : (c j).core.exReady (is j) = false := by
      rw [Occ.exReady_of_mem (Occ.valid_of_sigMem hmj)]
      exact h.stay j (by omega) hjt
    rw [h.step]
    exact ((h.occ j hjt.le).same_of_wait hmj hl).1
  have hfl := h.flush
  rw [(h.occ t le_rfl).not_flush_of_sigMem hstays] at hfl
  exact Bool.false_ne_true hfl

theorem mem_valid {k : Nat} (hek : e ≤ k) (hks : k ≤ s) : (c k).core.exLs.valid = true := by
  induction k, hek using Nat.le_induction with
  | base => exact h.mem
  | succ k hek ih =>
    have hlt := h.lt
    have hv := ih (by omega)
    rw [h.step, Occ.step_mem_of_not_ex ((h.occ k (by omega)).not_ex_of_mem hv),
      Occ.exReady_of_mem hv, h.wait k hek (by omega)]
    rfl

/-- A store that moves to write-back is still seen to be one there. -/
theorem not_store (hst : (c t).core.lsWb.data.sten = false) {k : Nat} (hek : e ≤ k) (hks : k ≤ s) :
    (c k).core.exLs.data.sten = false := by
  have hlt := h.lt
  by_contra hstore
  rw [Bool.not_eq_false] at hstore
  have hw : (c k).core.axiSigWrite = true := by
    simp [Core.axiSigWrite, Core.axiSigMem, h.mem_valid hek hks, hstore]
  have hws : (c s).core.axiSigWrite = true := by
    refine of_stays (P := fun j => (c j).core.axiSigWrite = true) hw hks fun j hkj hjs hwj => ?_
    have hl : (c j).core.exReady (is j) = false := by
      rw [Occ.exReady_of_mem (h.mem_valid (by omega) hjs.le)]
      exact h.wait j (by omega) hjs
    rw [h.step, ((h.occ j (by omega)).same_of_wait (Core.axiSigMem_of_write hwj) hl).2.1]
    exact hwj
  have hfl := (h.occ s hlt.le).not_flush_of_sigMem (i := is s) (Core.axiSigMem_of_write hws)
  have hdata : (c (s + 1)).core.lsWb.data.sten = true := by
    rw [h.step, Occ.step_lsWb_of_leave h.leave]
    simp only [Core.axiSigWrite, Bool.and_eq_true] at hws
    simp [Core.toLsWb, hfl, hws.2]
  rw [h.wb_data hlt le_rfl, hdata] at hst
  exact Bool.false_ne_true hst.symm

theorem not_store_after (hst : (c t).core.lsWb.data.sten = false) {k : Nat} (hsk : s < k)
    (hkt : k ≤ t) : (c k).core.exLs.data.sten = false := by
  have hlt := h.lt
  induction k, hsk using Nat.le_induction with
  | base =>
    have hv := h.mem_valid h.le le_rfl
    rw [h.step]
    exact Occ.step_sten_of_not_ex ((h.occ s hlt.le).not_ex_of_mem hv) (h.not_store hst h.le le_rfl)
  | succ k hsk ih =>
    have hk := ih (by omega)
    cases he : (c k).core.idEx.valid with
    | false => rw [h.step]; exact Occ.step_sten_of_not_ex he hk
    | true =>
      have hm := h.not_sigMem (k := k + 1) (by omega) hkt
      have hv : (c (k + 1)).core.exLs.valid = true := by
        rw [h.step]
        exact (h.occ k (by omega)).step_mem_of_ex he
      simp only [Core.axiSigMem, hv, Bool.true_and, Bool.or_eq_false_iff] at hm
      exact hm.2

/-- If it has not retired, no fetch has completed. -/
theorem wb_valid (hv : (c t).core.lsWb.valid = true) {k : Nat} (hsk : s < k) (hkt : k ≤ t) :
    (c k).core.lsWb.valid = true := by
  by_contra hn
  have hempty : (c t).core.lsWb.valid = false := by
    refine of_stays (P := fun j => (c j).core.lsWb.valid = false) (Bool.eq_false_iff.2 hn) hkt
      fun j hkj hjt ih => ?_
    rw [h.step]
    exact Occ.step_wb_of_stay (h.stay j (by omega) hjt) (.inl ih)
  rw [hempty] at hv
  exact Bool.false_ne_true hv

theorem not_fetch (hv : (c t).core.lsWb.valid = true) {k : Nat} (hsk : s < k) (hkt : k < t) :
    (c k).core.ifReadyAxi (is k) = false := by
  by_contra hf
  have hempty := Occ.step_wb_of_stay (h.stay k hsk hkt) (.inr (Bool.eq_true_of_not_eq_false hf))
  rw [← h.step, h.wb_valid hv (by omega) (by omega)] at hempty
  exact Bool.false_ne_true hempty.symm

theorem rf_same (hv : (c t).core.lsWb.valid = true) {k : Nat} (hsk : s < k) (hkt : k ≤ t) :
    (c (k + 1)).core.rf = (c (s + 1)).core.rf := by
  have hone {k : Nat} (hsk : s < k) (hkt : k ≤ t) : (c (k + 1)).core.rf = (c k).core.rf := by
    rw [h.step]
    apply Occ.step_rf_of_quiet
    rcases Nat.lt_or_eq_of_le hkt with hlt | rfl
    · exact .inl (h.not_fetch hv hsk hlt)
    · exact .inr h.flush
  induction k, hsk using Nat.le_induction with
  | base => exact hone (Nat.lt_succ_self s) hkt
  | succ k hsk ih => rw [hone (by omega) hkt, ih (by omega)]

theorem csr_same (hg : ((c t).core.lsWb.data.csrWen && unguardedCsr (c t).core.lsWb.data.csr) = false)
    {k : Nat} (hsk : s < k) (hkt : k ≤ t) :
    SameCsr (c (s + 1)).core.csr (c (k + 1)).core.csr := by
  have hone {k : Nat} (hsk : s < k) (hkt : k ≤ t) :
      SameCsr (c k).core.csr (c (k + 1)).core.csr := by
    rw [h.step]
    apply Csr.step_same (i := (c k).core.csrIn (is k))
    rw [h.wb_data h.lt le_rfl, ← h.wb_data hsk hkt] at hg
    exact hg
  induction k, hsk using Nat.le_induction with
  | base => exact hone (Nat.lt_succ_self s) hkt
  | succ k hsk ih => exact (ih (by omega)).trans (hone (by omega) hkt)

/-- A fetch that has not completed and no flush leave `mstatus` to an `ecall`. -/
theorem mstatus_step (hv : (c t).core.lsWb.valid = true) {k : Nat} (hsk : s < k) (hkt : k < t) :
    (c (k + 1)).core.csr.mstatus =
      if (c k).core.csr.mstatus.getLsbD 3 && (c t).core.lsWb.data.exceptEn then
        Csr.mstatusTrap (c k).core.csr.mstatus
      else (c k).core.csr.mstatus := by
  have hready : ((c k).core.csrIn (is k)).wbReady = false := h.not_fetch hv hsk hkt
  have hfl : (c k).core.flush (is k) = false := by
    by_contra hf
    refine h.wb_ne_zero (k := k + 1) (by omega) (by omega) ?_
    rw [h.step, Occ.step_lsWb_of_flush (Bool.eq_true_of_not_eq_false hf)]
  have hmret : ((c k).core.csrIn (is k)).mret = false := (Bool.or_eq_false_iff.1 hfl).2
  have hexcept : ((c k).core.csrIn (is k)).exceptEn = (c t).core.lsWb.data.exceptEn := by
    rw [h.wb_data h.lt le_rfl, ← h.wb_data hsk hkt.le]
    rfl
  have hstep : (c (k + 1)).core.csr = (c k).core.csr.step ((c k).core.csrIn (is k)) false := by
    rw [h.step]
    rfl
  simp [hstep, Csr.step, Csr.interruptEn, hready, hmret, hexcept]

/-- An `ecall` that waits clears the bit that the interrupt needs. -/
theorem mstatus_same (hv : (c t).core.lsWb.valid = true) (ht : (c t).timerTaken (is t) = true) :
    (c t).core.csr.mstatus = (c (s + 1)).core.csr.mstatus := by
  have hlt := h.lt
  cases he : (c t).core.lsWb.data.exceptEn with
  | true =>
    rcases Nat.lt_or_ge (s + 1) t with hst | hst
    · obtain ⟨k, rfl⟩ : ∃ k, t = k + 1 := ⟨t - 1, by omega⟩
      have hbit : (c (k + 1)).core.csr.mstatus.getLsbD 3 = true := by
        simp only [System.timerTaken, Csr.timeInt, Bool.and_eq_true] at ht
        exact ht.2.1.1.2
      rw [h.mstatus_step hv (by omega) (Nat.lt_succ_self k), he, Bool.and_true] at hbit
      cases hold : (c k).core.csr.mstatus.getLsbD 3 with
      | false =>
        rw [hold, if_neg Bool.false_ne_true, hold] at hbit
        cases hbit
      | true =>
        rw [hold, if_pos rfl, getLsbD_mstatusTrap] at hbit
        cases hbit
    · rw [show s + 1 = t by omega]
  | false =>
    refine of_stays (P := fun k => (c k).core.csr.mstatus = (c (s + 1)).core.csr.mstatus) rfl hlt
      fun k hsk hkt ih => ?_
    rw [h.mstatus_step hv hsk hkt, he, Bool.and_false, if_neg Bool.false_ne_true]
    exact ih

end Passage

/-- What an interrupted instruction must not have done between cycle `e` and the trap in cycle `t`:
driven a write from MEM, written a register of the CLINT, or changed a register. -/
structure Untouched (c : Nat → System) (e s t : Nat) : Prop where
  bus : ∀ k, e ≤ k → k ≤ t → (c k).core.axiSigWrite = false
  clint : ∀ k, e ≤ k → k ≤ t → (c k).core.mtimeEn = false ∧ (c k).core.mtimecmpEn = false
  rf : (c (t + 1)).core.rf = (c (s + 1)).core.rf
  csr : SameCsr (c (s + 1)).core.csr (c (t + 1)).core.csr
  /-- Up to the trap's own update. -/
  mstatus : (c t).core.csr.mstatus = (c (s + 1)).core.csr.mstatus

/-- **Traps are precise** in every run whose timer interrupts are all plain. An instruction is in MEM
from `e` to `s` and in write-back when something flushes in `t`. Until `s` no younger one is past ID,
from then on none has a request on the bus or is in write-back, and the flush clears all registers
of the pipeline. If it is a timer interrupt, the instruction itself has done nothing. -/
theorem trap_precise {y : System} {is : Nat → AxiIn} {e s t : Nat} (h₀ : y.AfterReset)
    (hok : Admits System.step System.Ok y is (t + 1))
    (hplain : Admits System.step (fun y i => y.plainInterrupt i = true) y is (t + 1))
    (hmem : (run System.step y is e).core.exLs.valid = true) (hes : e ≤ s) (hst : s < t)
    (hwait : ∀ k < s, e ≤ k → (run System.step y is k).core.leaves (is k) = false)
    (hleave : (run System.step y is s).core.leaves (is s) = true)
    (hstay : ∀ k < t, s < k → (run System.step y is k).core.leaves (is k) = false)
    (hfl : (run System.step y is t).core.flush (is t) = true) :
    let c := run System.step y is
    (∀ k, e ≤ k → k ≤ s → (c k).core.idEx.valid = false) ∧
    (∀ k, s < k → k ≤ t → (c k).core.axiSigMem = false ∧
      (c k).core.lsWb.data = (c (s + 1)).core.lsWb.data) ∧
    ((c (t + 1)).core.ifId.data = IfId.zero ∧ (c (t + 1)).core.idEx.data = IdEx.zero ∧
      (c (t + 1)).core.exLs.data = ExLs.zero ∧ (c (t + 1)).core.lsWb.data = LsWb.zero) ∧
    ((c t).timerTaken (is t) = true → Untouched c e s t) := by
  intro c
  have hp : Passage c is e s t :=
    { step := fun _ => rfl
      occ := fun k hk => System.Reachable.occ ⟨y, is, k, h₀, hok.mono (by omega), rfl⟩
      mem := hmem
      le := hes
      lt := hst
      wait := fun k hek hks => hwait k hks hek
      leave := hleave
      stay := fun k hsk hkt => hstay k hkt hsk
      flush := hfl }
  refine ⟨fun k hek hks => (hp.occ k (by omega)).not_ex_of_mem (hp.mem_valid hek hks),
    fun k hsk hkt => ⟨hp.not_sigMem hsk hkt, hp.wb_data hsk hkt⟩, ?_, ?_⟩
  · exact ⟨Occ.step_ifId_of_flush hfl, Occ.step_idEx_of_flush hfl, Occ.step_exLs_of_flush hfl,
      Occ.step_lsWb_of_flush hfl⟩
  · intro ht
    have hpt : (c t).plainInterrupt (is t) = true := hplain t (Nat.lt_succ_self t)
    simp only [System.plainInterrupt, ht, Bool.not_true, Bool.false_or, Bool.and_eq_true,
      Bool.not_eq_true'] at hpt
    obtain ⟨⟨hv, hsten⟩, hcsr⟩ := hpt
    have hsten' {k : Nat} (hek : e ≤ k) (hkt : k ≤ t) : (c k).core.exLs.data.sten = false := by
      rcases Nat.lt_or_ge s k with hsk | hks
      · exact hp.not_store_after hsten hsk hkt
      · exact hp.not_store hsten hek hks
    refine ⟨?_, fun k hek hkt => ⟨?_, ?_⟩, hp.rf_same hv hst le_rfl, hp.csr_same hcsr hst le_rfl,
      hp.mstatus_same hv ht⟩
    · intro k hek hkt
      simp [Core.axiSigWrite, hsten' hek hkt]
    · simp [Core.mtimeEn, hsten' hek hkt]
    · simp [Core.mtimecmpEn, hsten' hek hkt]

/-- `csrrw x0, mie, x5` with 0x80 in `x5`, and one more instruction, on which the interrupt that this
enables is taken. The word at 0x100 is not zero. -/
def interruptProgram (ins : Ins) : System :=
  System.boot true (fun _ => 0x80#64) 0#4 0#4 fun k =>
    if k = 0x20#64 then 0x5555#64 else Mem.image [ins ++ 0x30429073#32, 0x1300000013#64] k

theorem interruptProgram_afterReset (ins : Ins) : (interruptProgram ins).AfterReset :=
  System.afterReset_boot _ _ _ _ _

/-- `addi x6, x0, 1` is interrupted before it writes `x6`. -/
theorem trap_precise_addi :
    let is := System.inputs (interruptProgram 0x100313#32) slowReads
    let c := run System.step (interruptProgram 0x100313#32) is
    (c 32).timerTaken (is 32) = true ∧
    (∀ k, 27 ≤ k → k ≤ 27 → (c k).core.idEx.valid = false) ∧
    (∀ k, 27 < k → k ≤ 32 → (c k).core.axiSigMem = false ∧
      (c k).core.lsWb.data = (c 28).core.lsWb.data) ∧
    ((c 33).core.ifId.data = IfId.zero ∧ (c 33).core.idEx.data = IdEx.zero ∧
      (c 33).core.exLs.data = ExLs.zero ∧ (c 33).core.lsWb.data = LsWb.zero) ∧
    ((c 32).timerTaken (is 32) = true → Untouched c 27 27 32) :=
  ⟨by decide +kernel, trap_precise (interruptProgram_afterReset _) (System.admits_inputs _ _ _)
    (by unfold Admits; decide +kernel) (by decide +kernel) le_rfl (by decide) (by decide +kernel)
    (by decide +kernel) (by decide +kernel) (by decide +kernel)⟩

/-- A slave that answers a read in one cycle of eight, but not while the store is in MEM. -/
def slowReadsNot31 : Nat → Slave.Timing := fun k => ⟨true, k % 8 == 7 && k != 31, true, true, true⟩

/-- The interrupt is taken on `sd x0, 0x100(x0)`, which has written the memory, and on
`csrrw x0, mscratch, x5`, which has written the register. Both will run again. -/
theorem trap_precise_fails :
    let c := System.driven (interruptProgram 0x10003023#32) slowReadsNot31
    let i := (c 40).slave.drive (slowReadsNot31 40)
    let d := System.driven (interruptProgram 0x34029073#32) slowReads
    let j := (d 32).slave.drive (slowReads 32)
    ((c 40).Reachable ∧ (c 40).Ok i ∧ (c 40).timerTaken i = true ∧
      (c 40).core.lsWb.valid = true ∧ (c 40).core.lsWb.data.pc = 0x80000004#64 ∧
      ((c 40).step i).core.csr.mepc = 0x80000004#64 ∧ (c 27).core.axiSigWrite = true ∧
      (c 27).slave.mem 0x20#64 = 0x5555#64 ∧ (c 40).slave.mem 0x20#64 = 0#64) ∧
    (d 32).Reachable ∧ (d 32).Ok j ∧ (d 32).timerTaken j = true ∧
      (d 32).core.lsWb.valid = true ∧ ((d 32).step j).core.csr.mepc = 0x80000004#64 ∧
      (d 28).core.csr.mscratch = 0#64 ∧ ((d 32).step j).core.csr.mscratch = 0x80#64 :=
  ⟨⟨System.reachable_driven (interruptProgram_afterReset _) _ _, Slave.drives_drive _ _,
    by decide +kernel, by decide +kernel, by decide +kernel, by decide +kernel,
    by decide +kernel, by decide +kernel, by decide +kernel⟩,
    System.reachable_driven (interruptProgram_afterReset _) _ _, Slave.drives_drive _ _,
    by decide +kernel, by decide +kernel, by decide +kernel, by decide +kernel, by decide +kernel⟩

end Oscpu.Axi
