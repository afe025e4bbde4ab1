import Oscpu.Axi.Access

/-!
# The pc that a trap saves

An `ecall` in write-back takes its pc from the ID/EX register, which it left long before; the value
is still its own unless the next instruction has been delivered meanwhile. A timer interrupt takes
the pc of the MEM/WB register, which still holds the last instruction after that one has retired.
-/

namespace Oscpu.Axi

open Oscpu.Rtl Oscpu.Lib

/-- The pc of the oldest instruction that has not retired, or the one being fetched. -/
def Core.oldestPc (s : Core) : Word :=
  if s.lsWb.valid then s.lsWb.data.pc
  else if s.exLs.valid then s.exLs.data.pc
  else if s.idEx.valid then s.idEx.data.pc
  else if s.ifId.valid then s.ifId.data.pc
  else s.ifuPc

/-- A trap clears `mstatus.MIE`. -/
theorem getLsbD_mstatusTrap (m : Word) : (Csr.mstatusTrap m).getLsbD 3 = false := by
  rw [Csr.mstatusTrap, BitVec.getLsbD_append, if_neg (by omega), BitVec.getLsbD_append,
    if_pos (by omega)]
  rfl

namespace System

variable (y : System) (i : AxiIn)

/-- An `ecall` flushes the pipeline in this cycle. -/
def ecallTaken : Bool := Csr.ecall (y.core.csrIn i)

/-- A timer interrupt flushes the pipeline in this cycle. -/
def timerTaken : Bool := y.core.csr.interruptEn (y.core.csrIn i) && y.core.csr.timeInt (y.core.csrIn i)

/-- No fetch completes while an `ecall` is in MEM, no interrupt is taken with write-back empty, and
what traps is at a multiple of four. -/
def plainTrap : Bool :=
  !(y.core.ifReadyAxi i && y.core.exLs.valid && y.core.exLs.data.exceptEn) &&
    !(y.timerTaken i && !y.core.lsWb.valid) &&
      (!(y.ecallTaken i || y.timerTaken i) || y.core.lsWb.data.pc.extractLsb' 0 2 == 0#2)

end System

theorem alignPc_eq {a : Word} (h : a.extractLsb' 0 2 = 0#2) : Csr.alignPc a = a := by
  unfold Csr.alignPc
  rw [← h]
  exact BitVec.extractLsb'_append_extractLsb'

namespace Occ

variable {y : System} {i : AxiIn}

theorem flush_of_ecall (hf : y.core.ifReadyAxi i = true) (he : y.core.lsWb.data.exceptEn = true) :
    y.core.flush i = true := by
  simp [Core.flush, Csr.flush, Csr.ecall, Core.csrIn, hf, he]

end Occ

/-- Where the pc of an `ecall` is found while it moves to write-back. -/
structure EcallPc (y : System) : Prop where
  mem : y.core.exLs.valid = true → y.core.exLs.data.exceptEn = true →
    y.core.idEx.data.pc = y.core.exLs.data.pc
  id : y.core.ifId.valid = true → y.core.lsWb.data.exceptEn = false
  wb : y.core.lsWb.data.exceptEn = true →
    y.core.lsWb.valid = true ∧ y.core.idEx.data.pc = y.core.lsWb.data.pc

namespace EcallPc

variable {y : System} {i : AxiIn}

theorem step_mem (h : EcallPc y) (ho : Occ y) (hv : (y.step i).core.exLs.valid = true)
    (he : (y.step i).core.exLs.data.exceptEn = true) :
    (y.step i).core.idEx.data.pc = (y.step i).core.exLs.data.pc := by
  cases hfl : y.core.flush i with
  | true => rw [Occ.step_exLs_of_flush hfl] at he; cases he
  | false =>
    cases hex : y.core.idEx.valid with
    | true =>
      rw [Occ.step_idEx_of_quiet (ho.not_id_of_ex hex) hfl, ho.step_exLs_of_ex hex]
      simp [Core.toExLs, hfl]
    | false =>
      rw [Occ.step_mem_of_not_ex hex] at hv
      have hmv : y.core.exLs.valid = true := by
        by_contra hm
        simp [Core.exReady, Stage.ready, hm] at hv
      have hdata : (y.step i).core.exLs.data = y.core.exLs.data := by
        rw [Occ.step_exLs_of_stay hex, hfl]
        rfl
      rw [hdata] at he ⊢
      rw [Occ.step_idEx_of_quiet (ho.not_id_of_mem hmv) hfl]
      exact h.mem hmv he

theorem step_id (ho : Occ y) (hp : y.plainTrap i = true)
    (hv : (y.step i).core.ifId.valid = true) :
    (y.step i).core.lsWb.data.exceptEn = false := by
  rw [ho.step_id] at hv
  cases hfl : y.core.flush i with
  | true => rw [Occ.step_lsWb_of_flush hfl]; rfl
  | false =>
    cases hl : (y.core.memValid i && y.core.memReady i) with
    | true =>
      have hm := Occ.mem_of_leave hl
      rw [Occ.step_lsWb_of_leave hl]
      simp only [System.plainTrap, hv, hm, Bool.true_and, Bool.and_eq_true,
        Bool.not_eq_true'] at hp
      simp [Core.toLsWb, hfl, hp.1.1]
    | false =>
      rw [Occ.step_lsWb_of_quiet hl hfl]
      by_contra he
      rw [Occ.flush_of_ecall hv (Bool.eq_true_of_not_eq_false he)] at hfl
      exact Bool.false_ne_true hfl.symm

theorem step_wb (h : EcallPc y) (ho : Occ y) (he : (y.step i).core.lsWb.data.exceptEn = true) :
    (y.step i).core.lsWb.valid = true ∧
      (y.step i).core.idEx.data.pc = (y.step i).core.lsWb.data.pc := by
  cases hfl : y.core.flush i with
  | true => rw [Occ.step_lsWb_of_flush hfl] at he; cases he
  | false =>
    cases hl : (y.core.memValid i && y.core.memReady i) with
    | true =>
      have hm := Occ.mem_of_leave hl
      rw [Occ.step_lsWb_of_leave hl] at he ⊢
      simp only [Bool.and_eq_true] at hl
      refine ⟨?_, ?_⟩
      · change (y.core.step false i).lsWb.valid = true
        rw [Core.step_lsWb_valid, hl.2, if_pos rfl, hl.1]
      · rw [Occ.step_idEx_of_quiet (ho.not_id_of_mem hm) hfl]
        simp only [Core.toLsWb, hfl, Bool.false_eq_true, if_false] at he ⊢
        exact h.mem hm he
    | false =>
      rw [Occ.step_lsWb_of_quiet hl hfl] at he ⊢
      obtain ⟨hv, hpc⟩ := h.wb he
      have hf : y.core.ifReadyAxi i = false := by
        by_contra hf
        rw [Occ.flush_of_ecall (Bool.eq_true_of_not_eq_false hf) he] at hfl
        exact Bool.false_ne_true hfl.symm
      have hid : y.core.ifId.valid = false := by
        by_contra hid
        rw [h.id (Bool.eq_true_of_not_eq_false hid)] at he
        exact Bool.false_ne_true he
      refine ⟨?_, ?_⟩
      · change (y.core.step false i).lsWb.valid = true
        simp [Core.step_lsWb_valid, Core.memReady, Stage.ready, hv, hf]
      · rw [Occ.step_idEx_of_quiet hid hfl, hpc]

theorem step (h : EcallPc y) (ho : Occ y) (hp : y.plainTrap i = true) : EcallPc (y.step i) :=
  ⟨h.step_mem ho, step_id ho hp, h.step_wb ho⟩

theorem afterReset (h : y.AfterReset) : EcallPc y := by
  refine ⟨?_, ?_, ?_⟩
  · simp [h.core.exLs]
  · simp [h.core.ifId]
  · simp [h.core.lsWb, LsWb.zero]

end EcallPc

theorem Csr.timeTrap_eq (c : Csr) (i : CsrIn) :
    c.timeTrap i = (c.interruptEn i && c.timeInt i) := by
  unfold timeTrap interruptEn timeInt
  cases i.wbReady <;> cases i.mtimeInt <;> cases c.mstatus.getLsbD 3 <;>
    cases c.mie.getLsbD 7 <;> cases i.wbIns != 0#32 <;> rfl

theorem System.timeTrap_eq (y : System) (i : AxiIn) :
    y.core.csr.timeTrap (y.core.csrIn i) = y.timerTaken i := Csr.timeTrap_eq _ _

theorem step_mepc_of_timer {y : System} {i : AxiIn} (ht : y.timerTaken i = true) :
    (y.step i).core.csr.mepc = Csr.alignPc y.core.lsWb.data.pc := by
  have htrap : y.core.csr.timeTrap (y.core.csrIn i) = true := (y.timeTrap_eq i).trans ht
  change (y.core.csr.step (y.core.csrIn i) false).mepc = _
  simp only [Csr.step, htrap, if_true, Bool.false_eq_true, if_false]
  rfl

theorem step_mepc_of_ecall {y : System} {i : AxiIn} (he : y.ecallTaken i = true)
    (ht : y.timerTaken i = false) :
    (y.step i).core.csr.mepc = Csr.alignPc y.core.idEx.data.pc := by
  have htrap : y.core.csr.timeTrap (y.core.csrIn i) = false := (y.timeTrap_eq i).trans ht
  have hx : (y.core.csrIn i).exceptEn = true := by
    simp only [System.ecallTaken, Csr.ecall, Bool.and_eq_true] at he
    exact he.2
  change (y.core.csr.step (y.core.csrIn i) false).mepc = _
  simp only [Csr.step, htrap, hx, if_true, Bool.false_eq_true, if_false]
  rfl

/-- **`mepc` is right after every trap** of a run in which no fetch completes while an `ecall` is in
MEM, no interrupt is taken with write-back empty, and only aligned instructions trap. -/
theorem mepc_of_trap {y : System} {is : Nat → AxiIn} {n : Nat} (h₀ : y.AfterReset)
    (hok : Admits System.step System.Ok y is n)
    (hplain : Admits System.step (fun y i => y.plainTrap i = true) y is n) {i : AxiIn}
    (hp : (run System.step y is n).plainTrap i = true) :
    let c := run System.step y is n
    (c.ecallTaken i = true → (c.step i).core.csr.mepc = c.core.lsWb.data.pc) ∧
      (c.timerTaken i = true → (c.step i).core.csr.mepc = c.core.oldestPc) := by
  intro c
  obtain ⟨-, he⟩ := System.run_invariant h₀ (EcallPc.afterReset h₀)
    (fun _ _ ho _ hp h => h.step ho hp) hok hplain
  change EcallPc c at he
  change c.plainTrap i = true at hp
  simp only [System.plainTrap, Bool.and_eq_true, Bool.not_eq_true', Bool.or_eq_true,
    Bool.and_eq_false_iff, beq_iff_eq, Bool.or_eq_false_iff] at hp
  obtain ⟨⟨-, hwb⟩, halign⟩ := hp
  have htimer (ht : c.timerTaken i = true) :
      (c.step i).core.csr.mepc = c.core.lsWb.data.pc ∧ c.core.lsWb.valid = true := by
    have ha : c.core.lsWb.data.pc.extractLsb' 0 2 = 0#2 := by simpa [ht] using halign
    exact ⟨(step_mepc_of_timer ht).trans (alignPc_eq ha), by simpa [ht] using hwb⟩
  refine ⟨?_, ?_⟩
  · intro hx
    cases ht : c.timerTaken i with
    | true => exact (htimer ht).1
    | false =>
      have hen : c.core.lsWb.data.exceptEn = true := by
        simp only [System.ecallTaken, Csr.ecall, Core.csrIn, Bool.and_eq_true] at hx
        exact hx.2
      have ha : c.core.lsWb.data.pc.extractLsb' 0 2 = 0#2 := by simpa [hx] using halign
      rw [step_mepc_of_ecall hx ht, (he.wb hen).2, alignPc_eq ha]
  · intro ht
    rw [(htimer ht).1, Core.oldestPc, if_pos (htimer ht).2]

/-- `addi x0, x0, 0`, `ecall`. -/
def ecallProgram : System :=
  System.boot false (fun _ => 0#64) 0#4 0#4 (Mem.image [0x7300000013#64, 0x1300000013#64])

theorem ecallProgram_afterReset : ecallProgram.AfterReset := System.afterReset_boot _ _ _ _ _

theorem mepc_of_trap_slowReads :
    let c := run System.step ecallProgram (System.inputs ecallProgram slowReads) 32
    let i := c.slave.drive (slowReads 32)
    c.ecallTaken i = true ∧
      (c.ecallTaken i = true → (c.step i).core.csr.mepc = c.core.lsWb.data.pc) ∧
        (c.timerTaken i = true → (c.step i).core.csr.mepc = c.core.oldestPc) :=
  ⟨by decide +kernel, mepc_of_trap ecallProgram_afterReset (System.admits_inputs _ _ _)
    (by unfold Admits; decide +kernel) (by decide +kernel)⟩

/-- `addi x0, x0, 0`, `csrrw x0, mie, x5` with 0x80 in `x5`. -/
def timerProgram : System :=
  System.boot false (fun _ => 0x80#64) 0#4 0#4 (Mem.image [0x3042907300000013#64, 0x1300000013#64])

/-- A slave that answers slowly until cycle 32 and then without wait states. -/
def fastFrom32 : Nat → Slave.Timing := fun k => ⟨true, 32 ≤ k || k % 8 == 7, true, true, true⟩

/-- Without wait states `mepc` gets the pc behind the `ecall`; and an interrupt that the `csrrw`
enables in its last cycle is taken on that `csrrw`, after it has retired. -/
theorem mepc_of_trap_fails :
    let c := System.driven ecallProgram noWait 15
    let i := c.slave.drive (noWait 15)
    let d := System.driven timerProgram fastFrom32 35
    let j := d.slave.drive (fastFrom32 35)
    (c.Reachable ∧ c.Ok i ∧ c.ecallTaken i = true ∧ c.core.lsWb.data.pc = 0x80000004#64 ∧
      (c.step i).core.csr.mepc = 0x80000008#64) ∧
    d.Reachable ∧ d.Ok j ∧ d.timerTaken j = true ∧ d.core.oldestPc = 0x80000008#64 ∧
      (d.step j).core.csr.mepc = 0x80000004#64 :=
  ⟨⟨System.reachable_driven ecallProgram_afterReset _ _, Slave.drives_drive _ _,
    by decide +kernel, by decide +kernel, by decide +kernel⟩,
    System.reachable_driven (System.afterReset_boot _ _ _ _ _) _ _, Slave.drives_drive _ _,
    by decide +kernel, by decide +kernel, by decide +kernel⟩

end Oscpu.Axi
