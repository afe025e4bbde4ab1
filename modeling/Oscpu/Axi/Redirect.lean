import Oscpu.Axi.Trap

/-!
# The redirect and the trap record

`bru` and `csr` both work out why the pipeline is flushed. `csr` takes `mret` from write-back and
gates the timer interrupt with `wb_ready`; `bru` takes `mret` from the word that is in IF/ID by then
and does not gate the interrupt. On a flush they agree if the redirect that `bru` works out is the
one that `csr` records and the pc that is saved is that of the instruction that traps. `MretWord` is
why they do in every run in which no fetch completes while an `ecall` or `mret` is in MEM.
-/

namespace Oscpu.Axi

open Oscpu.Rtl Oscpu.Lib

/-- `csr` performs the `mret` update of `mstatus`. -/
def Csr.mretUpdate (c : Csr) (i : CsrIn) : Bool :=
  !(c.mstatus.getLsbD 3 && (i.exceptEn || i.mtimeInt && c.interruptEn i)) &&
    !(Csr.writes i CSR_MSTATUS && !c.timeInt i && i.wbReady) && i.mret

namespace System

variable (y : System) (i : AxiIn)

/-- `bru` loads `mtvec_pc`. -/
def loadsMtvec : Bool :=
  y.core.flush i && (Csr.ecall (y.core.csrIn i) || y.core.csr.timeInt (y.core.csrIn i))

/-- `bru` loads `epc`. -/
def loadsEpc : Bool :=
  y.core.flush i && !(Csr.ecall (y.core.csrIn i) || y.core.csr.timeInt (y.core.csrIn i)) &&
    isMret y.core.ifId.data.ins

theorem step_bru_of_loadsMtvec {y : System} {i : AxiIn} (h : y.loadsMtvec i = true) :
    (y.step i).core.bru.pc = y.core.csr.mtvecPc := by
  change (y.core.bruStep i false).pc = _
  rw [loadsMtvec] at h
  simp [Core.bruStep, h]

/-- `csr` records a trap, and what it records describes the instruction that traps. -/
structure TrapRecorded : Prop where
  event : y.core.csr.timeTrap (y.core.csrIn i) = true ∨ (y.core.csrIn i).exceptEn = true
  mepc : (y.step i).core.csr.mepc = y.core.oldestPc
  mcause : (y.step i).core.csr.mcause =
    if y.core.csr.timeTrap (y.core.csrIn i) then 0x8000000000000007#64 else 11#64
  mie : (y.step i).core.csr.mstatus.getLsbD 3 = false

/-- `csr` performs the update of an `mret`. -/
def mretTaken : Bool := y.core.csr.mretUpdate (y.core.csrIn i)

/-- On a flush `bru` goes to the handler with a trap that is recorded, and back with an `mret` that
is performed, and one of the two happens. -/
def RedirectOk : Prop :=
  y.core.flush i = true →
    (y.loadsMtvec i = true ↔ y.TrapRecorded i) ∧ (y.loadsEpc i = true ↔ y.mretTaken i = true) ∧
      (y.TrapRecorded i ∧ ¬ y.mretTaken i = true ∨ ¬ y.TrapRecorded i ∧ y.mretTaken i = true)

/-- The pc that a trap saves, before its low bits are cleared: that in write-back for an interrupt,
that in EX for an `ecall`. -/
def savedPc : Word := if y.timerTaken i then y.core.lsWb.data.pc else y.core.idEx.data.pc

/-- The timer had expired when the instruction in write-back came there, and its interrupt is
enabled. -/
def timerPending : Bool :=
  y.core.lsWb.data.mtimeInt && y.core.csr.mstatus.getLsbD 3 && y.core.csr.mie.getLsbD 7

/-- Traps are plain, no fetch completes while an `mret` is in MEM, and no enabled interrupt is
pending when an `mret` is in write-back and no fetch completes. -/
def plainFlush : Bool :=
  y.plainTrap i && !(y.core.ifReadyAxi i && y.core.exLs.valid && y.core.exLs.data.mret) &&
    !(y.timerPending && !y.core.ifReadyAxi i && y.core.lsWb.data.mret)

end System

/-! ## System instructions on their way -/

/-- The decoded signals of some instruction word. -/
def SysWord (exceptEn mret : Bool) (csr : BitVec 12) (code : Word) : Prop :=
  ∃ ins, exceptEn = isEcall ins ∧ mret = isMret ins ∧ csr = csrId ins ∧ code = exceptCode ins

theorem SysWord.zero : SysWord false false 0#12 0#64 := ⟨0#32, by decide⟩

theorem SysWord.of_ecall {mret : Bool} {csr : BitVec 12} {code : Word}
    (h : SysWord true mret csr code) : mret = false ∧ csr = 0#12 ∧ code = 11#64 := by
  obtain ⟨ins, hen, rfl, rfl, rfl⟩ := h
  have hcsr : csrId ins = 0#12 := by
    simp only [isEcall, Bool.true_eq, Bool.and_eq_true, beq_iff_eq] at hen
    exact hen.2
  refine ⟨?_, hcsr, by simp [exceptCode, ← hen]⟩
  rw [isMret, hcsr]
  exact Bool.and_false _

theorem SysWord.of_mret {en : Bool} {csr : BitVec 12} {code : Word}
    (h : SysWord en true csr code) : en = false ∧ csr = 0x302#12 := by
  obtain ⟨ins, rfl, hm, rfl, -⟩ := h
  have hcsr : csrId ins = 0x302#12 := by
    simp only [isMret, Bool.true_eq, Bool.and_eq_true, beq_iff_eq] at hm
    exact hm.2
  refine ⟨?_, hcsr⟩
  rw [isEcall, hcsr]
  exact Bool.and_false _

/-- What the pipeline holds of system instructions, and an `ecall` in write-back has not retired. -/
structure SysWords (y : System) : Prop where
  ex : let e := y.core.idEx.data
    SysWord e.exceptEn e.mret e.csr e.exceptCode
  mem : let m := y.core.exLs.data
    SysWord m.exceptEn m.mret m.csr m.exceptCode
  wb : let w := y.core.lsWb.data
    SysWord w.exceptEn w.mret w.csr w.exceptCode
  valid : y.core.lsWb.data.exceptEn = true → y.core.lsWb.valid = true

namespace SysWords

variable {y : System} {i : AxiIn}

theorem step_valid (h : SysWords y) (he : (y.step i).core.lsWb.data.exceptEn = true) :
    (y.step i).core.lsWb.valid = true := by
  cases hfl : y.core.flush i with
  | true => rw [Occ.step_lsWb_of_flush hfl] at he; cases he
  | false =>
    change (y.core.step false i).lsWb.valid = true
    rw [Core.step_lsWb_valid]
    cases hl : (y.core.memValid i && y.core.memReady i) with
    | true =>
      simp only [Bool.and_eq_true] at hl
      rw [hl.2, if_pos rfl, hl.1]
    | false =>
      rw [Occ.step_lsWb_of_quiet hl hfl] at he
      have hv := h.valid he
      have hf : y.core.ifReadyAxi i = false := by
        by_contra hf
        rw [Occ.flush_of_ecall (Bool.eq_true_of_not_eq_false hf) he] at hfl
        exact Bool.false_ne_true hfl.symm
      simp [Core.memReady, Stage.ready, hv, hf]

theorem step (h : SysWords y) : SysWords (y.step i) where
  ex := by
    have hdata : (y.step i).core.idEx.data = _ := Core.step_idEx_data y.core i
    rw [hdata]
    split
    · unfold Core.toIdEx
      cases y.core.flush i with
      | true => exact SysWord.zero
      | false => exact ⟨y.core.ifId.data.ins, rfl, rfl, rfl, rfl⟩
    · exact h.ex
  mem := by
    have hdata : (y.step i).core.exLs.data = _ := Core.step_exLs_data y.core i
    rw [hdata]
    split
    · unfold Core.toExLs
      cases y.core.flush i with
      | true => exact SysWord.zero
      | false => exact h.ex
    · exact h.mem
  wb := by
    have hdata : (y.step i).core.lsWb.data = _ := Core.step_lsWb_data y.core i
    rw [hdata]
    split
    · unfold Core.toLsWb
      cases y.core.flush i with
      | true => exact SysWord.zero
      | false => exact h.mem
    · exact h.wb
  valid := h.step_valid

theorem afterReset (h : y.AfterReset) : SysWords y := by
  refine ⟨?_, ?_, ?_, ?_⟩
  · rw [h.core.idEx]; exact SysWord.zero
  · rw [h.core.exLs]; exact SysWord.zero
  · rw [h.core.lsWb]; exact SysWord.zero
  · simp [h.core.lsWb, LsWb.zero]

end SysWords

/-! ## One flush -/

namespace SysWords

variable {y : System} {i : AxiIn}

/-- An `ecall` that is taken is decoded as nothing else. -/
theorem of_ecallTaken (h : SysWords y) (he : y.ecallTaken i = true) :
    (y.core.csrIn i).exceptEn = true ∧ (y.core.csrIn i).mret = false ∧
      (y.core.csrIn i).csrW = 0#12 ∧ (y.core.csrIn i).exceptCode = 11#64 ∧
        y.core.lsWb.valid = true := by
  have hen : y.core.lsWb.data.exceptEn = true := by
    simp only [System.ecallTaken, Csr.ecall, Core.csrIn, Bool.and_eq_true] at he
    exact he.2
  have hwb := h.wb
  simp only [hen] at hwb
  exact ⟨hen, hwb.of_ecall.1, hwb.of_ecall.2.1, hwb.of_ecall.2.2, h.valid hen⟩

theorem step_mie_of_trap (h : SysWords y) (ht : (y.ecallTaken i || y.timerTaken i) = true) :
    (y.step i).core.csr.mstatus.getLsbD 3 = false := by
  have hstep : (y.step i).core.csr.mstatus = _ :=
    congrArg Csr.mstatus (Eq.refl (y.core.csr.step (y.core.csrIn i) false))
  rw [hstep]
  cases hm : y.core.csr.mstatus.getLsbD 3 with
  | true =>
    have htrap : ((y.core.csrIn i).exceptEn ||
        (y.core.csrIn i).mtimeInt && y.core.csr.interruptEn (y.core.csrIn i)) = true := by
      cases he : y.ecallTaken i with
      | true => rw [(h.of_ecallTaken he).1, Bool.true_or]
      | false =>
        rw [he, Bool.false_or, System.timerTaken, Csr.timeInt] at ht
        simp only [Bool.and_eq_true] at ht
        simp [ht]
    simp only [Csr.step, hm, htrap, Bool.and_self, Bool.false_eq_true, if_false, if_true]
    exact getLsbD_mstatusTrap _
  | false =>
    -- then it is an `ecall`, and `mstatus` stays
    have hti : y.timerTaken i = false := by
      simp only [System.timerTaken, Csr.timeInt, hm, Bool.and_false, Bool.false_and]
    rw [hti, Bool.or_false] at ht
    obtain ⟨-, hmret, hcsr, -, -⟩ := h.of_ecallTaken ht
    have hwr : Csr.writes (y.core.csrIn i) CSR_MSTATUS = false := by
      rw [Csr.writes, hcsr]
      exact Bool.and_false _
    simp only [Csr.step, hm, hwr, hmret, Bool.false_and, Bool.false_eq_true, if_false]

theorem step_mcause_of_trap (h : SysWords y) (ht : (y.ecallTaken i || y.timerTaken i) = true) :
    (y.step i).core.csr.mcause =
      if y.core.csr.timeTrap (y.core.csrIn i) then 0x8000000000000007#64 else 11#64 := by
  change (y.core.csr.step (y.core.csrIn i) false).mcause = _
  cases hti : y.core.csr.timeTrap (y.core.csrIn i) with
  | true => simp only [Csr.step, hti, Bool.false_eq_true, if_false, if_true]
  | false =>
    rw [← System.timeTrap_eq, hti, Bool.or_false] at ht
    obtain ⟨hen, -, -, hcode, -⟩ := h.of_ecallTaken ht
    simp only [Csr.step, hti, hen, hcode, Bool.false_eq_true, if_false, if_true]

/-- A trap is recorded exactly if the right pc is saved. -/
theorem trapRecorded_iff (h : SysWords y) (ht : (y.ecallTaken i || y.timerTaken i) = true) :
    y.TrapRecorded i ↔ Csr.alignPc (y.savedPc i) = y.core.oldestPc := by
  have hmepc : (y.step i).core.csr.mepc = Csr.alignPc (y.savedPc i) := by
    unfold System.savedPc
    cases hti : y.timerTaken i with
    | true => exact step_mepc_of_timer hti
    | false =>
      rw [hti, Bool.or_false] at ht
      exact step_mepc_of_ecall ht hti
  rw [← hmepc]
  refine ⟨fun hrec => hrec.mepc, fun hpc => ⟨?_, hpc, h.step_mcause_of_trap ht,
    h.step_mie_of_trap ht⟩⟩
  rw [System.timeTrap_eq]
  rw [Bool.or_eq_true] at ht
  exact ht.symm.imp_right fun he => (h.of_ecallTaken he).1

theorem not_mretTaken_of_trap (h : SysWords y)
    (ht : (y.ecallTaken i || y.timerTaken i) = true) : y.mretTaken i = false := by
  unfold System.mretTaken Csr.mretUpdate
  cases hti : y.timerTaken i with
  | true =>
    simp only [System.timerTaken, Csr.timeInt, Bool.and_eq_true] at hti
    simp [hti]
  | false =>
    rw [hti, Bool.or_false] at ht
    rw [(h.of_ecallTaken ht).2.1, Bool.and_false]

theorem of_flush_mret (h : SysWords y) (hfl : y.core.flush i = true)
    (ht : (y.ecallTaken i || y.timerTaken i) = false) :
    ¬ y.TrapRecorded i ∧ y.mretTaken i = true := by
  simp only [Bool.or_eq_false_iff] at ht
  have hm : (y.core.csrIn i).mret = true := by
    have hflush : (y.ecallTaken i || y.timerTaken i || (y.core.csrIn i).mret) = true := hfl
    rwa [ht.1, ht.2] at hflush
  have hwb := h.wb
  have hmret : y.core.lsWb.data.mret = true := hm
  simp only [hmret] at hwb
  have hen : (y.core.csrIn i).exceptEn = false := hwb.of_mret.1
  have hcsr : (y.core.csrIn i).csrW = 0x302#12 := hwb.of_mret.2
  have htrap := (System.timeTrap_eq y i).trans ht.2
  refine ⟨?_, ?_⟩
  · intro hrec
    rcases hrec.event with he | he
    · exact Bool.false_ne_true (htrap.symm.trans he)
    · exact Bool.false_ne_true (hen.symm.trans he)
  · have hwr : Csr.writes (y.core.csrIn i) CSR_MSTATUS = false := by
      rw [Csr.writes, hcsr]
      exact Bool.and_false _
    have hno : (y.core.csr.mstatus.getLsbD 3 &&
        ((y.core.csrIn i).mtimeInt && y.core.csr.interruptEn (y.core.csrIn i))) = false := by
      rw [← htrap, Csr.timeTrap, ← Bool.and_assoc,
        Bool.and_comm (y.core.csr.mstatus.getLsbD 3)]
    rw [System.mretTaken, Csr.mretUpdate, hen, hwr, hm, Bool.false_or, hno]
    rfl

/-- A flush for a trap is right if the right pc is saved. -/
theorem redirectOk_of_trap (h : SysWords y) (ht : (y.ecallTaken i || y.timerTaken i) = true)
    (hpc : Csr.alignPc (y.savedPc i) = y.core.oldestPc) : y.RedirectOk i := by
  intro hfl
  have hrec : y.TrapRecorded i := (h.trapRecorded_iff ht).2 hpc
  have hmret := h.not_mretTaken_of_trap ht
  have hmtvec : (Csr.ecall (y.core.csrIn i) || y.core.csr.timeInt (y.core.csrIn i)) = true := by
    change (y.ecallTaken i || _) = true
    simp only [System.timerTaken, Bool.or_eq_true, Bool.and_eq_true] at ht ⊢
    exact ht.imp_right And.right
  simp [System.loadsMtvec, System.loadsEpc, hfl, hmtvec, hrec, hmret]

/-- A flush for an `mret` is right if that is still the word in IF/ID and no interrupt is pending. -/
theorem redirectOk_of_mret (h : SysWords y) (ht : (y.ecallTaken i || y.timerTaken i) = false)
    (hid : isMret y.core.ifId.data.ins = true)
    (htime : y.core.csr.timeInt (y.core.csrIn i) = false) : y.RedirectOk i := by
  intro hfl
  obtain ⟨hrec, hmret⟩ := h.of_flush_mret hfl ht
  have hecall : Csr.ecall (y.core.csrIn i) = false := (Bool.or_eq_false_iff.1 ht).1
  simp [System.loadsMtvec, System.loadsEpc, hfl, hecall, htime, hid, hrec, hmret]

end SysWords

/-! ## The word of an `mret` -/

/-- An `mret` behind ID is the word that is still in IF/ID. -/
structure MretWord (y : System) : Prop where
  ex : y.core.idEx.valid = true → y.core.idEx.data.mret = true →
    isMret y.core.ifId.data.ins = true
  mem : y.core.exLs.valid = true → y.core.exLs.data.mret = true →
    isMret y.core.ifId.data.ins = true
  wb : y.core.lsWb.data.mret = true → isMret y.core.ifId.data.ins = true

namespace MretWord

variable {y : System} {i : AxiIn}

/-- No fetch completes while an `mret` is in MEM. -/
theorem not_fetch_of_mem (hp : y.plainFlush i = true) (hv : y.core.exLs.valid = true)
    (hm : y.core.exLs.data.mret = true) : y.core.ifReadyAxi i = false := by
  simp only [System.plainFlush, hv, hm, Bool.and_eq_true, Bool.not_eq_true', Bool.and_true] at hp
  exact hp.1.2

theorem step_ex (ho : Occ y) (hfl : y.core.flush i = false)
    (hv : (y.step i).core.idEx.valid = true) (hm : (y.step i).core.idEx.data.mret = true) :
    isMret (y.step i).core.ifId.data.ins = true := by
  rw [ho.step_ex] at hv
  have hf : y.core.ifReadyAxi i = false := by simp [Core.ifReadyAxi, (ho.id hv).2.2.1]
  rw [ho.step_idEx_of_id hv] at hm
  rw [Occ.step_ifId_of_quiet hf hfl]
  simpa [Core.toIdEx, hfl] using hm

theorem step_mem (h : MretWord y) (ho : Occ y) (hp : y.plainFlush i = true)
    (hfl : y.core.flush i = false) (hv : (y.step i).core.exLs.valid = true)
    (hm : (y.step i).core.exLs.data.mret = true) : isMret (y.step i).core.ifId.data.ins = true := by
  cases hex : y.core.idEx.valid with
  | true =>
    have hf : y.core.ifReadyAxi i = false := by simp [Core.ifReadyAxi, (ho.ex hex).2]
    rw [ho.step_exLs_of_ex hex] at hm
    rw [Occ.step_ifId_of_quiet hf hfl]
    exact h.ex hex (by simpa [Core.toExLs, hfl] using hm)
  | false =>
    rw [Occ.step_mem_of_not_ex hex] at hv
    have hmv : y.core.exLs.valid = true := by
      by_contra hno
      simp [Core.exReady, Stage.ready, hno] at hv
    have hdata : (y.step i).core.exLs.data = y.core.exLs.data := by
      rw [Occ.step_exLs_of_stay hex, hfl]
      rfl
    rw [hdata] at hm
    rw [Occ.step_ifId_of_quiet (not_fetch_of_mem hp hmv hm) hfl]
    exact h.mem hmv hm

theorem step_wb (h : MretWord y) (hp : y.plainFlush i = true) (hfl : y.core.flush i = false)
    (hm : (y.step i).core.lsWb.data.mret = true) : isMret (y.step i).core.ifId.data.ins = true := by
  cases hl : (y.core.memValid i && y.core.memReady i) with
  | true =>
    have hmv := Occ.mem_of_leave hl
    rw [Occ.step_lsWb_of_leave hl] at hm
    have hmem : y.core.exLs.data.mret = true := by simpa [Core.toLsWb, hfl] using hm
    rw [Occ.step_ifId_of_quiet (not_fetch_of_mem hp hmv hmem) hfl]
    exact h.mem hmv hmem
  | false =>
    -- an `mret` does not stay in write-back: it flushes
    rw [Occ.step_lsWb_of_quiet hl hfl] at hm
    have hflush : y.core.flush i = true := by simp [Core.flush, Csr.flush, Core.csrIn, hm]
    rw [hflush] at hfl
    exact absurd hfl (by simp)

theorem step (h : MretWord y) (ho : Occ y) (hp : y.plainFlush i = true) : MretWord (y.step i) := by
  cases hfl : y.core.flush i with
  | true =>
    refine ⟨fun _ hm => ?_, fun _ hm => ?_, fun hm => ?_⟩
    · rw [Occ.step_idEx_of_flush hfl] at hm
      cases hm
    · rw [Occ.step_exLs_of_flush hfl] at hm
      cases hm
    · rw [Occ.step_lsWb_of_flush hfl] at hm
      cases hm
  | false => exact ⟨step_ex ho hfl, h.step_mem ho hp hfl, h.step_wb hp hfl⟩

theorem afterReset (h : y.AfterReset) : MretWord y := by
  refine ⟨?_, ?_, ?_⟩
  · simp [h.core.idEx]
  · simp [h.core.exLs]
  · simp [h.core.lsWb, LsWb.zero]

end MretWord

/-! ## Runs -/

/-- What a plain flush rests on. -/
structure PlainTrap (y : System) : Prop where
  words : SysWords y
  ecall : EcallPc y
  mret : MretWord y

namespace PlainTrap

variable {y : System} {i : AxiIn}

theorem plainTrap_of_plainFlush (hp : y.plainFlush i = true) : y.plainTrap i = true := by
  simp only [System.plainFlush, Bool.and_eq_true] at hp
  exact hp.1.1

theorem step (h : PlainTrap y) (ho : Occ y) (hp : y.plainFlush i = true) : PlainTrap (y.step i) :=
  ⟨h.words.step, h.ecall.step ho (plainTrap_of_plainFlush hp), h.mret.step ho hp⟩

theorem afterReset (h : y.AfterReset) : PlainTrap y :=
  ⟨SysWords.afterReset h, EcallPc.afterReset h, MretWord.afterReset h⟩

/-- The pc that a plain trap saves is that in write-back, which is the oldest one. -/
theorem savedPc_eq (h : PlainTrap y) (hp : y.plainTrap i = true)
    (ht : (y.ecallTaken i || y.timerTaken i) = true) :
    Csr.alignPc (y.savedPc i) = y.core.oldestPc := by
  simp only [System.plainTrap, ht, Bool.and_eq_true, Bool.not_eq_true', Bool.not_true,
    Bool.false_or, beq_iff_eq, Bool.and_eq_false_iff] at hp
  obtain ⟨⟨-, hempty⟩, halign⟩ := hp
  have hwb : y.core.lsWb.valid = true ∧ y.savedPc i = y.core.lsWb.data.pc := by
    unfold System.savedPc
    cases hti : y.timerTaken i with
    | true => exact ⟨by simpa [hti] using hempty, rfl⟩
    | false =>
      rw [hti, Bool.or_false] at ht
      exact h.ecall.wb (h.words.of_ecallTaken ht).1
  rw [hwb.2, alignPc_eq halign, Core.oldestPc, if_pos hwb.1]

/-- With a fetch completed a pending interrupt would be taken, else the condition excludes it. -/
theorem timeInt_of_mret (hp : y.plainFlush i = true) (hm : y.core.lsWb.data.mret = true)
    (ht : y.timerTaken i = false) : y.core.csr.timeInt (y.core.csrIn i) = false := by
  by_contra hti
  rw [Bool.not_eq_false] at hti
  rw [System.timerTaken, hti, Bool.and_true] at ht
  have hpend : y.timerPending = true ∧ ((y.core.csrIn i).wbIns != 0#32) = true := by
    simp only [Csr.timeInt, Bool.and_eq_true] at hti
    simp only [System.timerPending, Bool.and_eq_true]
    exact hti
  have hready : y.core.ifReadyAxi i = false := by
    by_contra hf
    have hen : y.core.csr.interruptEn (y.core.csrIn i) = true := by
      have hmie : y.core.csr.mie.getLsbD 7 = true := by
        have htimer := hpend.1
        simp only [System.timerPending, Bool.and_eq_true] at htimer
        exact htimer.2
      have hwb : (y.core.csrIn i).wbReady = true := Bool.eq_true_of_not_eq_false hf
      rw [Csr.interruptEn, hwb, hmie, hpend.2]
      rfl
    rw [hen] at ht
    exact absurd ht (by simp)
  simp [System.plainFlush, hpend.1, hready, hm] at hp

theorem redirectOk (h : PlainTrap y) (hp : y.plainFlush i = true) : y.RedirectOk i := by
  cases ht : (y.ecallTaken i || y.timerTaken i) with
  | true => exact h.words.redirectOk_of_trap ht (h.savedPc_eq (plainTrap_of_plainFlush hp) ht)
  | false =>
    intro hfl
    have hm : y.core.lsWb.data.mret = true := by
      have hflush : (y.ecallTaken i || y.timerTaken i || (y.core.csrIn i).mret) = true := hfl
      rwa [ht] at hflush
    have htime := timeInt_of_mret hp hm (Bool.or_eq_false_iff.1 ht).2
    exact h.words.redirectOk_of_mret ht (h.mret.wb hm) htime hfl

end PlainTrap

/-- **The redirect and the trap record agree** on every flush of a run in which no fetch completes
while an `ecall` or `mret` is in MEM, no interrupt is taken with write-back empty, what traps is at a
multiple of four, and no enabled interrupt is pending when an `mret` flushes between two fetches. -/
theorem redirects_agree {y : System} {is : Nat → AxiIn} {n : Nat} (h₀ : y.AfterReset)
    (hok : Admits System.step System.Ok y is n)
    (hplain : Admits System.step (fun y i => y.plainFlush i = true) y is n) :
    Admits System.step System.RedirectOk y is n := by
  intro k hk
  have hinv := System.run_invariant h₀ (PlainTrap.afterReset h₀)
    (fun _ _ ho _ hp h => h.step ho hp) (hok.mono hk.le) (hplain.mono hk.le)
  exact hinv.2.redirectOk (hplain k hk)

/-- `csrrw x0, mtvec, x5` and `ecall`, and at the handler `csrrw x0, mepc, x6` and `mret`. -/
def trapProgram : System :=
  System.boot false (fun r => if r = 5#5 then 0x80000020#64 else 0x80000010#64) 0#4 0#4
    (Mem.image [0x7330529073#64, 0#64, 0x1300000013#64, 0#64, 0x3020007334131073#64,
      0x1300000013#64])

/-- The `ecall` goes to the handler, with its pc saved, and the `mret` to where the handler says. -/
theorem redirects_agree_slowReads :
    let is := System.inputs trapProgram slowReads
    let c := run System.step trapProgram is
    (c 32).TrapRecorded (is 32) ∧ (c 33).core.bru.pc = 0x80000020#64 ∧
      (c 33).core.csr.mepc = 0x80000004#64 ∧ (c 60).mretTaken (is 60) = true ∧
      (c 61).core.bru.pc = 0x80000010#64 ∧ Admits System.step System.RedirectOk trapProgram is 64 := by
  intro is c
  have hok := redirects_agree (n := 64) (System.afterReset_boot _ _ _ _ _)
    (System.admits_inputs trapProgram slowReads 64) (by unfold Admits; decide +kernel)
  have hrec : (c 32).TrapRecorded (is 32) :=
    ((hok 32 (by decide) (by decide +kernel)).1).1 (by decide +kernel)
  exact ⟨hrec, by decide +kernel, by decide +kernel, by decide +kernel, by decide +kernel, hok⟩

/-- `addi x0, x0, 0`, `mret`. -/
def mretProgram : System :=
  System.boot false (fun _ => 0#64) 0#4 0#4 (Mem.image [0x3020007300000013#64, 0x1300000013#64])

theorem mretProgram_afterReset : mretProgram.AfterReset := System.afterReset_boot _ _ _ _ _

/-- Without wait states the next word is in IF/ID when the `mret` is in write-back: `csr` performs
its update, and `bru` goes on behind the `mret`. -/
theorem redirects_agree_fails :
    let y := System.driven mretProgram noWait 13
    let i := y.slave.drive (noWait 13)
    y.Reachable ∧ y.Ok i ∧ y.core.flush i = true ∧ y.mretTaken i = true ∧
      y.loadsEpc i = false ∧ y.core.csr.mepc = 0#64 ∧ (y.step i).core.bru.pc = 0x80000010#64 ∧
        ¬ y.RedirectOk i := by
  intro y i
  have hfl : y.core.flush i = true := by decide +kernel
  have hm : y.mretTaken i = true := by decide +kernel
  have hl : y.loadsEpc i = false := by decide +kernel
  refine ⟨System.reachable_driven mretProgram_afterReset _ _, Slave.drives_drive _ _, hfl, hm, hl,
    by decide +kernel, by decide +kernel, ?_⟩
  intro hok
  exact absurd (hl.symm.trans ((hok hfl).2.1.2 hm)) (by decide)

end Oscpu.Axi
