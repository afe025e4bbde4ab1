import Oscpu.Axi.CsrIns
import Oscpu.Axi.Precise

/-!
# Program order

`bru` and `ifu` each hold a pc, and the word in IF/ID stays there, and keeps its jump asserted,
until the next fetch completes. `Order` relates both pcs to the list of the instructions decided so
far: whatever the bus does, they are one instruction apart, and what retires is that list.
-/

namespace Oscpu.Axi

open Oscpu.Rtl Oscpu.Lib

/-! ## Decisions -/

namespace Core

variable (s : Core) (i : AxiIn)

/-- Where `bru` goes on behind the instruction in EX, whose word is still in IF/ID. -/
def target : Word :=
  if s.jump i then jumpPc s.ifId.data.ins s.ifId.data.pc (s.iduRs1 i) s.bru.tarO
  else s.idEx.data.pc + 4#64

/-- What an older instruction in write-back, or the register file, gives for a source register. -/
def older (a : RegId) : Word :=
  if s.lsWb.valid && s.lsWb.data.rdwen && s.lsWb.data.rdid == a then s.wbuRd else s.rf.read a

/-- Whether the word in IF/ID jumps, by the operands that older instructions leave. -/
def jumpNow : Bool :=
  Axi.jump s.ifId.data.ins (s.older (oRs1id s.ifId.data.ins)) (s.older (oRs2id s.ifId.data.ins))

/-- And where to. -/
def jumpTo : Word :=
  jumpPc s.ifId.data.ins s.ifId.data.pc (s.older (oRs1id s.ifId.data.ins)) s.bru.tarO

end Core

namespace System

variable (y : System) (i : AxiIn)

/-- The pc of the instruction that retires, if it is no bubble. -/
def retired : List Word :=
  if y.core.wbHs i && y.core.lsWb.data.ins != 0#32 then [y.core.lsWb.data.pc] else []

/-- The pc of the instruction in EX, if it is no bubble, and where `bru` goes on behind it. -/
def decided : List (Word × Word) :=
  if y.core.idEx.valid && y.core.idEx.data.ins != 0#32 then
    [(y.core.idEx.data.pc, y.core.target i)]
  else []

/-- The pcs of the instructions in write-back and MEM. -/
def inFlight : List Word :=
  (if y.core.lsWb.valid && y.core.lsWb.data.ins != 0#32 then [y.core.lsWb.data.pc] else []) ++
    if y.core.exLs.valid && y.core.exLs.data.ins != 0#32 then [y.core.exLs.data.pc] else []

/-- A fetch completes and its word is neither discarded nor in the slot of a jump. -/
def delivers : Bool := y.core.ifReadyAxi i && !y.core.csr.keep && !y.core.jump i

end System

/-- What a completed fetch leaves in IF/ID. -/
theorem Occ.step_ifId_of_delivery {y : System} {i : AxiIn} (h : Occ y)
    (hf : y.core.ifReadyAxi i = true) (hfl : y.core.flush i = false) :
    (y.step i).core.ifId.data =
      { ins := if y.delivers i then y.core.ifuIns i else 0#32, pc := y.core.ifuPc } := by
  rw [h.step_ifId_of_fetch hf, Core.toIfId, hfl]
  unfold System.delivers Core.ifuIns
  cases y.core.jump i <;> cases y.core.csr.keep <;> simp [hf]

/-- Each instruction is where the one before it goes on. -/
def Follows : Word → List (Word × Word) → Prop
  | _, [] => True
  | pc, d :: ds => d.1 = pc ∧ Follows d.2 ds

/-- Where the last one goes on. -/
def goesOn : Word → List (Word × Word) → Word
  | pc, [] => pc
  | _, d :: ds => goesOn d.2 ds

theorem goesOn_append (pc : Word) (ds es : List (Word × Word)) :
    goesOn pc (ds ++ es) = goesOn (goesOn pc ds) es := by
  induction ds generalizing pc with
  | nil => rfl
  | cons d ds ih => exact ih d.2

theorem follows_append (pc : Word) (ds es : List (Word × Word)) :
    Follows pc (ds ++ es) ↔ Follows pc ds ∧ Follows (goesOn pc ds) es := by
  induction ds generalizing pc with
  | nil => simp [Follows, goesOn]
  | cons d ds ih => simp [Follows, goesOn, ih, and_assoc]

/-- An instruction word that is no bubble and no system instruction. -/
def PlainWord (ins : Ins) : Prop := ins ≠ 0#32 ∧ isCsr ins = false

instance (ins : Ins) : Decidable (PlainWord ins) := inferInstanceAs (Decidable (_ ∧ _))

/-- The instruction word at a pc. -/
def Mem.code (m : Mem) (pc : Word) : Ins := (m.content pc SIZE_W).extractLsb' 0 32

/-! ## Without system instructions nothing flushes -/

/-- No system instruction is in the pipeline and no interrupt is enabled. -/
structure NoTrap (y : System) : Prop where
  id : isCsr y.core.ifId.data.ins = false
  ex : y.core.idEx.data.exceptEn = false ∧ y.core.idEx.data.mret = false ∧
    y.core.idEx.data.csrChoose = 0#3
  mem : y.core.exLs.data.exceptEn = false ∧ y.core.exLs.data.mret = false ∧
    y.core.exLs.data.csrWen = false
  wb : y.core.lsWb.data.exceptEn = false ∧ y.core.lsWb.data.mret = false ∧
    y.core.lsWb.data.csrWen = false
  mie : y.core.csr.mie = 0#64

namespace NoTrap

variable {y : System} {i : AxiIn}

theorem not_flush (h : NoTrap y) (i : AxiIn) : y.core.flush i = false := by
  simp [Core.flush, Csr.flush, Csr.ecall, Csr.timeInt, Core.csrIn, h.wb.1, h.wb.2.1, h.mie]

theorem step (h : NoTrap y) (ho : Occ y)
    (hplain : y.delivers i = true → PlainWord (y.core.ifuIns i)) : NoTrap (y.step i) := by
  have hfl := h.not_flush i
  refine ⟨?_, ?_, ?_, ?_, ?_⟩
  · cases hf : y.core.ifReadyAxi i with
    | false => rw [Occ.step_ifId_of_quiet hf hfl]; exact h.id
    | true =>
      have hzero : isCsr 0#32 = false := by decide
      rw [ho.step_ifId_of_delivery hf hfl]
      cases hd : y.delivers i with
      | true => exact (hplain hd).2
      | false => exact hzero
  · have hdata : (y.step i).core.idEx.data = _ := Core.step_idEx_data y.core i
    rw [hdata, hfl, Bool.or_false]
    cases hl : (y.core.ifId.valid && y.core.idReady i) with
    | false => exact h.ex
    | true =>
      simp only [if_true, Core.toIdEx, hfl, Bool.false_eq_true, if_false]
      simp [isEcall, isMret, csrChoose, h.id]
  · have hdata : (y.step i).core.exLs.data = _ := Core.step_exLs_data y.core i
    rw [hdata, hfl, Bool.or_false]
    cases hl : (y.core.idEx.valid && y.core.exReady i) with
    | false => exact h.mem
    | true =>
      simp only [if_true, Core.toExLs, hfl, Bool.false_eq_true, if_false]
      exact ⟨h.ex.1, h.ex.2.1, by rw [h.ex.2.2]; rfl⟩
  · have hdata : (y.step i).core.lsWb.data = _ := Core.step_lsWb_data y.core i
    rw [hdata, hfl, Bool.or_false]
    cases hl : (y.core.memValid i && y.core.memReady i) with
    | false => exact h.wb
    | true =>
      simp only [if_true, Core.toLsWb, hfl, Bool.false_eq_true, if_false]
      exact h.mem
  · change (y.core.csr.step (y.core.csrIn i) false).mie = 0#64
    have hw : Csr.writes (y.core.csrIn i) CSR_MIE = false := by
      simp [Csr.writes, Core.csrIn, h.wb.2.2]
    simp [Csr.step, hw, h.mie]

theorem afterReset (h : y.AfterReset) : NoTrap y := by
  have hc := h.core
  have hmie : y.core.csr.mie = 0#64 := by rw [hc.csr]
  refine ⟨?_, ?_, ?_, ?_, hmie⟩
  · rw [hc.ifId]; decide
  · rw [hc.idEx]; decide
  · rw [hc.exLs]; decide
  · rw [hc.lsWb]; decide

end NoTrap

/-! ## The word in IF/ID -/

/-- The instruction in EX or in MEM is the one whose word is still in IF/ID. -/
structure Behind (y : System) : Prop where
  ex : y.core.idEx.valid = true →
    y.core.idEx.data.ins = y.core.ifId.data.ins ∧ y.core.idEx.data.pc = y.core.ifId.data.pc ∧
      y.core.idEx.data.rdid = oRdid y.core.ifId.data.ins ∧
        y.core.idEx.data.rdwen = oRdwen y.core.ifId.data.ins ∧
          y.core.idEx.data.lden = oLsuLden y.core.ifId.data.ins
  mem : y.core.exLs.valid = true → y.core.exLs.data.rdid = oRdid y.core.ifId.data.ins ∧
    y.core.exLs.data.rdwen = oRdwen y.core.ifId.data.ins

/-- The instruction does not write this register. -/
def Spares (ins : Ins) (a : RegId) : Prop := oRdwen ins = false ∨ oRdid ins ≠ a

theorem spares_of_brch {ins : Ins} (h : oBrch ins = true) (a : RegId) : Spares ins a := by
  have hop : opcode ins = TYPE_B := by simpa [oBrch] using h
  refine .inl ?_
  simp [oRdwen, hop, TYPE_B, TYPE_R, TYPE_R_W, TYPE_I, TYPE_I_W, TYPE_I_LOAD, TYPE_I_JALR,
    TYPE_U_LUI, TYPE_U_AUIPC, TYPE_J]

/-- A `jalr` writes its own base only in the case that `jalr_bp` names. -/
theorem spares_of_jalr {ins : Ins} (h : oJalr ins = true) (hb : jalrBp ins = false) :
    Spares ins (oRs1id ins) := by
  refine .inr ?_
  intro heq
  simp [jalrBp, h, heq] at hb

theorem not_load_of_jump {ins : Ins} {rs1 rs2 : Word} (h : jump ins rs1 rs2 = true) :
    oLsuLden ins = false := by
  by_contra hl
  have hop : opcode ins = TYPE_I_LOAD := by simpa [oLsuLden] using hl
  simp [jump, oBrch, oJal, oJalr, hop, TYPE_I_LOAD, TYPE_B, TYPE_J, TYPE_I_JALR] at h

/-- Only a branch compares its operands. -/
theorem jump_congr {ins : Ins} {a a' b b' : Word} (ha : oBrch ins = true → a = a')
    (hb : oBrch ins = true → b = b') : jump ins a b = jump ins a' b' := by
  unfold jump
  by_cases h : oBrch ins = true
  · rw [ha h, hb h]
  · rw [if_neg h, if_neg h]

/-- Only a `jalr` outside `jalr_bp` adds to its base. -/
theorem jumpPc_congr {ins : Ins} {pc a a' tar : Word}
    (ha : oJalr ins = true → jalrBp ins = false → a = a') :
    jumpPc ins pc a tar = jumpPc ins pc a' tar := by
  unfold jumpPc
  by_cases h : oJalr ins = true
  · by_cases hb : jalrBp ins = true
    · simp only [h, hb, if_true]
    · rw [ha h (Bool.eq_false_iff.2 hb)]
  · rw [if_neg h, if_neg h]

namespace Behind

variable {y : System} {i : AxiIn}

theorem step (h : Behind y) (ho : Occ y) (hfl : y.core.flush i = false) : Behind (y.step i) where
  ex hv := by
    rw [ho.step_ex] at hv
    obtain ⟨he, -, hr, -⟩ := ho.id hv
    have hf : y.core.ifReadyAxi i = false := by simp [Core.ifReadyAxi, hr]
    rw [ho.step_idEx_of_id hv, Occ.step_ifId_of_quiet hf hfl]
    simp [Core.toIdEx, hfl, Occ.not_pcStall he]
  mem hv := by
    cases he : y.core.idEx.valid with
    | true =>
      have hf : y.core.ifReadyAxi i = false := by simp [Core.ifReadyAxi, (ho.ex he).2]
      obtain ⟨-, -, hrd, hwen, -⟩ := h.ex he
      rw [ho.step_exLs_of_ex he, Occ.step_ifId_of_quiet hf hfl]
      simp [Core.toExLs, hfl, hrd, hwen]
    | false =>
      rw [Occ.step_mem_of_not_ex he, Bool.not_eq_true'] at hv
      have hf : y.core.ifReadyAxi i = false := by
        by_contra hf
        rw [Occ.exReady_of_fetch (Bool.eq_true_of_not_eq_false hf)] at hv
        exact Bool.false_ne_true hv.symm
      have hmv : y.core.exLs.valid = true := by
        by_contra hm
        simp [Core.exReady, Stage.ready, hm] at hv
      have hdata : (y.step i).core.exLs = y.core.exLs := ho.step_exLs_of_hold hmv hv hfl
      rw [hdata, Occ.step_ifId_of_quiet hf hfl]
      exact h.mem hmv

/-- Forwarding for a register that the instruction itself does not write. -/
theorem bypassRs_eq (h : Behind y) (i : AxiIn) {a : RegId}
    (ha : Spares y.core.ifId.data.ins a) : y.core.bypassRs i a = y.core.older a := by
  have hmatch (wen : Bool) (rd : RegId) (hw : wen = oRdwen y.core.ifId.data.ins)
      (hr : rd = oRdid y.core.ifId.data.ins) : (wen && rd == a) = false := by
    rcases ha with hn | hn
    · simp [hw, hn]
    · simp [hr, hn]
  have hex : (y.core.idEx.valid && !y.core.idEx.data.lden && y.core.idEx.data.rdwen &&
      y.core.idEx.data.rdid == a) = false := by
    cases hv : y.core.idEx.valid with
    | false => rfl
    | true =>
      obtain ⟨-, -, hr, hw, -⟩ := h.ex hv
      rw [Bool.and_assoc, hmatch _ _ hw hr, Bool.and_false]
  have hmem : (y.core.memValid i && y.core.exLs.data.rdwen && y.core.exLs.data.rdid == a) =
      false := by
    cases hv : y.core.exLs.valid with
    | false => simp [Occ.memValid_of_empty hv]
    | true =>
      obtain ⟨hr, hw⟩ := h.mem hv
      rw [Bool.and_assoc, hmatch _ _ hw hr, Bool.and_false]
  unfold Core.bypassRs Core.older
  simp only [hex, hmem, Bool.false_eq_true, if_false]

theorem step_older (h : Behind y) (hf : y.core.ifReadyAxi i = false)
    (hfl : y.core.flush i = false) {a : RegId} (ha : Spares y.core.ifId.data.ins a) :
    (y.step i).core.older a = y.core.older a := by
  have hrf := Occ.step_rf_of_quiet (y := y) (.inl hf)
  cases hl : y.core.leaves i with
  | false =>
    have hdata := Occ.step_lsWb_of_quiet hl hfl
    have hvalid : (y.step i).core.lsWb.valid = y.core.lsWb.valid := by
      change (y.core.step false i).lsWb.valid = _
      rw [Core.step_lsWb_valid]
      cases hv : y.core.lsWb.valid with
      | true => simp [Core.memReady, Stage.ready, hv, hf]
      | false =>
        have hr : y.core.memReady i = true := by simp [Core.memReady, Stage.ready, hv]
        have hm : y.core.memValid i = false := by simpa [Core.leaves, hr] using hl
        simp [hm]
    unfold Core.older Core.wbuRd
    rw [hdata, hvalid, hrf]
  | true =>
    -- it moves to write-back, which was empty, and does not write the register
    have hv : y.core.exLs.valid = true := Occ.mem_of_leave hl
    have hwb : y.core.lsWb.valid = false := by
      simp only [Core.leaves, Core.memReady, Stage.ready, hf, Bool.or_false, Bool.and_eq_true,
        Bool.not_eq_true'] at hl
      exact hl.2
    obtain ⟨hr, hw⟩ := h.mem hv
    have hno : ((y.step i).core.lsWb.data.rdwen && (y.step i).core.lsWb.data.rdid == a) = false := by
      rw [Occ.step_lsWb_of_leave hl]
      simp only [Core.toLsWb, hfl, Bool.false_eq_true, if_false, hr, hw]
      rcases ha with hn | hn
      · simp [hn]
      · simp [hn]
    unfold Core.older
    rw [Bool.and_assoc, hno, hwb, hrf]
    simp

/-- Whether the word in IF/ID jumps does not depend on its own progress. -/
theorem jump_eq (h : Behind y) (i : AxiIn) : y.core.jump i = y.core.jumpNow :=
  jump_congr (fun hb => h.bypassRs_eq i (spares_of_brch hb _))
    fun hb => h.bypassRs_eq i (spares_of_brch hb _)

theorem jumpPc_eq (h : Behind y) (i : AxiIn) :
    jumpPc y.core.ifId.data.ins y.core.ifId.data.pc (y.core.iduRs1 i) y.core.bru.tarO =
      y.core.jumpTo :=
  jumpPc_congr fun hj hb => h.bypassRs_eq i (spares_of_jalr hj hb)

/-- `bru` takes a jump in every cycle. -/
theorem step_bruPc_of_jump (h : Behind y) (hk : y.core.csr.keep = false)
    (hj : y.core.jumpNow = true) (hfl : y.core.flush i = false) :
    (y.step i).core.bru.pc = y.core.jumpTo := by
  have hstall : y.core.pcStall = false := by
    have hl := not_load_of_jump hj
    cases he : y.core.idEx.valid with
    | false => exact Occ.not_pcStall he
    | true => simp [Core.pcStall, (h.ex he).2.2.2.2, hl]
  have hwen : y.core.pcWen i = true := by
    simp [Core.pcWen, h.jump_eq i, hj, hstall, hk]
  rw [Occ.step_bruPc hfl, hwen, if_pos rfl, Core.nextPc, h.jump_eq i, hj, if_pos rfl,
    h.jumpPc_eq i]

section

variable (h : Behind y) (hf : y.core.ifReadyAxi i = false) (hfl : y.core.flush i = false)
include h hf hfl

theorem step_jumpNow : (y.step i).core.jumpNow = y.core.jumpNow := by
  unfold Core.jumpNow
  rw [Occ.step_ifId_of_quiet hf hfl]
  exact jump_congr (fun hb => h.step_older hf hfl (spares_of_brch hb _))
    fun hb => h.step_older hf hfl (spares_of_brch hb _)

/-- The target is the same from EX on; in ID, `jalr_bp_tar_o` is still to be loaded. -/
theorem step_jumpTo (hid : y.core.ifId.valid = false) :
    (y.step i).core.jumpTo = y.core.jumpTo := by
  have htar : (y.step i).core.bru.tarO = y.core.bru.tarO := by
    change (y.core.bruStep i false).tarO = _
    simp [Core.bruStep, Core.brHs, hid, stlReg]
  unfold Core.jumpTo
  rw [Occ.step_ifId_of_quiet hf hfl, htar]
  exact jumpPc_congr fun hj hb => h.step_older hf hfl (spares_of_jalr hj hb)

end

theorem afterReset (h : y.AfterReset) : Behind y := by
  refine ⟨?_, ?_⟩
  · simp [h.core.idEx]
  · simp [h.core.exLs]

end Behind

/-! ## The pipeline as a queue -/

/-- An item of a pipeline register, if it is no bubble. -/
def entry (valid : Bool) (ins : Ins) (pc : Word) : List Word :=
  if valid && ins != 0#32 then [pc] else []

theorem entry_eq (valid : Bool) (ins : Ins) (pc : Word) :
    entry valid ins pc = if valid then entry true ins pc else [] := by
  cases valid <;> rfl

namespace Occ

variable {y : System} {i : AxiIn}

/-- Whatever the registers behind ID are tagged with, what leaves write-back is what was there. -/
theorem queue_step {α : Type*} (h : Occ y) (i : AxiIn) (ex mem wb : List α) :
    (if y.core.lsWb.valid then wb else []) ++
        ((if y.core.exLs.valid then mem else []) ++ if y.core.idEx.valid then ex else []) =
      (if y.core.wbHs i then wb else []) ++
        ((if (y.step i).core.lsWb.valid then if y.core.leaves i then mem else wb else []) ++
          if (y.step i).core.exLs.valid then
            if y.core.idEx.valid && y.core.exReady i then ex else mem else []) := by
  have hwbReady : y.core.lsWb.valid = true → y.core.memReady i = y.core.ifReadyAxi i := by
    intro hv
    simp [Core.memReady, Stage.ready, hv]
  have hmemReady : y.core.exLs.valid = true → y.core.exReady i = y.core.memExReady i := by
    intro hv
    simp [Core.exReady, Stage.ready, hv]
  have hwb := Stage.flat_step (s := ⟨y.core.lsWb.valid, wb⟩) (y.core.memValid i) mem hwbReady
  have hmem := Stage.flat_step (s := ⟨y.core.exLs.valid, mem⟩) y.core.idEx.valid ex hmemReady
  have hex : (if y.core.idEx.valid then ex else []) =
      if y.core.idEx.valid && y.core.exReady i then ex else [] := by
    cases hv : y.core.idEx.valid with
    | false => rfl
    | true => rw [h.exReady_of_ex i hv]; rfl
  have hleave : (y.core.exLs.valid && y.core.memExReady i) = y.core.leaves i := by
    change (y.core.exLs.valid && y.core.leaves i) = y.core.leaves i
    cases hl : y.core.leaves i with
    | false => simp
    | true => simp [mem_of_leave hl]
  rw [hleave] at hmem
  rw [hex]
  apply (congrArg (_ ++ ·) hmem).trans
  rw [← List.append_assoc, ← List.append_assoc]
  exact congrArg (· ++ _) hwb

theorem inFlight_step (h : Occ y) (hfl : y.core.flush i = false) :
    y.inFlight ++ (y.decided i).map Prod.fst = y.retired i ++ (y.step i).inFlight := by
  have hin (z : System) : z.inFlight =
      (if z.core.lsWb.valid then entry true z.core.lsWb.data.ins z.core.lsWb.data.pc else []) ++
        if z.core.exLs.valid then entry true z.core.exLs.data.ins z.core.exLs.data.pc else [] := by
    rw [← entry_eq, ← entry_eq]
    rfl
  have hdec : (y.decided i).map Prod.fst =
      if y.core.idEx.valid then entry true y.core.idEx.data.ins y.core.idEx.data.pc else [] := by
    rw [← entry_eq]
    unfold System.decided entry
    split_ifs <;> rfl
  have hret : y.retired i =
      if y.core.wbHs i then entry true y.core.lsWb.data.ins y.core.lsWb.data.pc else [] := by
    rw [← entry_eq]
    rfl
  have hwb : (if y.core.leaves i then entry true y.core.exLs.data.ins y.core.exLs.data.pc
      else entry true y.core.lsWb.data.ins y.core.lsWb.data.pc) =
        entry true (y.step i).core.lsWb.data.ins (y.step i).core.lsWb.data.pc := by
    cases hl : y.core.leaves i with
    | true =>
      rw [step_lsWb_of_leave hl, Core.toLsWb, hfl]
      rfl
    | false =>
      rw [step_lsWb_of_quiet hl hfl]
      rfl
  have hmem : (if y.core.idEx.valid && y.core.exReady i then
      entry true y.core.idEx.data.ins y.core.idEx.data.pc
      else entry true y.core.exLs.data.ins y.core.exLs.data.pc) =
        entry true (y.step i).core.exLs.data.ins (y.step i).core.exLs.data.pc := by
    have hdata : (y.step i).core.exLs.data = _ := Core.step_exLs_data y.core i
    rw [hdata, hfl, Bool.or_false]
    cases hl : (y.core.idEx.valid && y.core.exReady i) with
    | true =>
      rw [if_pos rfl, if_pos rfl, Core.toExLs, hfl]
      rfl
    | false => rfl
  have hq := h.queue_step i (entry true y.core.idEx.data.ins y.core.idEx.data.pc)
    (entry true y.core.exLs.data.ins y.core.exLs.data.pc)
    (entry true y.core.lsWb.data.ins y.core.lsWb.data.pc)
  rw [hwb, hmem] at hq
  rw [hin, hin, hdec, hret, List.append_assoc]
  exact hq

end Occ

/-! ## The two program counters -/

/-- The pc behind an instruction in ID or EX, or else the one that is due next. -/
def System.seqPc (y : System) (due : Word) : Word :=
  if (y.core.ifId.valid || y.core.idEx.valid) && y.core.ifId.data.ins != 0#32 then
    y.core.ifId.data.pc + 4#64
  else due

/-- The front end, when `due` is the pc that comes next behind the instructions decided so far. -/
structure Front (y : System) (due : Word) : Prop where
  keep : y.core.csr.keep = false
  /-- An instruction in ID or EX is that one. -/
  cur : (y.core.ifId.valid || y.core.idEx.valid) = true → y.core.ifId.data.ins ≠ 0#32 →
    y.core.ifId.data.pc = due
  /-- Without a jump, `ifu` fetches the next one and `bru` is one ahead, but for the cycle in ID. -/
  seq : y.core.jumpNow = false → y.core.ifuPc = y.seqPc due ∧
    y.core.bru.pc = if y.core.ifId.valid then y.seqPc due else y.seqPc due + 4#64
  /-- After a jump, `bru` holds its target. -/
  jump : y.core.jumpNow = true → (y.core.ifId.valid || y.core.idEx.valid) = false →
    y.core.bru.pc = due ∧ y.core.jumpTo = due
  delay : y.core.bru.delay = true → y.core.idEx.valid = true ∧ y.core.jumpNow = true

/-- The pc behind an instruction in ID or EX, or else the one that is due next, when the word in
IF/ID is an instruction if `real` is true. -/
def System.pcBehind (y : System) (real : Bool) (due : Word) : Word :=
  if (y.core.ifId.valid || y.core.idEx.valid) && real then y.core.ifId.data.pc + 4#64 else due

/-- The instruction in EX, if it is one, and where `bru` goes on behind it. -/
def System.decidedIf (y : System) (real : Bool) (i : AxiIn) : List (Word × Word) :=
  if y.core.idEx.valid && real then [(y.core.idEx.data.pc, y.core.target i)] else []

/-- `Front` with a note of whether the word in IF/ID is an instruction, which may be zero too. -/
structure Ahead (y : System) (real : Bool) (due : Word) : Prop where
  keep : y.core.csr.keep = false
  zero : real = false → y.core.ifId.data.ins = 0#32
  cur : (y.core.ifId.valid || y.core.idEx.valid) = true → real = true → y.core.ifId.data.pc = due
  seq : y.core.jumpNow = false → y.core.ifuPc = y.pcBehind real due ∧
    y.core.bru.pc =
      if y.core.ifId.valid then y.pcBehind real due else y.pcBehind real due + 4#64
  jump : y.core.jumpNow = true → (y.core.ifId.valid || y.core.idEx.valid) = false →
    y.core.bru.pc = due ∧ y.core.jumpTo = due
  delay : y.core.bru.delay = true → y.core.idEx.valid = true ∧ y.core.jumpNow = true

/-- The fetch under way will be discarded, and `due` is fetched next. -/
structure Discards (y : System) (due : Word) : Prop where
  keep : y.core.csr.keep = true
  bru : y.core.bru.pc = due
  ins : y.core.ifId.data.ins = 0#32

/-- A word is being fetched that will be discarded, and `due` is fetched next. -/
structure Waiting (y : System) (due : Word) : Prop where
  keep : y.core.csr.keep = true
  bru : y.core.bru.pc = due
  ins : y.core.ifId.data.ins = 0#32
  delay : y.core.bru.delay = false

theorem Core.jumpNow_of_zero {s : Core} (h : s.ifId.data.ins = 0#32) : s.jumpNow = false := by
  rw [Core.jumpNow, h]
  exact jump_zero _ _

namespace Ahead

variable {y : System} {i : AxiIn} {real : Bool} {due : Word}

theorem pcBehind_of_empty (he : (y.core.ifId.valid || y.core.idEx.valid) = false) :
    y.pcBehind real due = due := by
  simp [System.pcBehind, he]

theorem not_jump_of_zero (h : Ahead y real due) (hr : real = false) : y.core.jumpNow = false :=
  Core.jumpNow_of_zero (h.zero hr)

theorem delivers_eq (h : Ahead y real due) (hb : Behind y) (hf : y.core.ifReadyAxi i = true) :
    y.delivers i = !y.core.jumpNow := by
  simp [System.delivers, hf, h.keep, hb.jump_eq i]

/-- The fetch that completes behind a jump is dropped, any other one is due. -/
theorem step_fetch (h : Ahead y real due) (hb : Behind y) (ho : Occ y)
    (hf : y.core.ifReadyAxi i = true) (hfl : y.core.flush i = false) :
    Ahead (y.step i) (!y.core.jumpNow) due := by
  have hready := (Occ.ready_of_fetch hf).2.2
  have hid := ho.not_id_of_ready hready
  have hex := ho.not_ex_of_ready hready
  have hempty : (y.core.ifId.valid || y.core.idEx.valid) = false := by simp [hid, hex]
  have hdelay : y.core.bru.delay = false := by
    by_contra hd
    rw [(h.delay (Bool.eq_true_of_not_eq_false hd)).1] at hex
    exact Bool.false_ne_true hex.symm
  have hvid : (y.step i).core.ifId.valid = true := by rw [ho.step_id, hf]
  have hvex : (y.step i).core.idEx.valid = false := by rw [ho.step_ex, hid]
  have hdata := ho.step_ifId_of_delivery hf hfl
  rw [h.delivers_eq hb hf] at hdata
  have hifu := ho.step_ifuPc_of_fetch hf hfl
  have hwen : y.core.pcWen i = y.core.jumpNow := by
    simp [Core.pcWen, Core.brHs, hid, hdelay, hb.jump_eq i, Occ.not_pcStall hex, h.keep]
  have hbru : (y.step i).core.bru.pc = if y.core.jumpNow then due else y.core.bru.pc := by
    rw [Occ.step_bruPc hfl, hwen]
    cases hj : y.core.jumpNow with
    | false => rfl
    | true =>
      simp only [if_true]
      rw [Core.nextPc, hb.jump_eq i, hj, if_pos rfl, hb.jumpPc_eq i, (h.jump hj hempty).2]
  have hpc : (y.step i).core.ifId.data.pc = y.core.ifuPc := by rw [hdata]
  have hdel : (y.step i).core.bru.delay = false := by
    rw [Occ.step_delay, Core.brHs, hid]
    simp
  have hkeep : (y.step i).core.csr.keep = false := by
    rw [Occ.step_keep hfl, h.keep]
    rfl
  cases hj : y.core.jumpNow with
  | true =>
    obtain ⟨hto, -⟩ := h.jump hj hempty
    have hzero : (y.step i).core.ifId.data.ins = 0#32 := by rw [hdata, hj]; rfl
    have hdue : (y.step i).pcBehind false due = due := by simp [System.pcBehind]
    refine ⟨hkeep, fun _ => hzero, fun _ hr => absurd hr (by simp), ?_, ?_, ?_⟩
    · intro _
      rw [hvid, if_pos rfl, hifu, hbru, hj, if_pos rfl, hto, Bool.not_true, hdue]
      exact ⟨rfl, rfl⟩
    · intro _ hv
      rw [hvid] at hv
      exact absurd hv (by simp)
    · intro hd
      rw [hdel] at hd
      exact absurd hd Bool.false_ne_true
  | false =>
    obtain ⟨hifuPc, hbr⟩ := h.seq hj
    rw [pcBehind_of_empty hempty] at hifuPc hbr
    rw [hid, if_neg Bool.false_ne_true] at hbr
    have hdue : (y.step i).pcBehind true due = due + 4#64 := by
      rw [System.pcBehind, hvid, hpc, hifuPc]
      rfl
    refine ⟨hkeep, fun hr => absurd hr (by simp), fun _ _ => hpc.trans hifuPc, ?_, ?_, ?_⟩
    · intro _
      rw [hvid, if_pos rfl, hifu, hbru, hj, if_neg Bool.false_ne_true, Bool.not_false, hdue]
      exact ⟨hbr, hbr⟩
    · intro _ hv
      rw [hvid] at hv
      exact absurd hv (by simp)
    · intro hd
      rw [hdel] at hd
      exact absurd hd Bool.false_ne_true

theorem step_id (h : Ahead y real due) (hb : Behind y) (ho : Occ y)
    (hid : y.core.ifId.valid = true) (hfl : y.core.flush i = false) :
    Ahead (y.step i) real due := by
  obtain ⟨hex, hmem, hr, -⟩ := ho.id hid
  have hf : y.core.ifReadyAxi i = false := by simp [Core.ifReadyAxi, hr]
  have hdata := Occ.step_ifId_of_quiet hf hfl
  have hifu := Occ.step_ifuPc_of_quiet hf hfl
  have hvid : (y.step i).core.ifId.valid = false := by rw [ho.step_id, hf]
  have hvex : (y.step i).core.idEx.valid = true := by rw [ho.step_ex, hid]
  have hjump := hb.step_jumpNow hf hfl
  have hwen : y.core.pcWen i = true := by
    simp [Core.pcWen, Core.brHs, hid, ho.idReady i, Occ.not_pcStall hex, h.keep]
  have hseq : (y.step i).pcBehind real due = y.pcBehind real due := by
    simp [System.pcBehind, hid, hvex, hdata]
  refine ⟨by rw [Occ.step_keep hfl, h.keep]; rfl, ?_, ?_, ?_,
    ?_, fun hd => ⟨hvex, ?_⟩⟩
  · intro hz
    rw [hdata]
    exact h.zero hz
  · intro _ hreal
    rw [hdata]
    exact h.cur (by simp [hid]) hreal
  · intro hj'
    have hj : y.core.jumpNow = false := by rw [← hjump, hj']
    obtain ⟨hpc, hbr⟩ := h.seq hj
    rw [hid, if_pos rfl] at hbr
    rw [hifu, hseq, hvid, if_neg Bool.false_ne_true, Occ.step_bruPc hfl, hwen, if_pos rfl,
      Core.nextPc, hb.jump_eq i, hj, if_neg Bool.false_ne_true, hbr]
    exact ⟨hpc, rfl⟩
  · intro _ hv
    rw [hvex] at hv
    exact absurd hv (by simp)
  · rw [Occ.step_delay, hb.jump_eq i] at hd
    rw [hjump]
    by_contra hj
    simp [hj] at hd

/-- From EX on, a jump is taken in every cycle. -/
theorem bruPc_of_quiet (h : Ahead y real due) (hb : Behind y) (hid : y.core.ifId.valid = false)
    (hfl : y.core.flush i = false) :
    (y.step i).core.bru.pc = if y.core.jumpNow then y.core.jumpTo else y.core.bru.pc := by
  cases hj : y.core.jumpNow with
  | true =>
    rw [if_pos rfl]
    exact hb.step_bruPc_of_jump h.keep hj hfl
  | false =>
    have hdelay : y.core.bru.delay = false := by
      by_contra hd
      rw [(h.delay (Bool.eq_true_of_not_eq_false hd)).2] at hj
      exact Bool.false_ne_true hj.symm
    have hwen : y.core.pcWen i = false := by
      simp [Core.pcWen, Core.brHs, hid, hdelay, hb.jump_eq i, hj]
    rw [Occ.step_bruPc hfl, hwen]
    rfl

theorem step_ex (h : Ahead y real due) (hb : Behind y) (ho : Occ y)
    (hex : y.core.idEx.valid = true) (hfl : y.core.flush i = false) :
    Ahead (y.step i) real (goesOn due (y.decidedIf real i)) := by
  obtain ⟨hmem, hr⟩ := ho.ex hex
  have hid := ho.not_id_of_ex hex
  have hf : y.core.ifReadyAxi i = false := by simp [Core.ifReadyAxi, hr]
  have hdata := Occ.step_ifId_of_quiet hf hfl
  have hifu := Occ.step_ifuPc_of_quiet hf hfl
  have hvid : (y.step i).core.ifId.valid = false := by rw [ho.step_id, hf]
  have hvex : (y.step i).core.idEx.valid = false := by rw [ho.step_ex, hid]
  have hjump := hb.step_jumpNow hf hfl
  have hto := hb.step_jumpTo hf hfl hid
  have hbru := h.bruPc_of_quiet hb hid hfl
  have hgoes : goesOn due (y.decidedIf real i) =
      if y.core.jumpNow then y.core.jumpTo else y.pcBehind real due := by
    unfold System.decidedIf System.pcBehind Core.target
    rw [hex, hid, (hb.ex hex).2.1, hb.jump_eq i, hb.jumpPc_eq i]
    cases real with
    | false => simp [h.not_jump_of_zero rfl, goesOn]
    | true => simp [goesOn]
  have hempty : ((y.step i).core.ifId.valid || (y.step i).core.idEx.valid) = false := by
    simp [hvid, hvex]
  refine ⟨by rw [Occ.step_keep hfl, h.keep]; rfl, ?_, ?_, ?_, ?_, ?_⟩
  · intro hz
    rw [hdata]
    exact h.zero hz
  · intro hv
    rw [hempty] at hv
    exact absurd hv Bool.false_ne_true
  · intro hj'
    have hj : y.core.jumpNow = false := by rw [← hjump, hj']
    obtain ⟨hpc, hbr⟩ := h.seq hj
    rw [hid, if_neg Bool.false_ne_true] at hbr
    rw [pcBehind_of_empty hempty, hgoes, hifu, hvid, hbru, hj]
    exact ⟨hpc, hbr⟩
  · intro hj' _
    have hj : y.core.jumpNow = true := by rw [← hjump, hj']
    rw [hgoes, hbru, hto, hj]
    exact ⟨rfl, rfl⟩
  · intro hd
    rw [Occ.step_delay, Core.brHs, hid] at hd
    simp at hd

theorem step_wait (h : Ahead y real due) (hb : Behind y) (ho : Occ y)
    (hempty : (y.core.ifId.valid || y.core.idEx.valid) = false)
    (hf : y.core.ifReadyAxi i = false) (hfl : y.core.flush i = false) :
    Ahead (y.step i) real due := by
  obtain ⟨hid, hex⟩ := Bool.or_eq_false_iff.1 hempty
  have hdata := Occ.step_ifId_of_quiet hf hfl
  have hvid : (y.step i).core.ifId.valid = false := by rw [ho.step_id, hf]
  have hvex : (y.step i).core.idEx.valid = false := by rw [ho.step_ex, hid]
  have hempty' : ((y.step i).core.ifId.valid || (y.step i).core.idEx.valid) = false := by
    simp [hvid, hvex]
  have hjump := hb.step_jumpNow hf hfl
  have hbru := h.bruPc_of_quiet hb hid hfl
  refine ⟨by rw [Occ.step_keep hfl, h.keep]; rfl, ?_, ?_, ?_, ?_, ?_⟩
  · intro hz
    rw [hdata]
    exact h.zero hz
  · intro hv
    rw [hempty'] at hv
    exact absurd hv Bool.false_ne_true
  · intro hj'
    have hj : y.core.jumpNow = false := by rw [← hjump, hj']
    rw [pcBehind_of_empty hempty', Occ.step_ifuPc_of_quiet hf hfl, hvid, hbru, hj]
    simpa [pcBehind_of_empty hempty, hid] using h.seq hj
  · intro hj' _
    have hj : y.core.jumpNow = true := by rw [← hjump, hj']
    rw [hbru, hb.step_jumpTo hf hfl hid, hj]
    exact ⟨(h.jump hj hempty).2, (h.jump hj hempty).2⟩
  · intro hd
    rw [Occ.step_delay, Core.brHs, hid] at hd
    simp at hd

/-- **One edge.** IF/ID holds an instruction when a word is delivered, and none behind a jump. -/
theorem step (h : Ahead y real due) (hb : Behind y) (ho : Occ y) (hfl : y.core.flush i = false) :
    Ahead (y.step i) (if y.core.ifReadyAxi i then !y.core.jumpNow else real)
      (goesOn due (y.decidedIf real i)) := by
  cases hex : y.core.idEx.valid with
  | true =>
    have hf : y.core.ifReadyAxi i = false := by simp [Core.ifReadyAxi, (ho.ex hex).2]
    rw [hf]
    exact h.step_ex hb ho hex hfl
  | false =>
    have hnone : goesOn due (y.decidedIf real i) = due := by simp [System.decidedIf, hex, goesOn]
    rw [hnone]
    cases hid : y.core.ifId.valid with
    | true =>
      have hf : y.core.ifReadyAxi i = false := by simp [Core.ifReadyAxi, (ho.id hid).2.2.1]
      rw [hf]
      exact h.step_id hb ho hid hfl
    | false =>
      cases hf : y.core.ifReadyAxi i with
      | true => exact h.step_fetch hb ho hf hfl
      | false => exact h.step_wait hb ho (by simp [hid, hex]) hf hfl

theorem follows (h : Ahead y real due) (hb : Behind y) (i : AxiIn) :
    Follows due (y.decidedIf real i) := by
  by_cases hd : (y.core.idEx.valid && real) = true
  · rw [System.decidedIf, if_pos hd]
    obtain ⟨hv, hr⟩ := Bool.and_eq_true_iff.1 hd
    exact ⟨(hb.ex hv).2.1.trans (h.cur (by simp [hv]) hr), trivial⟩
  · rw [System.decidedIf, if_neg hd]
    trivial

end Ahead

theorem Behind.decided_eq {y : System} (h : Behind y) (i : AxiIn) :
    y.decided i = y.decidedIf (y.core.ifId.data.ins != 0#32) i := by
  unfold System.decided System.decidedIf
  cases hex : y.core.idEx.valid with
  | false => rfl
  | true => rw [(h.ex hex).1]

namespace Front

variable {y : System} {i : AxiIn} {due : Word}

theorem ahead (h : Front y due) : Ahead y (y.core.ifId.data.ins != 0#32) due where
  keep := h.keep
  zero hr := by simpa using hr
  cur hv hr := h.cur hv (by simpa using hr)
  seq := h.seq
  jump := h.jump
  delay := h.delay

theorem of_ahead (h : Ahead y (y.core.ifId.data.ins != 0#32) due) : Front y due where
  keep := h.keep
  cur hv hr := h.cur hv (by simpa using hr)
  seq := h.seq
  jump := h.jump
  delay := h.delay

/-- When no zero word is delivered, the words in IF/ID that are not zero are the instructions. -/
theorem step (h : Front y due) (hb : Behind y) (ho : Occ y) (hfl : y.core.flush i = false)
    (hw : y.delivers i = true → y.core.ifuIns i ≠ 0#32) :
    Front (y.step i) (goesOn due (y.decided i)) := by
  have hreal : (if y.core.ifReadyAxi i then !y.core.jumpNow else y.core.ifId.data.ins != 0#32) =
      ((y.step i).core.ifId.data.ins != 0#32) := by
    cases hf : y.core.ifReadyAxi i with
    | false =>
      rw [Occ.step_ifId_of_quiet hf hfl]
      rfl
    | true =>
      rw [ho.step_ifId_of_delivery hf hfl, ← h.ahead.delivers_eq hb hf]
      cases hd : y.delivers i with
      | true => simpa using hw hd
      | false => rfl
  have hstep := h.ahead.step hb ho hfl
  rw [hreal, ← hb.decided_eq i] at hstep
  exact of_ahead hstep

end Front

namespace Discards

variable {y : System} {i : AxiIn} {due : Word}

theorem jump (h : Discards y due) (hb : Behind y) (i : AxiIn) : y.core.jump i = false := by
  rw [hb.jump_eq i, Core.jumpNow_of_zero h.ins]

theorem pcWen (h : Discards y due) (i : AxiIn) : y.core.pcWen i = false := by
  simp [Core.pcWen, h.keep]

theorem step_quiet (h : Discards y due) (hf : y.core.ifReadyAxi i = false)
    (hfl : y.core.flush i = false) : Discards (y.step i) due := by
  refine ⟨?_, ?_, ?_⟩
  · rw [Occ.step_keep hfl, h.keep, hf]
    rfl
  · rw [Occ.step_bruPc hfl, h.pcWen i]
    exact h.bru
  · rw [Occ.step_ifId_of_quiet hf hfl]
    exact h.ins

/-- The word that was waited for is dropped, and `ifu` goes where `bru` points. -/
theorem step_fetch (h : Discards y due) (hb : Behind y) (ho : Occ y)
    (hf : y.core.ifReadyAxi i = true) (hfl : y.core.flush i = false) :
    Ahead (y.step i) false due := by
  have hj := h.jump hb i
  have hins : (y.step i).core.ifId.data.ins = 0#32 := by
    rw [ho.step_ifId_of_delivery hf hfl]
    simp [System.delivers, h.keep]
  have hseq : (y.step i).pcBehind false due = due := by simp [System.pcBehind]
  have hvid : (y.step i).core.ifId.valid = true := by rw [ho.step_id, hf]
  refine ⟨?_, fun _ => hins, fun _ hr => absurd hr (by simp), ?_, ?_, ?_⟩
  · rw [Occ.step_keep hfl, h.keep, hf]
    rfl
  · intro _
    rw [hseq, hvid, if_pos rfl, ho.step_ifuPc_of_fetch hf hfl, Occ.step_bruPc hfl, h.pcWen i]
    exact ⟨h.bru, h.bru⟩
  · intro hj'
    rw [Core.jumpNow_of_zero hins] at hj'
    exact absurd hj' Bool.false_ne_true
  · intro hd
    rw [Occ.step_delay, hj] at hd
    exact absurd hd Bool.false_ne_true

end Discards

namespace Waiting

variable {y : System} {i : AxiIn} {due : Word}

theorem discards (h : Waiting y due) : Discards y due := ⟨h.keep, h.bru, h.ins⟩

theorem step_quiet (h : Waiting y due) (hb : Behind y) (hf : y.core.ifReadyAxi i = false)
    (hfl : y.core.flush i = false) : Waiting (y.step i) due := by
  have hstep := h.discards.step_quiet hf hfl
  refine ⟨hstep.keep, hstep.bru, hstep.ins, ?_⟩
  rw [Occ.step_delay, h.discards.jump hb i]
  rfl

theorem step_fetch (h : Waiting y due) (hb : Behind y) (ho : Occ y)
    (hf : y.core.ifReadyAxi i = true) (hfl : y.core.flush i = false) : Front (y.step i) due := by
  have hstep := h.discards.step_fetch hb ho hf hfl
  have hreal : ((y.step i).core.ifId.data.ins != 0#32) = false := by
    rw [hstep.zero rfl]
    rfl
  exact Front.of_ahead (by rw [hreal]; exact hstep)

theorem decided_eq_nil (h : Waiting y due) (hb : Behind y) (i : AxiIn) : y.decided i = [] := by
  rw [hb.decided_eq i, h.ins]
  simp [System.decidedIf]

end Waiting

/-! ## Without `keep` after reset -/

/-- `keep` is low after reset and nothing has been fetched yet. -/
structure First (y : System) (m : Mem) (rf : Regs) : Prop where
  keep : y.core.csr.keep = false
  ifuPc : y.core.ifuPc = PC_START
  bru : y.core.bru.pc = PC_START
  ins : y.core.ifId.data.ins = 0#32
  delay : y.core.bru.delay = false
  id : y.core.ifId.valid = false
  ex : y.core.idEx.valid = false
  mem : y.core.exLs.valid = false
  wb : y.core.lsWb.valid = false
  rf : y.core.rf = rf
  ram : y.slave.mem = m
  wr : y.slave.wr = none
  wState : y.core.rw.wState = .idle
  word : y.core.rw.rwReady = true → y.core.rw.dataRead = m.content PC_START SIZE_W

namespace First

variable {y : System} {i : AxiIn} {m : Mem} {rf : Regs}

theorem decided_eq_nil (h : First y m rf) (i : AxiIn) : y.decided i = [] := by
  simp [System.decided, h.ex]

theorem step_rf (h : First y m rf) : (y.step i).core.rf = rf := by
  change y.core.rf.write (y.core.rfWen i) _ _ = _
  simp [Core.rfWen, Core.wbHs, h.wb, h.rf]

theorem step_quiet (h : First y m rf) (hr : Reads y) (hb : Behind y) (ho : Occ y) (hi : y.Ok i)
    (hf : y.core.ifReadyAxi i = false) (hfl : y.core.flush i = false) :
    First (y.step i) m rf := by
  have hm : y.core.axiSigMem = false := by simp [Core.axiSigMem, h.mem]
  have hw : y.core.axiSigWrite = false := by simp [Core.axiSigWrite, hm]
  have hj : y.core.jump i = false := by rw [hb.jump_eq i, Core.jumpNow_of_zero h.ins]
  have hwen : y.core.pcWen i = false := by simp [Core.pcWen, hj, Core.brHs, h.id, h.delay]
  have haw : y.core.out.awValid = false := by simp [Core.out, AxiRw.out, h.wState]
  have hifu := Occ.step_ifuPc_of_quiet hf hfl
  refine ⟨?_, hifu.trans h.ifuPc, ?_, ?_, ?_, ?_, ?_, ?_, ?_, h.step_rf, ?_, ?_, ?_, ?_⟩
  · rw [Occ.step_keep hfl, h.keep]
    rfl
  · rw [Occ.step_bruPc hfl, hwen]
    exact h.bru
  · rw [Occ.step_ifId_of_quiet hf hfl]
    exact h.ins
  · rw [Occ.step_delay, hj]
    rfl
  · rw [ho.step_id, hf]
  · rw [ho.step_ex, h.id]
  · rw [Occ.step_mem_of_not_ex h.ex]
    simp [Core.exReady, Stage.ready, h.mem]
  · exact Occ.step_wb_of_empty h.mem (.inl h.wb)
  · change (y.slave.step y.core.out i).mem = m
    simp [Slave.step, h.wr, h.ram]
  · change (y.slave.step y.core.out i).wr = none
    simp [Slave.step, h.wr, haw]
  · change y.core.rw.nextW y.core.req i = .idle
    have hv : y.core.req.wValid = false := (Core.req_wValid _).trans hw
    simp [AxiRw.nextW, hv, h.wState]
  · intro hready
    have hd : y.core.rw.rDone y.core.req i = true := (AxiRw.transDone_of_read hw).symm.trans hready
    have hk : (y.step i).core.csr.keep = false := by
      rw [Occ.step_keep hfl, h.keep]
      rfl
    rw [(hr.fetched_of_rDone ho hi hd hm hk).1, hifu, h.ifuPc, h.ram]

/-- The first word becomes an instruction, and `ifu` will fetch it again: all is well if it jumps. -/
theorem step_fetch (h : First y m rf) (hb : Behind y) (ho : Occ y)
    (hf : y.core.ifReadyAxi i = true) (hfl : y.core.flush i = false)
    (hjump : Axi.jump (m.code PC_START) (rf.read (oRs1id (m.code PC_START)))
      (rf.read (oRs2id (m.code PC_START))) = true) : Front (y.step i) PC_START := by
  obtain ⟨hm, hid, hready⟩ := Occ.ready_of_fetch hf
  have hj : y.core.jump i = false := by rw [hb.jump_eq i, Core.jumpNow_of_zero h.ins]
  have hword : y.core.ifuIns i = m.code PC_START := by
    rw [Core.ifuIns, h.keep, Core.ifDataRead, hm, hid, h.word hready]
    rfl
  have hdata : (y.step i).core.ifId.data = { ins := m.code PC_START, pc := PC_START } := by
    rw [ho.step_ifId_of_delivery hf hfl, System.delivers, hf, h.keep, hj, hword, h.ifuPc]
    rfl
  have hwb : (y.step i).core.lsWb.valid = false := Occ.step_wb_of_empty h.mem (.inl h.wb)
  have hold (a : RegId) : (y.step i).core.older a = rf.read a := by
    rw [Core.older, hwb, h.step_rf]
    rfl
  have hj' : (y.step i).core.jumpNow = true := by
    rw [Core.jumpNow, hdata, hold, hold]
    exact hjump
  have hvid : (y.step i).core.ifId.valid = true := by rw [ho.step_id, hf]
  refine ⟨by rw [Occ.step_keep hfl, h.keep]; rfl, fun _ _ => by rw [hdata], ?_, ?_, ?_⟩
  · intro hn
    rw [hj'] at hn
    exact absurd hn (by simp)
  · intro _ hv
    rw [hvid] at hv
    exact absurd hv (by simp)
  · intro hd
    rw [Occ.step_delay, hj] at hd
    exact absurd hd Bool.false_ne_true

end First

/-- `keep` is high after reset, or the first instruction jumps. -/
def System.StartsOnce (y : System) : Prop :=
  let ins := y.slave.mem.code PC_START
  y.core.csr.keep = true ∨
    Axi.jump ins (y.core.rf.read (oRs1id ins)) (y.core.rf.read (oRs2id ins)) = true

/-! ## The order of instructions -/

/-- What has been decided is what has retired and what is in flight, in program order, and the front
end goes on behind it. -/
structure InOrder (y₀ y : System) (decided : List (Word × Word)) (retired : List Word) : Prop where
  reads : Reads y
  noTrap : NoTrap y
  behind : Behind y
  list : decided.map Prod.fst = retired ++ y.inFlight
  follows : Follows PC_START decided
  front : Front y (goesOn PC_START decided) ∨ Waiting y (goesOn PC_START decided) ∨
    decided = [] ∧ y₀.core.csr.keep = false ∧ First y y₀.slave.mem y₀.core.rf

namespace InOrder

variable {y₀ y : System} {i : AxiIn} {D : List (Word × Word)} {R : List Word}

theorem step_follows (h : InOrder y₀ y D R) (i : AxiIn) :
    Follows PC_START (D ++ y.decided i) := by
  rw [follows_append]
  refine ⟨h.follows, ?_⟩
  rcases h.front with hf | hf | ⟨-, -, hf⟩
  · rw [h.behind.decided_eq i]
    exact hf.ahead.follows h.behind i
  · rw [hf.decided_eq_nil h.behind i]
    trivial
  · rw [hf.decided_eq_nil i]
    trivial

theorem step_front (h : InOrder y₀ y D R) (ho : Occ y) (hi : y.Ok i) (hstart : y₀.StartsOnce)
    (hplain : y.delivers i = true → PlainWord (y.core.ifuIns i)) :
    Front (y.step i) (goesOn PC_START (D ++ y.decided i)) ∨
      Waiting (y.step i) (goesOn PC_START (D ++ y.decided i)) ∨
        D ++ y.decided i = [] ∧ y₀.core.csr.keep = false ∧
          First (y.step i) y₀.slave.mem y₀.core.rf := by
  have hfl := h.noTrap.not_flush i
  rw [goesOn_append]
  rcases h.front with hf | hf | ⟨hD, hk, hf⟩
  · exact .inl (hf.step h.behind ho hfl fun hd => (hplain hd).1)
  · rw [hf.decided_eq_nil h.behind i]
    cases hfetch : y.core.ifReadyAxi i with
    | true => exact .inl (hf.step_fetch h.behind ho hfetch hfl)
    | false => exact .inr (.inl (hf.step_quiet h.behind hfetch hfl))
  · rw [hD, hf.decided_eq_nil i]
    cases hfetch : y.core.ifReadyAxi i with
    | true =>
      refine .inl (hf.step_fetch h.behind ho hfetch hfl ?_)
      rcases hstart with hkeep | hjump
      · rw [hk] at hkeep
        exact absurd hkeep Bool.false_ne_true
      · exact hjump
    | false => exact .inr (.inr ⟨rfl, hk, hf.step_quiet h.reads h.behind ho hi hfetch hfl⟩)

theorem step (h : InOrder y₀ y D R) (ho : Occ y) (hi : y.Ok i) (hs : y.splitRead i = false)
    (hstart : y₀.StartsOnce) (hplain : y.delivers i = true → PlainWord (y.core.ifuIns i)) :
    InOrder y₀ (y.step i) (D ++ y.decided i) (R ++ y.retired i) where
  reads := h.reads.step ho hi hs
  noTrap := h.noTrap.step ho hplain
  behind := h.behind.step ho (h.noTrap.not_flush i)
  list := by
    rw [List.map_append, h.list, List.append_assoc, List.append_assoc,
      ho.inFlight_step (h.noTrap.not_flush i)]
  follows := h.step_follows i
  front := h.step_front ho hi hstart hplain

theorem afterReset (h : y.AfterReset) : InOrder y y [] [] where
  reads := Reads.afterReset h
  noTrap := NoTrap.afterReset h
  behind := Behind.afterReset h
  list := by simp [System.inFlight, h.core.exLs, h.core.lsWb]
  follows := trivial
  front := by
    have hc := h.core
    have hins : y.core.ifId.data.ins = 0#32 := by rw [hc.ifId]; rfl
    cases hk : y.core.csr.keep with
    | true => exact .inr (.inl ⟨hk, hc.bruPc, hins, hc.delay⟩)
    | false =>
      refine .inr (.inr ⟨rfl, rfl, ?_⟩)
      exact
        { keep := hk
          ifuPc := hc.ifuPc
          bru := hc.bruPc
          ins := hins
          delay := hc.delay
          id := by rw [hc.ifId]
          ex := by rw [hc.idEx]
          mem := by rw [hc.exLs]
          wb := by rw [hc.lsWb]
          rf := rfl
          ram := rfl
          wr := h.wr
          wState := by rw [hc.rw]; rfl
          word := by simp [hc.rw, AxiRw.zero] }

end InOrder

/-- The word that a fetch delivers was in the memory at its pc. -/
theorem delivered_word {y : System} {is : Nat → AxiIn} {k : Nat} (h₀ : y.AfterReset)
    (hok : Admits System.step System.Ok y is (k + 1))
    (hsplit : Admits System.step (fun y i => y.splitRead i = false) y is k)
    (hd : (run System.step y is k).delivers (is k) = true) :
    ∃ j < k, (run System.step y is k).core.ifuIns (is k) =
      (run System.step y is j).slave.mem.code (run System.step y is k).core.ifuPc := by
  simp only [System.delivers, Bool.and_eq_true, Bool.not_eq_true'] at hd
  obtain ⟨⟨hf, hk⟩, -⟩ := hd
  cases k with
  | zero =>
    have hr := (Occ.ready_of_fetch hf).2.2
    rw [run_zero, h₀.core.rw] at hr
    exact absurd hr Bool.false_ne_true
  | succ j =>
    exact ⟨j, Nat.lt_succ_self j, (read_delivered h₀ hok (hsplit.mono (Nat.le_succ j))).2 hk hf⟩

/-- **Exactly once.** In every run from reset in which the pipeline starts once and no read of two
beats is disturbed, and whose executed code holds plain words: the instructions decided in EX are in
program order from `PC_START` on, and those that retire are a prefix of them. -/
theorem executed_once {y : System} {is : Nat → AxiIn} {n : Nat} (h₀ : y.AfterReset)
    (hok : Admits System.step System.Ok y is n) (hstart : y.StartsOnce)
    (hsplit : Admits System.step (fun y i => y.splitRead i = false) y is n)
    (hcode : ∀ k < n, (run System.step y is k).delivers (is k) = true →
      ∀ j < k, PlainWord ((run System.step y is j).slave.mem.code (run System.step y is k).core.ifuPc)) :
    Follows PC_START (trace System.step System.decided y is n) ∧
      trace System.step System.retired y is n <+:
        (trace System.step System.decided y is n).map Prod.fst := by
  have hinv (k : Nat) : k ≤ n → InOrder y (run System.step y is k)
      (trace System.step System.decided y is k) (trace System.step System.retired y is k) := by
    induction k with
    | zero => exact fun _ => InOrder.afterReset h₀
    | succ k ih =>
      intro hk
      have ho : Occ (run System.step y is k) :=
        System.Reachable.occ ⟨y, is, k, h₀, hok.mono (by omega), rfl⟩
      rw [run_succ, trace_succ, trace_succ]
      apply (ih (by omega)).step ho (hok k hk) (hsplit k hk) hstart
      intro hd
      obtain ⟨j, hj, hword⟩ := delivered_word h₀ (hok.mono hk) (hsplit.mono (by omega)) hd
      rw [hword]
      exact hcode k hk hd j hj
  have h := hinv n le_rfl
  exact ⟨h.follows, h.list ▸ List.prefix_append _ _⟩

/-- `addi x5, x5, 1`, `jal x0, 8` and more of `addi x0, x0, 0`. -/
def onceProgram (keep : Bool) : System :=
  System.boot keep (fun _ => 0#64) 0#4 0#4
    (Mem.image [0x80006f00128293#64, 0x1300000013#64, 0x1300000013#64])

theorem onceProgram_afterReset (keep : Bool) : (onceProgram keep).AfterReset :=
  System.afterReset_boot _ _ _ _ _

theorem executed_once_keep :
    let y := onceProgram true
    let is := System.inputs y slowReads
    trace System.step System.retired y is 50 = [0x80000000#64, 0x80000004#64, 0x8000000c#64] ∧
    Follows PC_START (trace System.step System.decided y is 50) ∧
      trace System.step System.retired y is 50 <+:
        (trace System.step System.decided y is 50).map Prod.fst :=
  ⟨by decide +kernel, executed_once (onceProgram_afterReset true) (System.admits_inputs _ _ _)
    (.inl rfl) (by unfold Admits; decide +kernel) (by decide +kernel)⟩

/-- When `keep` is low after reset, the first instruction retires twice. -/
theorem executed_once_fails :
    let y := onceProgram false
    let is := System.inputs y slowReads
    y.AfterReset ∧ Admits System.step System.Ok y is 32 ∧
      trace System.step System.retired y is 32 = [0x80000000#64, 0x80000000#64] ∧
      (run System.step y is 32).core.rf.read 5#5 = 2#64 :=
  ⟨onceProgram_afterReset false, System.admits_inputs _ _ _, by decide +kernel, by decide +kernel⟩

end Oscpu.Axi
