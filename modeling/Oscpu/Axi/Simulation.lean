import Oscpu.Axi.Course
import Oscpu.Axi.StorePath

/-!
# The pipeline of `cpu_axi_diff` follows the reference machine

`Tracks` puts the parts together. Each of its step lemmas is one way for the pipeline to move in a
cycle; the machine takes a step when an instruction leaves MEM, and stays where it is when a bubble
does.
-/

namespace Oscpu.Axi

open Oscpu.Rtl Oscpu.Lib

/-! ## Instructions and bubbles -/

/-- The instruction in ID, EX or MEM, or the bubble that is there in its place. -/
def Arch.cur (a : Arch) (real : Bool) (pc : Word) : Arch := if real then a else a.bubble pc

namespace Arch

variable {a : Arch} {real : Bool} {pc : Word}

theorem cur_same : (a.cur real pc).Same a := by
  cases real with
  | true => exact ⟨rfl, rfl, rfl, rfl⟩
  | false => exact ⟨rfl, rfl, rfl, rfl⟩

/-- A bubble changes nothing. -/
theorem cur_step_same (hk : a.csr.keep = false) (hc : real = false → a.csr.Cleared) :
    (a.cur real pc).step.Same (a.next real) := by
  cases real with
  | true => exact ⟨rfl, rfl, rfl, rfl⟩
  | false => exact ⟨bubble_rf, bubble_mem, bubble_csr hk (hc rfl), bubble_mtimecmp⟩

theorem lsWb_trap (a : Arch) : a.lsWb.trap = (isEcall a.ins || isMret a.ins) := rfl

theorem bubble_trap : (a.bubble pc).lsWb.trap = false := by
  rw [lsWb_trap, bubble_ins]
  decide

theorem step_pc_of_plain (h : a.lsWb.trap = false) : a.step.pc = a.target := by
  obtain ⟨he, hm⟩ := Bool.or_eq_false_iff.1 h
  have hecall : isEcall a.ins = false := he
  have hmret : isMret a.ins = false := hm
  change a.nextPc = _
  simp only [nextPc, hecall, hmret, Bool.false_eq_true, if_false]

theorem cur_trap (h : (a.cur real pc).lsWb.trap = true) : real = true := by
  cases real with
  | true => rfl
  | false => exact absurd (bubble_trap.symm.trans h) Bool.false_ne_true

end Arch

theorem Wired.cur {y : System} {a : Arch} (h : Wired y a) (real : Bool) (pc : Word) :
    Wired y (a.cur real pc) := by
  cases real with
  | true => exact h
  | false => exact ⟨h.tarI, h.csrrci⟩

theorem Back.keep {y : System} {a : Arch} {out : List (RegId × Word)} (h : Back y a out) :
    a.csr.keep = false := by
  cases h with
  | idle h => rw [← h.csr]; rfl
  | full h => rw [← h.csrNext]; rfl

namespace Young

variable {y : System} {i : AxiIn} {a b : Arch} {out : List (RegId × Word)}
  (h : Young y b) (hb : Back y a out) (hs : b.Same a)
include h hb hs

/-- `bru` finds the operands of the machine. -/
theorem jumpNow_eq (hv : (y.core.ifId.valid || y.core.idEx.valid) = true) :
    y.core.jumpNow = b.jump := by
  have hins : y.core.ifId.data.ins = b.ins :=
    congrArg IfId.ins (h.word (by rw [Core.busy, hv]; rfl))
  rw [Core.jumpNow, hins, Arch.jump]
  cases hc : isCsr b.ins with
  | true => rw [not_jump_of_isCsr hc, not_jump_of_isCsr hc]
  | false =>
    obtain ⟨h1, h2⟩ := h.operands hb hs hv hc
    rw [h1, h2]

theorem target_eq (hbh : Behind y) (hex : y.core.idEx.valid = true)
    (hag : b.again = false ∨ b.jump = true) : y.core.target i = b.target := by
  have hword : y.core.ifId.data = ⟨b.ins, b.pc⟩ := h.word (by simp [Core.busy, hex])
  have hpc : y.core.idEx.data.pc = b.pc := congrArg IdEx.pc (h.ex hex).1.eq
  have hv : (y.core.ifId.valid || y.core.idEx.valid) = true := by simp [hex]
  rw [Core.target, hbh.jump_eq i, h.jumpNow_eq hb hs hv, hbh.jumpPc_eq i, Arch.target]
  cases hj : b.jump with
  | false =>
    have hno : b.again = false := hag.resolve_right (by simp [hj])
    simp only [hno, hpc, Bool.false_eq_true, if_false]
  | true =>
    have hcsr : isCsr b.ins = false := by
      by_contra hc
      rw [Arch.jump, not_jump_of_isCsr (Bool.eq_true_of_not_eq_false hc)] at hj
      exact Bool.false_ne_true hj
    rw [if_pos rfl, if_pos rfl, Core.jumpTo, hword, (h.operands hb hs hv hcsr).1]
    cases hbp : jalrBp b.ins with
    | true => rw [(h.ex hex).2 hbp]
    | false =>
      simp only [jumpPc, hbp, Bool.false_eq_true, if_false]

end Young

theorem Occ.step_wb_of_leave {y : System} {i : AxiIn} (hl : y.core.leaves i = true) :
    (y.step i).core.lsWb.valid = true := by
  obtain ⟨hv, hr⟩ := Bool.and_eq_true_iff.1 hl
  change (y.core.step false i).lsWb.valid = true
  rw [Core.step_lsWb_valid, if_pos hr]
  exact hv

/-- A load that is answered gets what is in the memory. -/
def System.Loads (y : System) (i : AxiIn) : Prop :=
  y.core.axiSigWrite = false → y.core.memReadyAxi i = true → y.core.memDataRead i =
    y.slave.mem.content y.core.exLs.data.exres (memSize y.core.exLs.data.func3)

/-! ## The whole core -/

/-- The core between the edges: `a` is the state of the machine behind the instructions that have
left MEM, `out` what they still have to write, and the word in IF/ID is the next instruction if
`real` is true, or else a bubble. -/
structure Tracks (y : System) (a : Arch) (real : Bool) (out : List (RegId × Word)) : Prop where
  back : Back y a out
  young : Young y (a.cur real y.core.ifId.data.pc)
  ram : Ram y (a.cur real y.core.ifId.data.pc) a
  cmp : Cmp y (a.cur real y.core.ifId.data.pc) a
  course : Course y a real
  wired : Wired y a
  cleared : (y.core.busy && real) = false → isCsr y.core.ifId.data.ins = false → a.csr.Cleared

/-- What holds in every state of a run, when interrupts are disabled. -/
structure Sound (y : System) : Prop where
  occ : Occ y
  behind : Behind y
  masked : y.masked = true

namespace Tracks

variable {y : System} {i : AxiIn} {a : Arch} {real : Bool} {out : List (RegId × Word)}
  (h : Tracks y a real out) (hy : Sound y)
include h hy

theorem not_flush : y.core.flush i = false := h.back.not_flush hy.masked

theorem ifId_eq (hf : y.core.ifReadyAxi i = false) :
    (y.step i).core.ifId.data = y.core.ifId.data :=
  Occ.step_ifId_of_quiet hf (h.not_flush hy)

omit hy in
theorem step_wired : Wired (y.step i) a := ⟨h.wired.tarI, h.wired.csrrci⟩

/-- The same word is in IF/ID, and something is in the pipeline. -/
theorem step_cleared_of_busy (hf : y.core.ifReadyAxi i = false)
    (hbusy : (y.step i).core.busy = true) (hb : ((y.step i).core.busy && real) = false)
    (hins : isCsr (y.step i).core.ifId.data.ins = false) : a.csr.Cleared := by
  rw [h.ifId_eq hy hf] at hins
  have hreal : real = false := by simpa [hbusy] using hb
  exact h.cleared (by rw [hreal, Bool.and_false]) hins

/-- What write-back takes over. -/
theorem step_lsWb (hl : y.core.leaves i = true) (hload : y.Loads i)
    (hmtime : y.loadsMtime = false) :
    (y.step i).core.lsWb.data.Holds (a.cur real y.core.ifId.data.pc) := by
  have hm : y.core.exLs.valid = true := Occ.mem_of_leave hl
  have hold := (h.young.mem hm).1
  have hs : (a.cur real y.core.ifId.data.pc).Same a := Arch.cur_same
  rw [Occ.step_lsWb_of_leave hl]
  refine h.young.toLsWb_holds hm (h.not_flush hy) hmtime ?_ ?_
  · intro hlden
    have hno : oLsuSten (a.cur real y.core.ifId.data.pc).ins = false := not_sten_of_lden hlden
    rcases h.cmp.mem hm with hc | hc
    · exact hc.trans hs.mtimecmp.symm
    · rw [hc]
      simp only [Arch.step, hno, Bool.false_and, Bool.false_eq_true, if_false]
  · intro hlden
    have hlden' : y.core.exLs.data.lden = true := (congrArg ExLs.lden hold.eq).trans hlden
    have hsten : y.core.exLs.data.sten = false :=
      (congrArg ExLs.sten hold.eq).trans (not_sten_of_lden hlden)
    have hsig : y.core.axiSigMem = true := by simp [Core.axiSigMem, hm, hlden']
    have hw : y.core.axiSigWrite = false := by simp [Core.axiSigWrite, hsten]
    have hf3 : y.core.exLs.data.func3 = func3 (a.cur real y.core.ifId.data.pc).ins :=
      congrArg ExLs.func3 hold.eq
    have hready := Occ.ready_of_leave hsig ((Occ.exReady_of_mem hm).trans hl)
    rw [hload hw hready.1, (h.ram.still hw).mem, hs.mem, hf3,
      hold.exres (not_isCsr_of_lden hlden)]

omit hy in
/-- What is in MEM changes the state as the machine does. -/
theorem step_same (hm : y.core.exLs.valid = true) :
    (a.cur real y.core.ifId.data.pc).step.Same (a.next real) := by
  apply Arch.cur_step_same h.back.keep
  intro hreal
  apply h.cleared (by simp [hreal])
  rw [h.young.word (by simp [Core.busy, hm]), hreal]
  exact decode_zero.1

/-- The instruction in MEM, which is no trap, moves to write-back. -/
theorem step_back_of_leave (hl : y.core.leaves i = true) (hload : y.Loads i)
    (hmtime : y.loadsMtime = false)
    (htrap : (a.cur real y.core.ifId.data.pc).lsWb.trap = false) :
    out = y.regWrites i ∧ Back (y.step i) (a.next real)
      (a.cur real y.core.ifId.data.pc).lsWb.writes := by
  have hm : y.core.exLs.valid = true := Occ.mem_of_leave hl
  have hs : (a.cur real y.core.ifId.data.pc).Same a := Arch.cur_same
  have hnext := h.step_same hm
  obtain ⟨hout, hrf, hcsr⟩ := h.back.step_leave hy.masked hl
  refine ⟨hout, .full ⟨?_, h.step_lsWb hy hl hload hmtime, htrap, hrf.trans hs.rf.symm,
    .inr ⟨hcsr.trans hs.csr.symm, ?_⟩, hnext.rf, hnext.csr⟩⟩
  · exact Occ.step_wb_of_leave hl
  · rw [hy.occ.step_ex]
    exact hy.occ.not_id_of_mem hm

/-- MEM is empty behind the edge, and what was in it is no trap. -/
theorem step_back (hload : y.Loads i) (hmtime : y.loadsMtime = false)
    (htrap : y.core.leaves i = true → (a.cur real y.core.ifId.data.pc).lsWb.trap = false) :
    ∃ out', out ++ (if y.core.leaves i && real then a.lsWb.writes else []) =
        y.regWrites i ++ out' ∧
      Back (y.step i) (a.next (y.core.leaves i && real)) out' := by
  cases hl : y.core.leaves i with
  | false =>
    obtain ⟨out', hout, hback⟩ := h.back.step_stay (i := i) hy.masked hl
    exact ⟨out', by simpa using hout, hback⟩
  | true =>
    obtain ⟨hout, hback⟩ := h.step_back_of_leave hy hl hload hmtime (htrap hl)
    refine ⟨_, ?_, hback⟩
    rw [← hout]
    cases real with
    | true => rfl
    | false => rw [Arch.cur, if_neg Bool.false_ne_true, Arch.writes_bubble]; rfl

end Tracks

/-! ### What the edge leaves behind when MEM is empty after it -/

namespace Tracks

variable {y : System} {i : AxiIn} {a : Arch} {real : Bool} {out : List (RegId × Word)}

section

variable (h : Tracks y a real out) (hmem : y.core.exLs.valid = y.core.leaves i)
include h hmem

theorem step_still (hi : y.Ok i) : Still (y.step i) (a.next (y.core.leaves i && real)) := by
  cases hl : y.core.leaves i with
  | false =>
    rw [hl] at hmem
    have hw : y.core.axiSigWrite = false := by simp [Core.axiSigWrite, Core.axiSigMem, hmem]
    exact (h.ram.still hw).step hw
  | true =>
    have hm : y.core.exLs.valid = true := hmem.trans hl
    have hsten : y.core.exLs.data.sten = oLsuSten (a.cur real y.core.ifId.data.pc).ins :=
      congrArg ExLs.sten (h.young.mem hm).1.eq
    have hnext : (a.cur real y.core.ifId.data.pc).step.mem = (a.next real).mem :=
      (h.step_same hm).mem
    rw [Bool.true_and]
    cases hw : y.core.axiSigWrite with
    | true =>
      obtain ⟨hstate, hwr, hram⟩ := (h.ram.store hw).step_leave hi hw hl
      refine ⟨hstate, hwr, ?_⟩
      rw [hram, ← hnext, Arch.step, ← hsten, (Bool.and_eq_true_iff.1 hw).2]
      rfl
    | false =>
      have hstep := (h.ram.still hw).step (i := i) hw
      refine ⟨hstep.state, hstep.wr, ?_⟩
      have hno : y.core.exLs.data.sten = false := by
        by_contra hst
        simp [Core.axiSigWrite, Core.axiSigMem, hm, hst] at hw
      have hs : (a.cur real y.core.ifId.data.pc).Same a := Arch.cur_same
      rw [hstep.mem, ← hnext, Arch.step, ← hsten, hno, if_neg Bool.false_ne_true]
      exact hs.mem.symm

theorem step_cmp (hex : y.core.idEx.valid = false) (hfl : y.core.flush i = false) :
    (y.step i).core.clint.mtimecmp = (a.next (y.core.leaves i && real)).mtimecmp ∧
      ((y.step i).core.mtimecmpEn = true →
        (y.step i).core.exLs.data.rs2 = (a.next (y.core.leaves i && real)).mtimecmp) := by
  have hdata : (y.step i).core.exLs.data = y.core.exLs.data := by
    rw [Occ.step_exLs_of_stay hex, hfl]
    rfl
  have hen : (y.step i).core.mtimecmpEn = y.core.mtimecmpEn := by
    rw [Core.mtimecmpEn, hdata, Core.mtimecmpEn]
  rw [hdata, hen]
  cases hl : y.core.leaves i with
  | false =>
    rw [hl] at hmem
    exact ⟨h.cmp.step_of_free hmem, (h.cmp.free hmem).2⟩
  | true =>
    have hm : y.core.exLs.valid = true := hmem.trans hl
    have hold := (h.young.mem hm).1
    rw [Bool.true_and, ← (h.step_same hm).mtimecmp]
    exact ⟨h.cmp.step_of_mem hold Arch.cur_same hm, Cmp.rs2_of_en hold⟩

theorem step_cleared (hid : y.core.ifId.valid = false) (hex : y.core.idEx.valid = false)
    (hins : isCsr y.core.ifId.data.ins = false) :
    (a.next (y.core.leaves i && real)).csr.Cleared := by
  have hbusy : y.core.busy = y.core.leaves i := by simp [Core.busy, hid, hex, hmem]
  cases hl : (y.core.leaves i && real) with
  | false => exact h.cleared (by rw [hbusy, hl]) hins
  | true =>
    obtain ⟨hleave, hreal⟩ := Bool.and_eq_true_iff.1 hl
    rw [h.young.word (hbusy.trans hleave), hreal] at hins
    exact Arch.cleared_step hins

omit h in
theorem step_mem_valid (hex : y.core.idEx.valid = false) : (y.step i).core.exLs.valid = false := by
  rw [Occ.step_mem_of_not_ex hex]
  cases hl : y.core.leaves i with
  | false =>
    rw [hl] at hmem
    simp [Core.exReady, Stage.ready, hmem]
  | true =>
    rw [Occ.exReady_of_mem (hmem.trans hl), hl]
    rfl

/-- What holds with MEM empty, whatever has been fetched. -/
theorem step_rest (hy : Sound y) (hi : y.Ok i)
    (hex : y.core.idEx.valid = false) (b : Arch) :
    Ram (y.step i) b (a.next (y.core.leaves i && real)) ∧
      Cmp (y.step i) b (a.next (y.core.leaves i && real)) ∧
        Wired (y.step i) (a.next (y.core.leaves i && real)) := by
  have hvmem := step_mem_valid hmem hex
  have hw : (y.step i).core.axiSigWrite = false := by
    simp [Core.axiSigWrite, Core.axiSigMem, hvmem]
  refine ⟨⟨fun _ => h.step_still hmem hi, ?_⟩,
    ⟨fun _ => h.step_cmp hmem hex (h.not_flush hy), ?_⟩, ?_⟩
  · intro hw'
    rw [hw] at hw'
    exact absurd hw' Bool.false_ne_true
  · intro hm
    rw [hvmem] at hm
    exact absurd hm Bool.false_ne_true
  · cases (y.core.leaves i && real) with
    | false => exact ⟨h.wired.tarI, h.wired.csrrci⟩
    | true => exact ⟨h.wired.tarI, h.wired.csrrci⟩

end

/-! ### Stage by stage -/

section

variable (h : Tracks y a real out) (hy : Sound y)
include h hy

/-- The instruction goes from ID to EX. -/
theorem step_id (hi : y.Ok i) (hid : y.core.ifId.valid = true) :
    ∃ out', out = y.regWrites i ++ out' ∧ Tracks (y.step i) a real out' := by
  have hfl := h.not_flush (i := i) hy
  obtain ⟨hex, hmem, hr, -⟩ := hy.occ.id hid
  have hf : y.core.ifReadyAxi i = false := by simp [Core.ifReadyAxi, hr]
  have hl : y.core.leaves i = false := by simp [Core.leaves, Occ.memValid_of_empty hmem]
  have hvex : (y.step i).core.idEx.valid = true := by rw [hy.occ.step_ex, hid]
  obtain ⟨out', hout, hback⟩ := h.back.step_stay (i := i) hy.masked hl
  obtain ⟨hram, hcmp, hwired⟩ := h.step_rest (hmem.trans hl.symm) hy hi hex
    (a.cur real (y.step i).core.ifId.data.pc)
  rw [hl, Bool.false_and] at hram hcmp hwired
  refine ⟨out', hout, hback, ?_, hram, hcmp, h.course.step_id hy.occ hy.behind hfl hid, hwired,
    h.step_cleared_of_busy hy hf (by simp [Core.busy, hvex])⟩
  rw [h.ifId_eq hy hf]
  exact h.young.step_id h.back Arch.cur_same hy.occ (h.wired.cur _ _) hfl hid

/-- From EX to MEM. -/
theorem step_ex (hex : y.core.idEx.valid = true) (hans : y.storeAnswered i = false) :
    ∃ out', out = y.regWrites i ++ out' ∧ Tracks (y.step i) a real out' := by
  have hfl := h.not_flush (i := i) hy
  obtain ⟨hmem, hr⟩ := hy.occ.ex hex
  have hf : y.core.ifReadyAxi i = false := by simp [Core.ifReadyAxi, hr]
  have hl : y.core.leaves i = false := by simp [Core.leaves, Occ.memValid_of_empty hmem]
  have hvmem : (y.step i).core.exLs.valid = true := hy.occ.step_mem_of_ex hex
  have hw : y.core.axiSigWrite = false := by simp [Core.axiSigWrite, Core.axiSigMem, hmem]
  have hv : (y.core.ifId.valid || y.core.idEx.valid) = true := by simp [hex]
  obtain ⟨out', hout, hback⟩ := h.back.step_stay (i := i) hy.masked hl
  refine ⟨out', hout, ⟨hback, ?_, ?_, ?_,
    h.course.step_ex hy.occ hy.behind hfl hex ?_, h.step_wired,
    h.step_cleared_of_busy hy hf (by simp [Core.busy, hvmem])⟩⟩
  · rw [h.ifId_eq hy hf]
    exact h.young.step_ex h.back Arch.cur_same hy.occ hy.behind (h.wired.cur _ _) hfl hex
  · rw [h.ifId_eq hy hf]
    exact ⟨fun _ => (h.ram.still hw).step hw, fun hw' =>
      (h.ram.still hw).step_enter Arch.cur_same hy.occ hw hw' hfl hans⟩
  · refine ⟨?_, fun _ => .inl (h.cmp.step_of_free hmem)⟩
    intro hm
    rw [hvmem] at hm
    exact absurd hm (by simp)
  · intro hreal
    have hyoung := h.young
    rw [hreal] at hyoung
    exact ⟨hyoung.jumpNow_eq h.back Arch.cur_same hv,
      hyoung.target_eq h.back Arch.cur_same hy.behind hex⟩

/-- It waits in MEM. -/
theorem step_mem (hm : y.core.exLs.valid = true) (hl : y.core.leaves i = false) :
    ∃ out', out = y.regWrites i ++ out' ∧ Tracks (y.step i) a real out' := by
  have hfl := h.not_flush (i := i) hy
  have hr : y.core.exReady i = false := (Occ.exReady_of_mem hm).trans hl
  have hf : y.core.ifReadyAxi i = false := by
    by_contra hf
    rw [Occ.exReady_of_fetch (Bool.eq_true_of_not_eq_false hf)] at hr
    exact Bool.false_ne_true hr.symm
  have hid := hy.occ.not_id_of_mem hm
  have hex := hy.occ.not_ex_of_mem hm
  have hsame := hy.occ.step_exLs_of_hold hm hr hfl
  have hw : (y.step i).core.axiSigWrite = y.core.axiSigWrite := by
    simp only [Core.axiSigWrite, Core.axiSigMem, hsame]
  have hold := (h.young.mem hm).1
  obtain ⟨out', hout, hback⟩ := h.back.step_stay (i := i) hy.masked hl
  have hcourse := h.course.step_wait hy.occ hy.behind hfl (by simp [hid, hex]) hf fun hl' => by
    rw [hl] at hl'
    exact absurd hl' Bool.false_ne_true
  rw [hl, Bool.false_and] at hcourse
  refine ⟨out', hout, ⟨hback, ?_, ?_, ?_, hcourse, h.step_wired,
    h.step_cleared_of_busy hy hf (by simp [Core.busy, hsame, hm])⟩⟩
  · rw [h.ifId_eq hy hf]
    exact h.young.step_mem hy.occ hfl hm hl
  · rw [h.ifId_eq hy hf]
    refine ⟨fun hw' => (h.ram.still (hw ▸ hw')).step (hw ▸ hw'), ?_⟩
    intro hw'
    exact (h.ram.store (hw ▸ hw')).step_wait (hw ▸ hw') hold
  · rw [h.ifId_eq hy hf]
    refine ⟨?_, fun _ => .inr (h.cmp.step_of_mem hold Arch.cur_same hm)⟩
    intro hm'
    rw [hsame, hm] at hm'
    exact absurd hm' (by simp)

variable (hmem : y.core.exLs.valid = y.core.leaves i)
include hmem

/-- The word that is fetched. -/
theorem step_young (hid : y.core.ifId.valid = false) (hex : y.core.idEx.valid = false)
    (hf : y.core.ifReadyAxi i = true)
    (hpc : y.core.leaves i = true → real = true → a.step.pc = a.target)
    (hword : y.delivers i = true → y.core.ifuIns i = a.code y.core.ifuPc)
    (hhaz : y.sysHazard i = false) :
    Young (y.step i) ((a.next (y.core.leaves i && real)).cur (y.delivers i)
      (y.step i).core.ifId.data.pc) := by
  have hvmem := step_mem_valid hmem hex
  have hvex : (y.step i).core.idEx.valid = false := by rw [hy.occ.step_ex, hid]
  have hdata := hy.occ.step_ifId_of_delivery hf (h.not_flush hy)
  have hins : (y.step i).core.ifId.data.ins = ((a.next (y.core.leaves i && real)).cur
      (y.delivers i) (y.step i).core.ifId.data.pc).ins ∧ (y.step i).core.ifId.data.pc =
        ((a.next (y.core.leaves i && real)).cur (y.delivers i) (y.step i).core.ifId.data.pc).pc := by
    cases hd : y.delivers i with
    | false =>
      refine ⟨?_, rfl⟩
      rw [hdata, hd]
      rfl
    | true =>
      have hifu := h.course.ifuPc_eq hy.occ hy.behind hd hpc
      rw [hdata, hd, if_pos rfl, hword hd, hifu]
      refine ⟨?_, rfl⟩
      cases (y.core.leaves i && real) <;> rfl
  refine ⟨?_, ?_, ?_, ?_⟩
  · intro _
    rw [← hins.1, ← hins.2]
  · intro _ hv
    -- write-back holds what has just left MEM, and withholds nothing from this word
    have hl : y.core.leaves i = true := by
      by_contra hl
      rw [Occ.step_wb_of_stay (Bool.eq_false_iff.2 hl) (.inr hf)] at hv
      exact Bool.false_ne_true hv
    rw [Occ.step_lsWb_of_leave hl, ← hins.1, hy.occ.step_ifId_of_fetch hf]
    simp only [System.sysHazard, hf, hmem.trans hl, Bool.true_and, Bool.or_eq_false_iff] at hhaz
    exact hhaz.2
  · intro hv
    rw [hvex] at hv
    exact absurd hv Bool.false_ne_true
  · intro hm
    rw [hvmem] at hm
    exact absurd hm Bool.false_ne_true

variable (hload : y.Loads i) (hmtime : y.loadsMtime = false)
include hload hmtime

/-- Nothing is fetched. -/
theorem step_quiet (hi : y.Ok i) (hid : y.core.ifId.valid = false)
    (hex : y.core.idEx.valid = false) (hf : y.core.ifReadyAxi i = false)
    (htrap : y.core.leaves i = true → (a.cur real y.core.ifId.data.pc).lsWb.trap = false) :
    ∃ out', out ++ (if y.core.leaves i && real then a.lsWb.writes else []) =
        y.regWrites i ++ out' ∧
      Tracks (y.step i) (a.next (y.core.leaves i && real)) real out' := by
  have hfree : (y.step i).core.busy = false := by
    simp [Core.busy, hy.occ.step_id, hf, hy.occ.step_ex, hid, step_mem_valid hmem hex]
  obtain ⟨out', hout, hback⟩ := h.step_back hy hload hmtime htrap
  obtain ⟨hram, hcmp, hwired⟩ := h.step_rest hmem hy hi hex
    ((a.next (y.core.leaves i && real)).cur real (y.step i).core.ifId.data.pc)
  refine ⟨out', hout, hback, .of_free hfree, hram, hcmp, ?_, hwired, ?_⟩
  · refine h.course.step_wait hy.occ hy.behind (h.not_flush hy) (by simp [hid, hex]) hf ?_
    intro hl hreal
    have hno := htrap hl
    rw [hreal] at hno
    exact Arch.step_pc_of_plain hno
  · intro _ hins
    rw [h.ifId_eq hy hf] at hins
    exact h.step_cleared hmem hid hex hins

/-- The next word is fetched. -/
theorem step_fetch (hi : y.Ok i) (hid : y.core.ifId.valid = false)
    (hex : y.core.idEx.valid = false) (hf : y.core.ifReadyAxi i = true)
    (htrap : y.core.leaves i = true → (a.cur real y.core.ifId.data.pc).lsWb.trap = false)
    (hword : y.delivers i = true → y.core.ifuIns i = a.code y.core.ifuPc)
    (hhaz : y.sysHazard i = false) :
    ∃ out', out ++ (if y.core.leaves i && real then a.lsWb.writes else []) =
        y.regWrites i ++ out' ∧
      Tracks (y.step i) (a.next (y.core.leaves i && real)) (y.delivers i) out' := by
  have hfl := h.not_flush (i := i) hy
  have hvid : (y.step i).core.ifId.valid = true := by rw [hy.occ.step_id, hf]
  have hpc (hl : y.core.leaves i = true) (hreal : real = true) : a.step.pc = a.target := by
    have hno := htrap hl
    rw [hreal] at hno
    exact Arch.step_pc_of_plain hno
  obtain ⟨out', hout, hback⟩ := h.step_back hy hload hmtime htrap
  obtain ⟨hram, hcmp, hwired⟩ := h.step_rest hmem hy hi hex
    ((a.next (y.core.leaves i && real)).cur (y.delivers i) (y.step i).core.ifId.data.pc)
  have hyoung := h.step_young hy hmem hid hex hf hpc hword hhaz
  refine ⟨out', hout, hback, hyoung, hram, hcmp, ?_, hwired, ?_⟩
  · apply h.course.step_fetch hy.occ hy.behind hfl hf hpc
    intro hd
    rw [hd] at hyoung
    exact hyoung.jumpNow_eq hback Arch.cur_same (by simp [hvid])
  · intro hb hins
    have hd : y.delivers i = false := by simpa [Core.busy, hvid] using hb
    exact h.step_cleared hmem hid hex (h.course.not_isCsr_of_drop hy.occ hy.behind hf hd)

end

end Tracks

end Oscpu.Axi
