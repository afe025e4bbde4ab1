import Oscpu.Axi.Simulation

/-!
# Traps and the reference machine

An `ecall` or `mret` waits alone in write-back, which `Trapping` describes, until it flushes. What is
left then is a bubble in ID or write-back and a fetch that will be discarded, and the machine is
behind the trap. `Tracks.step` is every edge of the core but these.
-/

namespace Oscpu.Axi

open Oscpu.Rtl Oscpu.Lib

/-! ## What a trap does to the state -/

/-- `mcause` only matters with a vector table. -/
theorem Csr.mtvecPc_congr {c c' : Csr} (ht : c.mtvec = c'.mtvec)
    (hm : c.mtvec.extractLsb' 0 2 = 0#2 ∨ c.mcause = c'.mcause) : c.mtvecPc = c'.mtvecPc := by
  unfold Csr.mtvecPc
  rcases hm with h0 | hm
  · rw [← ht, if_pos h0, if_pos h0]
  · rw [ht, hm]

namespace Arch

variable {a : Arch} (h : a.lsWb.trap = true)
include h

theorem settle_of_trap (c : Csr) (r : Bool) : c.settle a.lsWb r =
    { c.bare with
      mstatus :=
        if c.mstatus.getLsbD 3 && isEcall a.ins then Csr.mstatusTrap c.mstatus
        else if isMret a.ins then Csr.mstatusMret c.mstatus
        else c.mstatus
      mepc := if isEcall a.ins then Csr.alignPc a.pc else c.mepc
      mcause := if isEcall a.ins then exceptCode a.ins else c.mcause
      mip := c.mip &&& ~~~(1#64 <<< 11) } := by
  have hno {n : BitVec 12} (hn : n ≠ 0b000000000000#12 ∧ n ≠ 0b001100000010#12) :
      (a.lsWb.csrWen && a.lsWb.csr == n) = false := by
    have hne : (a.lsWb.csr == n) = false := csrId_of_trap h hn
    rw [hne, Bool.and_false]
  have hec : a.lsWb.exceptEn = isEcall a.ins := rfl
  have hmr : a.lsWb.mret = isMret a.ins := rfl
  simp only [Csr.settle_eq, hno (n := CSR_MSTATUS) (by decide), hno (n := CSR_MIE) (by decide),
    hno (n := CSR_MTVEC) (by decide), hno (n := CSR_MEPC) (by decide),
    hno (n := CSR_MCAUSE) (by decide), hno (n := CSR_MIP) (by decide),
    hno (n := CSR_MSCRATCH) (by decide), hec, hmr, Bool.false_and, Bool.false_eq_true, if_false]
  rfl

theorem step_same_of_trap : a.step.rf = a.rf ∧ a.step.mem = a.mem ∧ a.step.mtimecmp = a.mtimecmp := by
  have hno : oLsuSten a.ins = false := (not_access_of_isCsr (isCsr_of_trap h)).2.2
  refine ⟨?_, ?_, ?_⟩
  · have hw : a.lsWb.wen = false := by rw [LsWb.wen, h, Bool.not_true, Bool.and_false]
    change a.rf.write a.lsWb.wen _ _ = _
    rw [hw, Regs.write_false]
  · simp only [step, hno, Bool.false_eq_true, if_false]
  · simp only [step, hno, Bool.false_and, Bool.false_eq_true, if_false]

theorem cleared_of_trap : a.step.csr.Cleared := by
  change (a.csr.settle a.lsWb true).Cleared
  rw [settle_of_trap h, Csr.Cleared]
  change a.csr.mip &&& _ &&& _ = _
  rw [BitVec.and_assoc, BitVec.and_self]

end Arch

/-- What a flush leaves in write-back is a bubble. -/
theorem LsWb.zero_holds (a : Arch) : LsWb.zero.Holds (a.bubble 0#64) := by
  have hzero : LsWb.zero = .of 0#32 0#64 0#64 0#64 0#64 0#64 false := by
    simp only [LsWb.zero, LsWb.of, LsWb.mk.injEq]
    decide
  rw [hzero]
  refine LsWb.holds_of (b := a.bubble 0#64) ?_ ?_ ?_ ?_
  · intro hrd
    exact absurd (decode_zero.2.1.symm.trans hrd) Bool.false_ne_true
  · intro hrd
    exact absurd (decode_zero.2.1.symm.trans hrd) Bool.false_ne_true
  · intro hw
    rw [Arch.bubble_ins, decode_zero.2.2.2.2.1] at hw
    exact absurd hw (by decide)
  · intro hr
    rw [Arch.bubble_ins, decode_zero.2.2.2.2.1] at hr
    exact absurd hr (by decide)

/-! ## A trap in write-back -/

/-- Write-back holds the `ecall` or `mret` that the machine executes from `p`, and nothing is behind
it. -/
structure Trapping (y : System) (p : Arch) : Prop where
  valid : y.core.lsWb.valid = true
  data : y.core.lsWb.data.Holds p
  trap : p.lsWb.trap = true
  free : y.core.busy = false
  word : y.core.ifId.data = ⟨p.ins, p.pc⟩
  pc : y.core.idEx.data.pc = p.pc
  rf : y.core.rf = p.step.rf
  /-- Its cause and pc are recorded in its first cycle. -/
  csr : y.core.csr.bare = p.csr ∨ isEcall p.ins = true ∧ y.core.csr.bare = p.step.csr
  still : Still y p.step
  mtimecmp : y.core.clint.mtimecmp = p.step.mtimecmp
  noStore : y.core.exLs.data.sten = false
  wired : Wired y p.step

namespace Trapping

variable {y : System} {i : AxiIn} {p : Arch} (h : Trapping y p) (hq : y.masked = true)
include h

theorem empty : y.core.ifId.valid = false ∧ y.core.idEx.valid = false ∧
    y.core.exLs.valid = false := by
  have hfree := h.free
  simp only [Core.busy, Bool.or_eq_false_iff] at hfree
  exact ⟨hfree.1.1, hfree.1.2, hfree.2⟩

theorem not_write : y.core.axiSigWrite = false := by
  simp [Core.axiSigWrite, Core.axiSigMem, h.empty.2.2]

theorem leaves_eq (i : AxiIn) : y.core.leaves i = false := by
  simp [Core.leaves, Occ.memValid_of_empty h.empty.2.2]

theorem step_exLs_valid : (y.step i).core.exLs.valid = false := by
  rw [Occ.step_mem_of_not_ex h.empty.2.1]
  simp [Core.exReady, Stage.ready, h.empty.2.2]

include hq

theorem flush_eq (i : AxiIn) :
    y.core.flush i = (y.core.ifReadyAxi i && isEcall p.ins || isMret p.ins) := by
  have hex : (y.core.csrIn i).exceptEn = isEcall p.ins := h.data.exceptEn
  have hmr : (y.core.csrIn i).mret = isMret p.ins := h.data.mret
  have hr : (y.core.csrIn i).wbReady = y.core.ifReadyAxi i := rfl
  rw [Core.flush, Csr.flush, Csr.ecall, Csr.not_timeInt (Occ.bits_of_masked hq), hex, hmr, hr,
    Bool.and_false, Bool.or_false]

/-- It does not write a register. -/
theorem rfWen_eq (i : AxiIn) : y.core.rfWen i = false := by
  have htrap := h.trap
  rw [Arch.lsWb_trap] at htrap
  rw [Core.rfWen, Core.wbHs, h.flush_eq hq i]
  revert htrap
  cases y.core.ifReadyAxi i <;> cases isEcall p.ins <;> cases isMret p.ins <;> simp

theorem regWrites_eq (i : AxiIn) : y.regWrites i = [] := by
  rw [System.regWrites, h.rfWen_eq hq i]
  rfl

theorem step_rf : (y.step i).core.rf = p.step.rf := by
  rw [Occ.step_rf, h.rfWen_eq hq i, Regs.write_false, h.rf]

theorem step_csr : (y.step i).core.csr.bare = p.step.csr := by
  have hstep : p.step.csr = p.csr.settle p.lsWb true := rfl
  rw [Occ.step_csr hq fun _ => h.pc.trans h.data.pc.symm, h.data.settle, hstep]
  rcases h.csr with hc | ⟨hecall, hc⟩
  · rw [hc, Arch.settle_of_trap h.trap, Arch.settle_of_trap h.trap]
  · have hmret : p.lsWb.mret = false := not_isMret_of_isEcall hecall
    have hne : p.lsWb.csr ≠ CSR_MSTATUS :=
      beq_eq_false_iff_ne.1 (csrId_of_trap h.trap (by decide))
    rw [hc, hstep, Csr.settle_settle (fun _ => hne) hmret]
    rfl

/-- An `ecall` waits for a fetch to complete. -/
theorem step_wait (hy : Occ y) (hfl : y.core.flush i = false) : Trapping (y.step i) p := by
  obtain ⟨hid, hex, hmem⟩ := h.empty
  have htrap := h.trap
  rw [Arch.lsWb_trap] at htrap
  rw [h.flush_eq hq i, Bool.or_eq_false_iff] at hfl
  have hecall : isEcall p.ins = true := by simpa [hfl.2] using htrap
  have hf : y.core.ifReadyAxi i = false := by simpa [hecall] using hfl.1
  have hfl' : y.core.flush i = false := by rw [h.flush_eq hq i, hf, hfl.2]; rfl
  have hwb := Occ.step_lsWb_of_wait h.valid hf hfl'
  have hstill := h.still.step (i := i) h.not_write
  have hen : y.core.mtimecmpEn = false := by simp [Core.mtimecmpEn, h.noStore]
  refine ⟨?_, ?_, h.trap, ?_, ?_, ?_, h.step_rf hq, .inr ⟨hecall, h.step_csr hq⟩, hstill, ?_, ?_,
    ⟨h.wired.tarI, h.wired.csrrci⟩⟩
  · rw [hwb]
    exact h.valid
  · rw [hwb]
    exact h.data
  · simp [Core.busy, hy.step_id, hf, hy.step_ex, hid, h.step_exLs_valid]
  · rw [Occ.step_ifId_of_quiet hf hfl']
    exact h.word
  · rw [Occ.step_idEx_of_quiet hid hfl']
    exact h.pc
  · rw [Cmp.step_clint, hen, if_neg Bool.false_ne_true]
    exact h.mtimecmp
  · rw [Occ.step_exLs_of_stay hex, hfl']
    exact h.noStore

/-- Where it goes on. -/
theorem step_bruPc (hstale : y.staleCause i = false) (hfl : y.core.flush i = true) :
    (y.step i).core.bru.pc = p.step.pc := by
  have hnotime := Csr.not_timeInt (j := y.core.csrIn i) (Occ.bits_of_masked hq)
  have hecall : Csr.ecall (y.core.csrIn i) = (y.core.ifReadyAxi i && isEcall p.ins) :=
    congrArg (y.core.ifReadyAxi i && ·) h.data.exceptEn
  have hins : isMret y.core.ifId.data.ins = isMret p.ins := by rw [h.word]
  have hnext : p.step.pc = p.nextPc := rfl
  change (y.core.bruStep i false).pc = _
  simp only [Core.bruStep, Bool.false_eq_true, if_false, hfl, hnotime, hecall, hins, Bool.or_false,
    Bool.true_and]
  rw [h.flush_eq hq i] at hfl
  rw [hnext, Arch.nextPc]
  cases he : isEcall p.ins with
  | true =>
    have hmret := not_isMret_of_isEcall he
    have hf : y.core.ifReadyAxi i = true := by simpa [hmret, he] using hfl
    have hcode : y.core.lsWb.data.exceptCode = exceptCode p.ins :=
      congrArg LsWb.exceptCode h.data.eq
    have hcsr : p.nextCsr = p.csr.settle p.lsWb true := rfl
    simp only [hf, Bool.and_true, if_true]
    refine Csr.mtvecPc_congr ?_ ?_
    · change y.core.csr.bare.mtvec = _
      rcases h.csr with hc | ⟨-, hc⟩
      · rw [hc, hcsr, Arch.settle_of_trap h.trap]
        rfl
      · rw [hc]
        rfl
    · have hcause : p.nextCsr.mcause = exceptCode p.ins := by
        rw [hcsr, Arch.settle_of_trap h.trap, he]
        rfl
      have hexc : y.core.lsWb.data.exceptEn = true := h.data.exceptEn.trans he
      rw [hcause, ← hcode]
      simpa [System.staleCause, hf, hexc, or_iff_not_imp_left] using hstale
  | false =>
    have hmret : isMret p.ins = true := by simpa [he] using hfl
    have hcsr : y.core.csr.bare = p.csr := by
      apply h.csr.resolve_right
      intro hc
      rw [he] at hc
      exact Bool.false_ne_true hc.1
    simp only [hmret, Bool.and_false, Bool.false_eq_true, if_false, if_true]
    rw [← hcsr]
    rfl

/-- And then it flushes. -/
theorem step_flush (hy : Occ y) (hstale : y.staleCause i = false) (hfl : y.core.flush i = true) :
    Tracks (y.step i) p.step false [] := by
  obtain ⟨hid, hex, hmem⟩ := h.empty
  have hcleared := Arch.cleared_of_trap h.trap
  have hcsr := h.step_csr (i := i) hq
  have hkeep : p.step.csr.keep = false := by rw [← hcsr]; rfl
  have hwb := Occ.step_lsWb_of_flush hfl
  have hifId := Occ.step_ifId_of_flush hfl
  have hvmem := h.step_exLs_valid (i := i)
  have hvex : (y.step i).core.idEx.valid = false := by rw [hy.step_ex, hid]
  have hen : (y.step i).core.mtimecmpEn = false := by
    rw [Core.mtimecmpEn, Occ.step_exLs_of_flush hfl]
    rfl
  have hw : (y.step i).core.axiSigWrite = false := by
    simp [Core.axiSigWrite, Core.axiSigMem, hvmem]
  refine ⟨?_, ⟨?_, ?_, ?_, ?_⟩,
    ⟨fun _ => h.still.step h.not_write, ?_⟩, ⟨fun _ => ⟨?_, ?_⟩, ?_⟩,
    .discards ⟨Occ.step_keep_of_flush hfl, h.step_bruPc hq hstale hfl, ?_⟩ rfl,
    ⟨h.wired.tarI, h.wired.csrrci⟩, fun _ _ => hcleared⟩
  · cases hf : y.core.ifReadyAxi i with
    | true =>
      refine .idle ⟨Occ.step_wb_of_stay (h.leaves_eq i) (.inr hf), ?_, h.step_rf hq, hcsr, ?_⟩
      · rw [hwb]
        rfl
      · intro r
        rw [hwb, (LsWb.zero_holds p.step).settle]
        exact Arch.bubble_settle hkeep hcleared r
    | false =>
      have hback : Full (y.step i) (p.step.bubble 0#64) p.step := by
        refine ⟨?_, ?_, Arch.bubble_trap, h.step_rf hq, .inr ⟨hcsr, hvex⟩, Arch.bubble_rf,
          Arch.bubble_csr hkeep hcleared⟩
        · change (y.core.step false i).lsWb.valid = true
          rw [Core.step_lsWb_valid]
          simp [Core.memReady, Stage.ready, h.valid, hf]
        · rw [hwb]
          exact LsWb.zero_holds p.step
      have hout := Back.full hback
      rwa [Arch.writes_bubble] at hout
  · intro _
    rw [hifId]
    rfl
  · intro _ _
    have hins : (p.step.cur false (y.step i).core.ifId.data.pc).ins = 0#32 := rfl
    rw [hwb, hins]
    decide
  · intro hv
    rw [hvex] at hv
    exact absurd hv Bool.false_ne_true
  · intro hm
    rw [hvmem] at hm
    exact absurd hm Bool.false_ne_true
  · intro hw'
    rw [hw] at hw'
    exact absurd hw' Bool.false_ne_true
  · have hen0 : y.core.mtimecmpEn = false := by simp [Core.mtimecmpEn, h.noStore]
    rw [Cmp.step_clint, hen0, if_neg Bool.false_ne_true]
    exact h.mtimecmp
  · intro hen'
    rw [hen] at hen'
    exact absurd hen' Bool.false_ne_true
  · intro hm
    rw [hvmem] at hm
    exact absurd hm Bool.false_ne_true
  · rw [hifId]
    rfl

end Trapping

/-! ## Every edge -/

namespace Tracks

variable {y : System} {i : AxiIn} {a : Arch} {real : Bool} {out : List (RegId × Word)}
  (h : Tracks y a real out) (hy : Sound y) (hload : y.Loads i) (hmtime : y.loadsMtime = false)
include h hy hload hmtime

/-- A trap moves to write-back, with nothing behind it. -/
theorem step_trap (hi : y.Ok i) (hl : y.core.leaves i = true) (hf : y.core.ifReadyAxi i = false)
    (htrap : (a.cur real y.core.ifId.data.pc).lsWb.trap = true) :
    out = y.regWrites i ∧ Trapping (y.step i) a := by
  have hfl := h.not_flush (i := i) hy
  have hm : y.core.exLs.valid = true := Occ.mem_of_leave hl
  have hid := hy.occ.not_id_of_mem hm
  have hex := hy.occ.not_ex_of_mem hm
  have hmem : y.core.exLs.valid = y.core.leaves i := hm.trans hl.symm
  have hdata := h.step_lsWb hy hl hload hmtime
  have hyoung := h.young
  have hstill := h.step_still hmem hi
  have hcmp := (h.step_cmp hmem hex hfl).1
  obtain rfl : real = true := Arch.cur_trap htrap
  rw [hl, Bool.true_and] at hstill hcmp
  obtain ⟨hout, hrf, hcsr⟩ := h.back.step_leave hy.masked hl
  have hold := hyoung.mem hm
  have hsten : oLsuSten a.ins = false := (not_access_of_isCsr (isCsr_of_trap htrap)).2.2
  refine ⟨hout, Occ.step_wb_of_leave hl, hdata, htrap, ?_, ?_, ?_, ?_, .inl hcsr, hstill, hcmp, ?_,
    ⟨h.wired.tarI, h.wired.csrrci⟩⟩
  · simp [Core.busy, hy.occ.step_id, hf, hy.occ.step_ex, hid, step_mem_valid hmem hex]
  · rw [h.ifId_eq hy hf]
    exact hyoung.word (by simp [Core.busy, hm])
  · rw [Occ.step_idEx_of_quiet hid hfl]
    exact hold.2
  · exact hrf.trans (Arch.step_same_of_trap htrap).1.symm
  · rw [Occ.step_exLs_of_stay hex, hfl]
    exact (congrArg ExLs.sten hold.1.eq).trans hsten

/-- **One edge.** What leaves MEM is the next instruction of the machine or a bubble, and the register
writes are its writes in their order. -/
theorem step (hi : y.Ok i) (hs : y.smooth i = true)
    (hword : y.delivers i = true → y.core.ifuIns i = a.code y.core.ifuPc) :
    (∃ real' out', out ++ (if y.core.leaves i && real then a.lsWb.writes else []) =
        y.regWrites i ++ out' ∧
      Tracks (y.step i) (a.next (y.core.leaves i && real)) real' out') ∨
    out = y.regWrites i ∧ Trapping (y.step i) a := by
  simp only [System.smooth, Bool.and_eq_true, Bool.not_eq_true'] at hs
  obtain ⟨⟨⟨-, hhaz⟩, -⟩, hans⟩ := hs
  have hstay (hl : y.core.leaves i = false)
      (hstep : ∃ out', out = y.regWrites i ++ out' ∧ Tracks (y.step i) a real out') :
      ∃ real' out', out ++ (if y.core.leaves i && real then a.lsWb.writes else []) =
        y.regWrites i ++ out' ∧ Tracks (y.step i) (a.next (y.core.leaves i && real)) real' out' := by
    obtain ⟨out', hout, hstep⟩ := hstep
    rw [hl]
    exact ⟨real, out', by simpa using hout, hstep⟩
  have hempty (hm : y.core.exLs.valid = false) : y.core.leaves i = false := by
    simp [Core.leaves, Occ.memValid_of_empty hm]
  cases hid : y.core.ifId.valid with
  | true => exact .inl (hstay (hempty (hy.occ.id hid).2.1) (h.step_id hy hi hid))
  | false =>
    cases hex : y.core.idEx.valid with
    | true => exact .inl (hstay (hempty (hy.occ.ex hex).1) (h.step_ex hy hex hans))
    | false =>
      by_cases hmem : y.core.exLs.valid = y.core.leaves i
      · by_cases htrap : y.core.leaves i = true → (a.cur real y.core.ifId.data.pc).lsWb.trap = false
        · cases hf : y.core.ifReadyAxi i with
          | true =>
            exact .inl ⟨_, h.step_fetch hy hmem hload hmtime hi hid hex hf htrap hword hhaz⟩
          | false => exact .inl ⟨_, h.step_quiet hy hmem hload hmtime hi hid hex hf htrap⟩
        · simp only [Classical.not_imp, Bool.not_eq_false] at htrap
          obtain ⟨hl, htrap⟩ := htrap
          refine .inr (h.step_trap hy hload hmtime hi hl ?_ htrap)
          by_contra hf
          rw [← (h.step_lsWb hy hl hload hmtime).trap, Occ.step_lsWb_of_leave hl] at htrap
          simp [System.sysHazard, hf, hmem.trans hl, htrap] at hhaz
      · cases hm : y.core.exLs.valid with
        | false => exact absurd (hm.trans (hempty hm).symm) hmem
        | true =>
          have hl : y.core.leaves i = false := by
            by_contra hl
            exact hmem (hm.trans (Bool.eq_true_of_not_eq_false hl).symm)
          exact .inl (hstay hl (h.step_mem hy hm hl))

end Tracks

end Oscpu.Axi
