import Oscpu.Axi.Reset

/-!
# Where instructions are in the pipeline of `cpu_axi_diff`

A fetch takes at least three cycles, so the pipeline never fills: the instruction that a fetch
delivers finds ID and EX empty and passes through both in one cycle each. Only MEM and WB may still
hold older ones. `Occ` is the invariant behind this, for every program and every timing of the
slave; what the claims about single accesses, traps and forwarding need is derived from it.
-/

namespace Oscpu.Axi

open Oscpu.Rtl Oscpu.Lib

/-! ## One edge, register by register -/

namespace Core

variable (s : Core) (i : AxiIn)

theorem step_ifId_valid : (s.step false i).ifId.valid =
    if s.ifReady i then s.ifHs i else s.ifId.valid := rfl

theorem step_idEx_valid : (s.step false i).idEx.valid =
    if s.idReady i then s.ifId.valid else s.idEx.valid := rfl

theorem step_exLs_valid : (s.step false i).exLs.valid =
    if s.exReady i then s.idEx.valid else s.exLs.valid := rfl

theorem step_lsWb_valid : (s.step false i).lsWb.valid =
    if s.memReady i then s.memValid i else s.lsWb.valid := rfl

theorem step_ifId_data : (s.step false i).ifId.data =
    if s.ifReady i && s.ifHs i || s.flush i then s.toIfId i else s.ifId.data := rfl

theorem step_idEx_data : (s.step false i).idEx.data =
    if s.ifId.valid && s.idReady i || s.flush i then s.toIdEx i else s.idEx.data := rfl

theorem step_exLs_data : (s.step false i).exLs.data =
    if s.idEx.valid && s.exReady i || s.flush i then s.toExLs i else s.exLs.data := rfl

theorem step_lsWb_data : (s.step false i).lsWb.data =
    if s.memValid i && s.memReady i || s.flush i then s.toLsWb i else s.lsWb.data := rfl

theorem step_rState : (s.step false i).rw.rState = s.rw.nextR s.req i := rfl

theorem req_wValid : s.req.wValid = s.axiSigWrite := by
  unfold RwReq.wValid req axiSigWrite
  cases s.axiSigMem <;> simp

theorem req_rValid : s.req.rValid = (!s.axiSigWrite && (s.axiSigMem || !s.pcStall)) := by
  unfold RwReq.rValid req axiSigWrite
  cases s.axiSigMem <;> simp

theorem axiSigMem_of_write {s : Core} (h : s.axiSigWrite = true) : s.axiSigMem = true := by
  unfold axiSigWrite at h
  simp_all

end Core

/-! ## Handshakes of the bus -/

namespace AxiRw

variable {a : AxiRw} {r : RwReq} {i : AxiIn}

theorem rState_of_rHs (h : a.rHs r i = true) : a.rState = .read := by
  simp only [rHs, out, Bool.and_eq_true, beq_iff_eq] at h
  exact h.1

theorem rValid_of_rDone (h : a.rDone r i = true) : i.rValid = true ∧ i.rLast = true := by
  simp only [rDone, rHs, Bool.and_eq_true] at h
  exact ⟨h.1.2, h.2⟩

theorem wState_of_bHs (h : a.bHs r i = true) : a.wState = .resp ∧ i.bValid = true := by
  simp only [bHs, out, Bool.and_eq_true, beq_iff_eq] at h
  exact h

theorem nextR_ne_addr_of_rDone (h : a.rDone r i = true) : a.nextR r i ≠ .addr := by
  have hs := rState_of_rHs (r := r) (i := i) (by
    simp only [rDone, Bool.and_eq_true] at h
    exact h.1)
  unfold nextR
  rw [hs]
  cases r.rValid <;> simp [h]

theorem nextW_of_bHs (hr : r.wValid = true) (h : a.bHs r i = true) : a.nextW r i = .idle := by
  unfold nextW
  rw [if_pos hr, (wState_of_bHs h).1]
  simp [h]

theorem transDone_of_write (hw : r.write = true) : a.transDone r i = a.bHs r i := by
  simp [transDone, hw]

theorem transDone_of_read (hw : r.write = false) : a.transDone r i = a.rDone r i := by
  simp [transDone, hw]

end AxiRw

namespace Slave

variable {sl : Slave} {i : AxiIn} {o : AxiOut}

theorem step_rd_of_last (har : o.arValid = false) (hr : i.rValid = true) (ho : o.rReady = true)
    (hl : i.rLast = true) : (sl.step o i).rd = none := by
  simp [step, har, hr, ho, hl]

theorem step_rd_of_none (hrd : sl.rd = none) (har : o.arValid = false) :
    (sl.step o i).rd = none := by
  simp [step, har, hrd]

theorem not_rValid (h : sl.Drives i) (hrd : sl.rd = none) : i.rValid = false := by
  by_contra hv
  obtain ⟨b, hb, -⟩ := h.r (by simpa using hv)
  rw [hrd] at hb
  cases hb

end Slave

/-! ## The invariant -/

/-- The instruction in MEM moves to write-back. -/
def Core.leaves (s : Core) (i : AxiIn) : Bool := s.memValid i && s.memReady i

/-- Which stages are occupied, and what a completed access says about the bus. -/
structure Occ (y : System) : Prop where
  /-- ID holds an instruction for one cycle, alone and with no read in progress. -/
  id : y.core.ifId.valid = true → y.core.idEx.valid = false ∧ y.core.exLs.valid = false ∧
    y.core.rw.rwReady = false ∧ y.slave.rd = none
  /-- EX holds it for the next one, with MEM empty. -/
  ex : y.core.idEx.valid = true → y.core.exLs.valid = false ∧ y.core.rw.rwReady = false
  /-- A completed read is over on both sides. -/
  fetched : y.core.rw.rwReady = true → y.core.axiSigWrite = false →
    y.slave.rd = none ∧ y.core.rw.rState ≠ .addr
  /-- So it is when a store finds the write machine waiting for a response. -/
  answered : y.core.rw.rwReady = true → y.core.rw.wState = .resp →
    y.slave.rd = none ∧ y.core.rw.rState ≠ .addr
  /-- `mret` acts in its first cycle in write-back, when MEM is empty. -/
  mret : y.core.lsWb.data.mret = true → y.core.exLs.valid = false

namespace Occ

variable {y : System} {i : AxiIn}

theorem not_id_of_ex (h : Occ y) (he : y.core.idEx.valid = true) : y.core.ifId.valid = false := by
  by_contra hi
  rw [(h.id (by simpa using hi)).1] at he
  exact Bool.false_ne_true he

theorem not_id_of_mem (h : Occ y) (hm : y.core.exLs.valid = true) : y.core.ifId.valid = false := by
  by_contra hi
  rw [(h.id (Bool.eq_true_of_not_eq_false hi)).2.1] at hm
  exact Bool.false_ne_true hm

theorem not_id_of_ready (h : Occ y) (hr : y.core.rw.rwReady = true) :
    y.core.ifId.valid = false := by
  by_contra hi
  rw [(h.id (by simpa using hi)).2.2.1] at hr
  exact Bool.false_ne_true hr

theorem not_ex_of_ready (h : Occ y) (hr : y.core.rw.rwReady = true) :
    y.core.idEx.valid = false := by
  by_contra he
  rw [(h.ex (by simpa using he)).2] at hr
  exact Bool.false_ne_true hr

theorem not_ex_of_mem (h : Occ y) (hm : y.core.exLs.valid = true) :
    y.core.idEx.valid = false := by
  by_contra he
  rw [(h.ex (by simpa using he)).1] at hm
  exact Bool.false_ne_true hm

/-! ### What the signals are in a state of the invariant -/

theorem ready_of_fetch (hf : y.core.ifReadyAxi i = true) :
    y.core.axiSigMem = false ∧ y.core.retId i = 1#4 ∧ y.core.rw.rwReady = true := by
  unfold Core.ifReadyAxi at hf
  cases hm : y.core.axiSigMem <;> simp_all

theorem ready_of_mem (hm : y.core.memReadyAxi i = true) :
    y.core.axiSigMem = true ∧ y.core.retId i = 2#4 ∧ y.core.rw.rwReady = true := by
  unfold Core.memReadyAxi at hm
  simp only [Bool.and_eq_true, beq_iff_eq] at hm
  exact ⟨hm.1.1, hm.1.2, hm.2⟩

theorem not_pcStall (he : y.core.idEx.valid = false) : y.core.pcStall = false := by
  simp [Core.pcStall, he]

theorem idReady (h : Occ y) (i : AxiIn) : y.core.idReady i = true := by
  cases he : y.core.idEx.valid with
  | false => simp [Core.idReady, Stage.ready, he]
  | true => simp [Core.idReady, Core.exReady, Stage.ready, (h.ex he).1]

theorem exReady_of_ex (h : Occ y) (i : AxiIn) (he : y.core.idEx.valid = true) :
    y.core.exReady i = true := by
  simp [Core.exReady, Stage.ready, (h.ex he).1]

/-- An instruction without a memory access leaves MEM when a fetch completes. -/
theorem exReady_of_fetch (hf : y.core.ifReadyAxi i = true) : y.core.exReady i = true := by
  obtain ⟨hm, -, -⟩ := ready_of_fetch hf
  cases hv : y.core.exLs.valid with
  | false => simp [Core.exReady, Stage.ready, hv]
  | true =>
    have hacc : (y.core.exLs.data.lden || y.core.exLs.data.sten) = false := by
      simpa [Core.axiSigMem, hv] using hm
    have hval : y.core.memValid i = true := by simp [Core.memValid, hacc, hv]
    simp [Core.exReady, Stage.ready, Core.memExReady, hval, Core.memReady, hf]

/-! ### The valid bits after an edge -/

theorem step_id (h : Occ y) : (y.step i).core.ifId.valid = y.core.ifReadyAxi i := by
  change (y.core.step false i).ifId.valid = _
  rw [Core.step_ifId_valid]
  cases he : y.core.idEx.valid with
  | false =>
    simp [Core.ifReady, not_pcStall he, h.idReady i, Stage.ready, Core.ifHs]
  | true =>
    have hf : y.core.ifReadyAxi i = false := by simp [Core.ifReadyAxi, (h.ex he).2]
    simp [Core.ifHs, hf, h.not_id_of_ex he]

theorem step_ex (h : Occ y) : (y.step i).core.idEx.valid = y.core.ifId.valid := by
  change (y.core.step false i).idEx.valid = _
  rw [Core.step_idEx_valid, h.idReady i, if_pos rfl]

theorem step_mem_of_ex (h : Occ y) (he : y.core.idEx.valid = true) :
    (y.step i).core.exLs.valid = true := by
  change (y.core.step false i).exLs.valid = _
  rw [Core.step_exLs_valid, h.exReady_of_ex i he, if_pos rfl, he]

theorem step_mem_of_not_ex (he : y.core.idEx.valid = false) :
    (y.step i).core.exLs.valid = !y.core.exReady i := by
  change (y.core.step false i).exLs.valid = _
  rw [Core.step_exLs_valid, he]
  cases hr : y.core.exReady i with
  | true => rfl
  | false =>
    have hv : y.core.exLs.valid = true := by
      by_contra hv
      simp [Core.exReady, Stage.ready, hv] at hr
    simp [hv]

/-! ### The data after an edge -/

theorem loads (h : Occ y) : (y.core.ifReady i && y.core.ifHs i) = y.core.ifReadyAxi i := by
  cases hf : y.core.ifReadyAxi i with
  | false => simp [Core.ifHs, hf]
  | true =>
    have hs := not_pcStall (h.not_ex_of_ready (ready_of_fetch hf).2.2)
    simp [Core.ifHs, hf, hs, Core.ifReady, Stage.ready, h.idReady i]

theorem step_ifId_of_fetch (h : Occ y) (hf : y.core.ifReadyAxi i = true) :
    (y.step i).core.ifId.data = y.core.toIfId i := by
  change (y.core.step false i).ifId.data = _
  rw [Core.step_ifId_data, h.loads, hf]
  rfl

theorem step_ifId_of_quiet (hf : y.core.ifReadyAxi i = false) (hfl : y.core.flush i = false) :
    (y.step i).core.ifId.data = y.core.ifId.data := by
  change (y.core.step false i).ifId.data = _
  rw [Core.step_ifId_data, hfl]
  simp [Core.ifHs, hf]

theorem step_ifId_of_flush (hfl : y.core.flush i = true) :
    (y.step i).core.ifId.data = IfId.zero := by
  change (y.core.step false i).ifId.data = _
  simp [Core.step_ifId_data, hfl, Core.toIfId]

theorem step_idEx_of_id (h : Occ y) (hv : y.core.ifId.valid = true) :
    (y.step i).core.idEx.data = y.core.toIdEx i := by
  change (y.core.step false i).idEx.data = _
  rw [Core.step_idEx_data, hv, h.idReady i]
  rfl

theorem step_idEx_of_quiet (hid : y.core.ifId.valid = false) (hfl : y.core.flush i = false) :
    (y.step i).core.idEx.data = y.core.idEx.data := by
  change (y.core.step false i).idEx.data = _
  simp [Core.step_idEx_data, hid, hfl]

theorem step_idEx_of_flush (hfl : y.core.flush i = true) :
    (y.step i).core.idEx.data = IdEx.zero := by
  change (y.core.step false i).idEx.data = _
  simp [Core.step_idEx_data, hfl, Core.toIdEx]

theorem step_exLs_of_ex (h : Occ y) (hv : y.core.idEx.valid = true) :
    (y.step i).core.exLs.data = y.core.toExLs i := by
  change (y.core.step false i).exLs.data = _
  rw [Core.step_exLs_data, hv, h.exReady_of_ex i hv]
  rfl

theorem step_exLs_of_flush (hfl : y.core.flush i = true) :
    (y.step i).core.exLs.data = ExLs.zero := by
  change (y.core.step false i).exLs.data = _
  simp [Core.step_exLs_data, hfl, Core.toExLs]

/-- EX/MEM changes only when an instruction enters it or a flush clears it. -/
theorem step_exLs_of_stay (he : y.core.idEx.valid = false) :
    (y.step i).core.exLs.data = if y.core.flush i then ExLs.zero else y.core.exLs.data := by
  cases hfl : y.core.flush i with
  | true => exact step_exLs_of_flush hfl
  | false =>
    change (y.core.step false i).exLs.data = _
    simp [Core.step_exLs_data, he, hfl]

/-- An instruction waits in MEM, unchanged. -/
theorem step_exLs_of_hold (h : Occ y) (hv : y.core.exLs.valid = true)
    (hr : y.core.exReady i = false) (hfl : y.core.flush i = false) :
    (y.step i).core.exLs = y.core.exLs := by
  have hvalid : (y.core.step false i).exLs.valid = y.core.exLs.valid := by
    simp [Core.step_exLs_valid, hr]
  have hdata : (y.step i).core.exLs.data = y.core.exLs.data := by
    rw [step_exLs_of_stay (h.not_ex_of_mem hv), hfl]
    rfl
  exact congrArg₂ Stage.mk hvalid hdata

theorem memValid_of_empty (hm : y.core.exLs.valid = false) : y.core.memValid i = false := by
  simp [Core.memValid, Core.axiSigMem, hm]

theorem exReady_of_mem (hv : y.core.exLs.valid = true) : y.core.exReady i = y.core.leaves i := by
  simp [Core.exReady, Stage.ready, hv, Core.memExReady, Core.leaves]

theorem mem_of_leave (hl : (y.core.memValid i && y.core.memReady i) = true) :
    y.core.exLs.valid = true := by
  by_contra hv
  simp [memValid_of_empty (Bool.eq_false_iff.2 hv)] at hl

theorem step_lsWb_of_leave (hl : (y.core.memValid i && y.core.memReady i) = true) :
    (y.step i).core.lsWb.data = y.core.toLsWb i := by
  change (y.core.step false i).lsWb.data = _
  simp [Core.step_lsWb_data, hl]

theorem step_lsWb_of_quiet (hl : (y.core.memValid i && y.core.memReady i) = false)
    (hfl : y.core.flush i = false) : (y.step i).core.lsWb.data = y.core.lsWb.data := by
  change (y.core.step false i).lsWb.data = _
  simp [Core.step_lsWb_data, hl, hfl]

theorem step_lsWb_of_flush (hfl : y.core.flush i = true) :
    (y.step i).core.lsWb.data = LsWb.zero := by
  change (y.core.step false i).lsWb.data = _
  simp [Core.step_lsWb_data, hfl, Core.toLsWb]

theorem step_lsWb_of_stay (hl : y.core.leaves i = false) :
    (y.step i).core.lsWb.data = if y.core.flush i then LsWb.zero else y.core.lsWb.data := by
  cases hfl : y.core.flush i with
  | true => exact step_lsWb_of_flush hfl
  | false => exact step_lsWb_of_quiet hl hfl

theorem step_rf_of_quiet (hq : y.core.ifReadyAxi i = false ∨ y.core.flush i = true) :
    (y.step i).core.rf = y.core.rf := by
  change y.core.rf.write (y.core.rfWen i) _ _ = _
  have hw : y.core.rfWen i = false := by
    rcases hq with hf | hfl
    · simp [Core.rfWen, Core.wbHs, hf]
    · simp [Core.rfWen, hfl]
  rw [hw, Regs.write_false]

theorem step_lsWb_of_wait (hv : y.core.lsWb.valid = true) (hf : y.core.ifReadyAxi i = false)
    (hfl : y.core.flush i = false) : (y.step i).core.lsWb = y.core.lsWb := by
  have hr : y.core.memReady i = false := by simp [Core.memReady, Stage.ready, hv, hf]
  have hvalid : (y.core.step false i).lsWb.valid = y.core.lsWb.valid := by
    simp [Core.step_lsWb_valid, hr]
  exact congrArg₂ Stage.mk hvalid (step_lsWb_of_quiet (by simp [hr]) hfl)

theorem step_wb_of_stay (hl : y.core.leaves i = false)
    (hv : y.core.lsWb.valid = false ∨ y.core.ifReadyAxi i = true) :
    (y.step i).core.lsWb.valid = false := by
  have hr : y.core.memReady i = true := by
    rcases hv with hv | hf
    · simp [Core.memReady, Stage.ready, hv]
    · simp [Core.memReady, hf]
  have hm : y.core.memValid i = false := by simpa [Core.leaves, hr] using hl
  change (y.core.step false i).lsWb.valid = false
  rw [Core.step_lsWb_valid, hr, hm]
  rfl

/-! ### The fetch address, `bru` and `keep` after an edge -/

theorem step_ifuPc_of_fetch (h : Occ y) (hf : y.core.ifReadyAxi i = true)
    (hfl : y.core.flush i = false) : (y.step i).core.ifuPc = y.core.bru.pc := by
  have hs := not_pcStall (h.not_ex_of_ready (ready_of_fetch hf).2.2)
  change y.core.nextIfuPc i false = _
  simp [Core.nextIfuPc, hfl, Core.ifHs, hf, hs]

theorem step_ifuPc_of_quiet (hf : y.core.ifReadyAxi i = false) (hfl : y.core.flush i = false) :
    (y.step i).core.ifuPc = y.core.ifuPc := by
  change y.core.nextIfuPc i false = _
  simp [Core.nextIfuPc, hfl, Core.ifHs, hf]

theorem step_ifuPc_of_flush (hfl : y.core.flush i = true) : (y.step i).core.ifuPc = 0#64 := by
  change y.core.nextIfuPc i false = _
  simp [Core.nextIfuPc, hfl]

theorem step_bruPc (hfl : y.core.flush i = false) : (y.step i).core.bru.pc =
    if y.core.pcWen i then y.core.nextPc i else y.core.bru.pc := by
  change (y.core.bruStep i false).pc = _
  simp [Core.bruStep, hfl]

theorem step_delay (y : System) (i : AxiIn) : (y.step i).core.bru.delay =
    if y.core.jump i then y.core.brHs i else false := rfl

theorem step_keep (hfl : y.core.flush i = false) : (y.step i).core.csr.keep =
    (y.core.csr.keep && !y.core.ifReadyAxi i) := by
  change (y.core.csr.step (y.core.csrIn i) false).keep = _
  have hfl' : y.core.csr.flush (y.core.csrIn i) = false := hfl
  have hr : (y.core.csrIn i).wbReady = y.core.ifReadyAxi i := rfl
  simp only [Csr.step, hfl', hr]
  cases y.core.csr.keep <;> cases y.core.ifReadyAxi i <;> rfl

theorem step_keep_of_flush (hfl : y.core.flush i = true) : (y.step i).core.csr.keep = true := by
  have hfl' : y.core.csr.flush (y.core.csrIn i) = true := hfl
  change (y.core.csr.step (y.core.csrIn i) false).keep = true
  simp [Csr.step, hfl']

/-- `keep` falls only when a fetch completes. -/
theorem keep_of_step (hk : (y.step i).core.csr.keep = false) (hf : y.core.ifReadyAxi i = false) :
    y.core.csr.keep = false ∧ y.core.flush i = false := by
  cases hfl : y.core.flush i with
  | true =>
    rw [step_keep_of_flush hfl] at hk
    exact absurd hk (by simp)
  | false =>
    rw [step_keep hfl, hf, Bool.not_false, Bool.and_true] at hk
    exact ⟨hk, rfl⟩

/-! ### Flushes -/

theorem flush_of_not_fetch (hf : y.core.ifReadyAxi i = false) :
    y.core.flush i = y.core.lsWb.data.mret := by
  simp [Core.flush, Csr.flush, Csr.ecall, Csr.interruptEn, Core.csrIn, hf]

theorem not_mret_of_mem (h : Occ y) (hm : y.core.exLs.valid = true) :
    y.core.lsWb.data.mret = false := by
  by_contra hr
  rw [h.mret (by simpa using hr)] at hm
  exact Bool.false_ne_true hm

theorem valid_of_sigMem (hm : y.core.axiSigMem = true) : y.core.exLs.valid = true := by
  simp only [Core.axiSigMem, Bool.and_eq_true] at hm
  exact hm.1

theorem not_fetch_of_sigMem (hm : y.core.axiSigMem = true) : y.core.ifReadyAxi i = false := by
  simp [Core.ifReadyAxi, hm]

/-- Nothing is flushed while a load or store is in MEM. -/
theorem not_flush_of_sigMem (h : Occ y) (hm : y.core.axiSigMem = true) :
    y.core.flush i = false := by
  rw [flush_of_not_fetch (not_fetch_of_sigMem hm), h.not_mret_of_mem (valid_of_sigMem hm)]

theorem step_exLs_of_wait (h : Occ y) (hm : y.core.axiSigMem = true)
    (hw : y.core.exReady i = false) : (y.step i).core.exLs = y.core.exLs :=
  h.step_exLs_of_hold (valid_of_sigMem hm) hw (h.not_flush_of_sigMem hm)

/-- A load or store leaves MEM only with an answer. -/
theorem ready_of_leave (hm : y.core.axiSigMem = true) (hl : y.core.exReady i = true) :
    y.core.memReadyAxi i = true ∧ y.core.memReady i = true := by
  have hv := valid_of_sigMem hm
  have hacc : (y.core.exLs.data.lden || y.core.exLs.data.sten) = true := by
    simpa [Core.axiSigMem, hv] using hm
  simpa [Core.exReady, Stage.ready, hv, Core.memExReady, Core.memValid, hacc, hm] using hl

/-! ### Preservation -/

theorem step_rd_of_rDone {a : AxiRw} {r : RwReq} {sl : Slave} (hd : a.rDone r i = true) :
    (sl.step (a.out r) i).rd = none := by
  have hs := AxiRw.rState_of_rHs (a := a) (r := r) (i := i) (by
    simp only [AxiRw.rDone, Bool.and_eq_true] at hd
    exact hd.1)
  obtain ⟨hv, hl⟩ := AxiRw.rValid_of_rDone hd
  exact Slave.step_rd_of_last (by simp [AxiRw.out, hs]) hv (by simp [AxiRw.out, hs]) hl

theorem quiet_of_write (hw : y.core.axiSigWrite = true) (hrd : y.slave.rd = none)
    (hst : y.core.rw.rState ≠ .addr) :
    (y.step i).slave.rd = none ∧ (y.step i).core.rw.rState ≠ .addr := by
  have hr : y.core.req.rValid = false := by simp [Core.req_rValid, hw]
  refine ⟨Slave.step_rd_of_none hrd (by simp [Core.out, AxiRw.out, hr]), ?_⟩
  change (y.core.step false i).rw.rState ≠ _
  simpa [Core.step_rState, AxiRw.nextR, hr] using hst

theorem quiet_of_rDone (hd : y.core.rw.rDone y.core.req i = true) :
    (y.step i).slave.rd = none ∧ (y.step i).core.rw.rState ≠ .addr :=
  ⟨step_rd_of_rDone hd, AxiRw.nextR_ne_addr_of_rDone hd⟩

theorem step_fetched (h : Occ y) (hr : (y.step i).core.rw.rwReady = true)
    (hw' : (y.step i).core.axiSigWrite = false) :
    (y.step i).slave.rd = none ∧ (y.step i).core.rw.rState ≠ .addr := by
  have hd : y.core.rw.transDone y.core.req i = true := hr
  cases hw : y.core.axiSigWrite with
  | false => exact quiet_of_rDone ((AxiRw.transDone_of_read hw).symm.trans hd)
  | true =>
    have hm := Core.axiSigMem_of_write hw
    have hb : y.core.rw.bHs y.core.req i = true := (AxiRw.transDone_of_write hw).symm.trans hd
    -- the store has left MEM, so its answer came from an earlier read
    cases hl : y.core.exReady i with
    | false =>
      have heq := h.step_exLs_of_wait hm hl
      have : (y.step i).core.axiSigWrite = y.core.axiSigWrite := by
        simp only [Core.axiSigWrite, Core.axiSigMem, heq]
      rw [hw', hw] at this
      exact absurd this Bool.false_ne_true
    | true =>
      obtain ⟨-, -, hready⟩ := ready_of_mem (ready_of_leave hm hl).1
      obtain ⟨hrd, hst⟩ := h.answered hready (AxiRw.wState_of_bHs hb).1
      exact quiet_of_write hw hrd hst

theorem step_answered (hr : (y.step i).core.rw.rwReady = true)
    (hs : (y.step i).core.rw.wState = .resp) :
    (y.step i).slave.rd = none ∧ (y.step i).core.rw.rState ≠ .addr := by
  have hd : y.core.rw.transDone y.core.req i = true := hr
  cases hw : y.core.axiSigWrite with
  | false => exact quiet_of_rDone ((AxiRw.transDone_of_read hw).symm.trans hd)
  | true =>
    have hb : y.core.rw.bHs y.core.req i = true := (AxiRw.transDone_of_write hw).symm.trans hd
    have hidle : (y.step i).core.rw.wState = .idle :=
      AxiRw.nextW_of_bHs ((Core.req_wValid _).trans hw) hb
    rw [hidle] at hs
    cases hs

/-- `mret` always flushes, so it has left MEM in the cycle before. -/
theorem leave_of_step_mret (hr : (y.step i).core.lsWb.data.mret = true) :
    (y.core.memValid i && y.core.memReady i) = true ∧ y.core.exLs.valid = true := by
  have hd : (y.core.step false i).lsWb.data.mret = true := hr
  rw [Core.step_lsWb_data] at hd
  cases hf : y.core.flush i with
  | true => simp [hf, Core.toLsWb, LsWb.zero] at hd
  | false =>
    cases hl : (y.core.memValid i && y.core.memReady i) with
    | false =>
      rw [hl, hf] at hd
      have : y.core.flush i = true := by
        simp only [Core.flush, Csr.flush, Core.csrIn, Bool.or_eq_true]
        exact .inr hd
      rw [hf] at this
      exact absurd this Bool.false_ne_true
    | true =>
      refine ⟨rfl, ?_⟩
      simp only [Core.memValid, Core.axiSigMem, Bool.and_eq_true] at hl
      by_contra hv
      simp [hv] at hl

theorem step_mret (h : Occ y) (hr : (y.step i).core.lsWb.data.mret = true) :
    (y.step i).core.exLs.valid = false := by
  obtain ⟨hl, hv⟩ := leave_of_step_mret hr
  rw [step_mem_of_not_ex (h.not_ex_of_mem hv)]
  simp [Core.exReady, Stage.ready, Core.memExReady, hl]

/-- **The invariant is kept by every edge.** -/
theorem step (h : Occ y) (hi : y.Ok i) : Occ (y.step i) where
  id hv := by
    rw [h.step_id] at hv
    obtain ⟨hm, -, hr⟩ := ready_of_fetch hv
    have hw : y.core.axiSigWrite = false := by simp [Core.axiSigWrite, hm]
    obtain ⟨hrd, hst⟩ := h.fetched hr hw
    refine ⟨?_, ?_, ?_, ?_⟩
    · rw [h.step_ex, h.not_id_of_ready hr]
    · rw [step_mem_of_not_ex (h.not_ex_of_ready hr), exReady_of_fetch hv]
      rfl
    · change y.core.rw.transDone y.core.req i = false
      rw [AxiRw.transDone_of_read hw]
      simp [AxiRw.rDone, AxiRw.rHs, Slave.not_rValid hi hrd]
    · exact Slave.step_rd_of_none hrd (by simp [Core.out, AxiRw.out, hst])
  ex hv := by
    rw [h.step_ex] at hv
    obtain ⟨he, hm, -, hrd⟩ := h.id hv
    have hw : y.core.axiSigWrite = false := by simp [Core.axiSigWrite, Core.axiSigMem, hm]
    refine ⟨?_, ?_⟩
    · rw [step_mem_of_not_ex he]
      simp [Core.exReady, Stage.ready, hm]
    · change y.core.rw.transDone y.core.req i = false
      rw [AxiRw.transDone_of_read hw]
      simp [AxiRw.rDone, AxiRw.rHs, Slave.not_rValid hi hrd]
  fetched hr hw := h.step_fetched hr hw
  answered hr hs := step_answered hr hs
  mret hr := h.step_mret hr

theorem afterReset (h : y.AfterReset) : Occ y := by
  have hc := h.core
  refine ⟨?_, ?_, ?_, ?_, ?_⟩
  · simp [hc.ifId]
  · simp [hc.idEx]
  · simp [hc.rw, AxiRw.zero]
  · simp [hc.rw, AxiRw.zero]
  · simp [hc.exLs]

end Occ

/-- An invariant that builds on `Occ` and on a condition `ok` that every cycle of the run meets. -/
theorem System.run_invariant {Inv : System → Prop} {ok : System → AxiIn → Prop} {y : System}
    {is : Nat → AxiIn} {n : Nat} (h₀ : y.AfterReset) (hinit : Inv y)
    (hstep : ∀ y i, Occ y → y.Ok i → ok y i → Inv y → Inv (y.step i))
    (hOk : Admits System.step System.Ok y is n) (hok : Admits System.step ok y is n) :
    Occ (run System.step y is n) ∧ Inv (run System.step y is n) := by
  have hboth : Admits System.step (fun y i => y.Ok i ∧ ok y i) y is n :=
    fun k hk => ⟨hOk k hk, hok k hk⟩
  have hkeep (y : System) (i : AxiIn) (h : Occ y ∧ Inv y) (hk : y.Ok i ∧ ok y i) :
      Occ (y.step i) ∧ Inv (y.step i) := ⟨h.1.step hk.1, hstep y i h.1 hk.1 hk.2 h.2⟩
  exact Lib.run_invariant hkeep ⟨Occ.afterReset h₀, hinit⟩ hboth n le_rfl

theorem System.Reachable.occ {y : System} (h : y.Reachable) : Occ y := by
  obtain ⟨y₀, is, n, h₀, hok, rfl⟩ := h
  exact Lib.run_invariant (fun _ _ => Occ.step) (Occ.afterReset h₀) hok n le_rfl

end Oscpu.Axi
