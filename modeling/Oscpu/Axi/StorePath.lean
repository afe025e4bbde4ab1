import Oscpu.Axi.Younger

/-!
# Stores and the memory

A store waits in MEM while the write machine and the slave exchange address, data and response.
`Storing` says how far it is and which memory the slave has, `Still` that no write is on its way. A
store to `mtimecmp` of `clint` also acts there, from its first cycle in MEM on.
-/

namespace Oscpu.Axi

open Oscpu.Rtl Oscpu.Lib

/-- A write of the same bytes again changes nothing. -/
theorem Mem.write_write (m : Mem) (addr data : Word) (strb : BitVec 8) :
    (m.write addr data strb).write addr data strb = m.write addr data strb := by
  funext k
  unfold Mem.write
  by_cases hk : k = Mem.wordIdx addr
  · simp only [hk, if_true]
    generalize strbMask strb = s
    ext j hj
    simp only [BitVec.getElem_or, BitVec.getElem_and, BitVec.getElem_not]
    cases s[j] <;> simp
  · simp only [if_neg hk]

/-- The store in MEM on its way to the memory. -/
structure Storing (y : System) (b : Arch) : Prop where
  mem : y.slave.mem = b.mem ∨ y.slave.mem = b.stored
  free : y.core.rw.wState = .idle ∨ y.core.rw.wState = .addr → y.slave.wr = none
  write : y.core.rw.wState = .write → y.slave.wr = some ⟨b.exres, 2#4, false⟩
  resp : y.core.rw.wState = .resp →
    y.slave.wr = some ⟨b.exres, 2#4, true⟩ ∧ y.slave.mem = b.stored
  ready : y.core.rw.rwReady = true → y.core.rw.wState = .idle ∨ y.core.rw.wState = .addr
  /-- A completion that lets it out of MEM is its own. -/
  done : y.core.rw.rwReady = true → y.slave.bid = 2#4 → y.core.lsWb.valid = false →
    y.slave.mem = b.stored ∧ y.core.rw.wState = .idle

/-- No write is in progress, and the memory is that of the machine. -/
structure Still (y : System) (a : Arch) : Prop where
  state : y.core.rw.wState = .idle ∨ y.core.rw.wState = .addr
  wr : y.slave.wr = none
  mem : y.slave.mem = a.mem

/-- The write side of the bus and the memory. -/
structure Ram (y : System) (b a : Arch) : Prop where
  still : y.core.axiSigWrite = false → Still y a
  store : y.core.axiSigWrite = true → Storing y b

namespace Still

variable {y : System} {i : AxiIn} {a : Arch}

theorem step (h : Still y a) (hw : y.core.axiSigWrite = false) : Still (y.step i) a := by
  have hv : y.core.req.wValid = false := (Core.req_wValid _).trans hw
  have haw : y.core.out.awValid = false := by simp [Core.out, AxiRw.out, hv]
  refine ⟨?_, ?_, ?_⟩
  · change y.core.rw.nextW y.core.req i = .idle ∨ y.core.rw.nextW y.core.req i = .addr
    simpa [AxiRw.nextW, hv] using h.state
  · change (y.slave.step y.core.out i).wr = none
    simp [Slave.step, h.wr, haw]
  · change (y.slave.step y.core.out i).mem = _
    simp [Slave.step, h.wr, h.mem]

end Still

namespace Storing

variable {y : System} {i : AxiIn} {b : Arch}

theorem bId_eq (h : Storing y b) (hi : y.Ok i) (hr : y.core.rw.rwReady = true) :
    i.bId = y.slave.bid := by
  apply hi.bHold
  by_contra hv
  obtain ⟨w, hw, -⟩ := hi.b (Bool.eq_true_of_not_eq_false hv)
  rw [h.free (h.ready hr)] at hw
  cases hw

/-- The store leaves MEM. -/
theorem step_leave (h : Storing y b) (hi : y.Ok i) (hw : y.core.axiSigWrite = true)
    (hl : y.core.leaves i = true) :
    ((y.step i).core.rw.wState = .idle ∨ (y.step i).core.rw.wState = .addr) ∧
      (y.step i).slave.wr = none ∧ (y.step i).slave.mem = b.stored := by
  have hm := Core.axiSigMem_of_write hw
  have hex : y.core.exReady i = true := (Occ.exReady_of_mem (Occ.valid_of_sigMem hm)).trans hl
  obtain ⟨hma, hmr⟩ := Occ.ready_of_leave hm hex
  obtain ⟨-, hid, hr⟩ := Occ.ready_of_mem hma
  have hwb : y.core.lsWb.valid = false := by
    simpa [Core.memReady, Stage.ready, Occ.not_fetch_of_sigMem hm] using hmr
  have hbid : y.slave.bid = 2#4 := by
    rw [← h.bId_eq hi hr]
    simpa [Core.retId, hw] using hid
  obtain ⟨hmem, hst⟩ := h.done hr hbid hwb
  have hwr := h.free (.inl hst)
  have hv : y.core.req.wValid = true := (Core.req_wValid _).trans hw
  refine ⟨.inr ?_, ?_, ?_⟩
  · change y.core.rw.nextW y.core.req i = .addr
    simp [AxiRw.nextW, hv, hst]
  · change (y.slave.step y.core.out i).wr = none
    simp [Slave.step, hwr, Core.out, AxiRw.out, hst]
  · change (y.slave.step y.core.out i).mem = _
    simp [Slave.step, hwr, hmem]

/-- What the core drives for it. -/
theorem out_eq {y : System} {b : Arch} (hold : y.core.exLs.data.Holds b)
    (hw : y.core.axiSigWrite = true) :
    y.core.out.awAddr = b.exres ∧ y.core.out.awId = 2#4 ∧
      y.core.out.wData = storeData (func3 b.ins) b.exres b.rs2 ∧
        y.core.out.wStrb = storeMask (func3 b.ins) b.exres := by
  have hm := Core.axiSigMem_of_write hw
  have hsten : y.core.exLs.data.sten = true := by
    simp only [Core.axiSigWrite, Bool.and_eq_true] at hw
    exact hw.2
  have hst : oLsuSten b.ins = true := (congrArg ExLs.sten hold.eq).symm.trans hsten
  have hf3 : y.core.exLs.data.func3 = func3 b.ins := congrArg ExLs.func3 hold.eq
  have hx := hold.exres (not_isCsr_of_sten hst)
  refine ⟨?_, ?_, ?_, ?_⟩
  · simp [Core.out, AxiRw.out, Core.req, hm, hx]
  · simp [Core.out, AxiRw.out, Core.req, hm]
  · simp [Core.out, AxiRw.out, Core.req, Core.memWdata, hsten, hf3, hx, hold.rs2 hst]
  · simp [Core.out, AxiRw.out, Core.req, Core.memWmask, hsten, hf3, hx]

/-! The store stays in MEM: one state of the write machine after the other. -/

theorem step_rwReady (hw : y.core.axiSigWrite = true) :
    (y.step i).core.rw.rwReady = y.core.rw.bHs y.core.req i :=
  AxiRw.transDone_of_write hw

theorem not_step_rwReady (hw : y.core.axiSigWrite = true) (hst : y.core.rw.wState ≠ .resp) :
    (y.step i).core.rw.rwReady = false := by
  rw [step_rwReady hw]
  simp [AxiRw.bHs, AxiRw.out, hst]

section

variable (h : Storing y b) (hw : y.core.axiSigWrite = true)
include h hw

theorem step_idle (hst : y.core.rw.wState = .idle) : Storing (y.step i) b := by
  have hv : y.core.req.wValid = true := (Core.req_wValid _).trans hw
  have hready : (y.step i).core.rw.rwReady = false := not_step_rwReady hw (by simp [hst])
  have hnext : (y.step i).core.rw.wState = .addr := by
    change y.core.rw.nextW y.core.req i = .addr
    simp [AxiRw.nextW, hv, hst]
  have hnone : (y.step i).slave.wr = none := by
    change (y.slave.step y.core.out i).wr = none
    simp [Slave.step, h.free (.inl hst), Core.out, AxiRw.out, hst]
  have hmem : (y.step i).slave.mem = y.slave.mem := by
    change (y.slave.step y.core.out i).mem = y.slave.mem
    simp [Slave.step, h.free (.inl hst)]
  refine ⟨hmem ▸ h.mem, fun _ => hnone, ?_, ?_, ?_, ?_⟩ <;> simp [hnext, hready]

theorem step_addr (hold : y.core.exLs.data.Holds b) (hst : y.core.rw.wState = .addr) :
    Storing (y.step i) b := by
  have hv : y.core.req.wValid = true := (Core.req_wValid _).trans hw
  have hready : (y.step i).core.rw.rwReady = false := not_step_rwReady hw (by simp [hst])
  have hmem : (y.step i).slave.mem = y.slave.mem := by
    change (y.slave.step y.core.out i).mem = y.slave.mem
    simp [Slave.step, h.free (.inr hst)]
  cases haw : y.core.rw.awHs y.core.req i with
  | true =>
    have hhs : (i.awReady && y.core.out.awValid) = true := haw
    obtain ⟨haddr, hid, -, -⟩ := out_eq hold hw
    have hnext : (y.step i).core.rw.wState = .write := by
      change y.core.rw.nextW y.core.req i = .write
      simp [AxiRw.nextW, hv, hst, haw]
    have hsome : (y.step i).slave.wr = some ⟨b.exres, 2#4, false⟩ := by
      change (y.slave.step y.core.out i).wr = some ⟨b.exres, 2#4, false⟩
      simp only [Slave.step, hhs, if_true, haddr, hid]
    refine ⟨hmem ▸ h.mem, ?_, fun _ => hsome, ?_, ?_, ?_⟩ <;> simp [hnext, hready]
  | false =>
    have hhs : (i.awReady && y.core.out.awValid) = false := haw
    have hbr : y.core.out.bReady = false := by simp [Core.out, AxiRw.out, hst]
    have hwv : y.core.out.wValid = false := by simp [Core.out, AxiRw.out, hst]
    have hnext : (y.step i).core.rw.wState = .addr := by
      change y.core.rw.nextW y.core.req i = .addr
      simp [AxiRw.nextW, hv, hst, haw]
    have hnone : (y.step i).slave.wr = none := by
      change (y.slave.step y.core.out i).wr = none
      simp [Slave.step, hhs, hbr, hwv, h.free (.inr hst)]
    refine ⟨hmem ▸ h.mem, fun _ => hnone, ?_, ?_, ?_, ?_⟩ <;> simp [hnext, hready]

theorem step_write (hold : y.core.exLs.data.Holds b) (hst : y.core.rw.wState = .write) :
    Storing (y.step i) b := by
  have hv : y.core.req.wValid = true := (Core.req_wValid _).trans hw
  have hready : (y.step i).core.rw.rwReady = false := not_step_rwReady hw (by simp [hst])
  have hwr := h.write hst
  have haw : y.core.out.awValid = false := by simp [Core.out, AxiRw.out, hst]
  have hbr : y.core.out.bReady = false := by simp [Core.out, AxiRw.out, hst]
  have hwv : y.core.out.wValid = true := by simp [Core.out, AxiRw.out, hst]
  cases hwready : i.wReady with
  | true =>
    have hhs : y.core.rw.wHs y.core.req i = true := by simp [AxiRw.wHs, AxiRw.out, hwready, hst]
    have hnext : (y.step i).core.rw.wState = .resp := by
      change y.core.rw.nextW y.core.req i = .resp
      simp [AxiRw.nextW, hv, hst, hhs]
    have hsent : (y.step i).slave.wr = some ⟨b.exres, 2#4, true⟩ := by
      change (y.slave.step y.core.out i).wr = some ⟨b.exres, 2#4, true⟩
      simp [Slave.step, haw, hbr, hwv, hwready, hwr]
    have hmem : (y.step i).slave.mem = b.stored := by
      obtain ⟨-, -, hdata, hstrb⟩ := out_eq hold hw
      have hbytes : (y.step i).slave.mem = y.slave.mem.write b.exres
          (storeData (func3 b.ins) b.exres b.rs2) (storeMask (func3 b.ins) b.exres) := by
        change (y.slave.step y.core.out i).mem = _
        simp [Slave.step, hwr, hwready, hwv, hdata, hstrb]
      rw [hbytes]
      rcases h.mem with hm | hm
      · rw [hm]
        rfl
      · rw [hm]
        exact Mem.write_write _ _ _ _
    refine ⟨.inr hmem, ?_, ?_, fun _ => ⟨hsent, hmem⟩, ?_, ?_⟩ <;> simp [hnext, hready]
  | false =>
    have hhs : y.core.rw.wHs y.core.req i = false := by simp [AxiRw.wHs, hwready]
    have hnext : (y.step i).core.rw.wState = .write := by
      change y.core.rw.nextW y.core.req i = .write
      simp [AxiRw.nextW, hv, hst, hhs]
    have hkeep : (y.step i).slave.wr = some ⟨b.exres, 2#4, false⟩ := by
      change (y.slave.step y.core.out i).wr = some ⟨b.exres, 2#4, false⟩
      simp [Slave.step, haw, hbr, hwready, hwr]
    have hmem : (y.step i).slave.mem = y.slave.mem := by
      change (y.slave.step y.core.out i).mem = y.slave.mem
      simp [Slave.step, hwr, hwready]
    refine ⟨hmem ▸ h.mem, ?_, fun _ => hkeep, ?_, ?_, ?_⟩ <;> simp [hnext, hready]

theorem step_resp (hst : y.core.rw.wState = .resp) : Storing (y.step i) b := by
  have hv : y.core.req.wValid = true := (Core.req_wValid _).trans hw
  obtain ⟨hwr, hmem⟩ := h.resp hst
  have haw : y.core.out.awValid = false := by simp [Core.out, AxiRw.out, hst]
  have hbr : y.core.out.bReady = true := by simp [Core.out, AxiRw.out, hst]
  have hwv : y.core.out.wValid = false := by simp [Core.out, AxiRw.out, hst]
  have hsame : (y.step i).slave.mem = b.stored := by
    change (y.slave.step y.core.out i).mem = b.stored
    simp [Slave.step, hwr, hmem]
  cases hb : y.core.rw.bHs y.core.req i with
  | true =>
    have hbv := (AxiRw.wState_of_bHs hb).2
    have hnext : (y.step i).core.rw.wState = .idle := by
      change y.core.rw.nextW y.core.req i = .idle
      simp [AxiRw.nextW, hv, hst, hb]
    have hnone : (y.step i).slave.wr = none := by
      change (y.slave.step y.core.out i).wr = none
      simp [Slave.step, haw, hbr, hbv]
    exact ⟨.inr hsame, fun _ => hnone, by simp [hnext], by simp [hnext], fun _ => .inl hnext,
      fun _ _ _ => ⟨hsame, hnext⟩⟩
  | false =>
    have hready : (y.step i).core.rw.rwReady = false := (step_rwReady hw).trans hb
    have hbv : i.bValid = false := by simpa [AxiRw.bHs, AxiRw.out, hst] using hb
    have hnext : (y.step i).core.rw.wState = .resp := by
      change y.core.rw.nextW y.core.req i = .resp
      simp [AxiRw.nextW, hv, hst, hb]
    have hkeep : (y.step i).slave.wr = some ⟨b.exres, 2#4, true⟩ := by
      change (y.slave.step y.core.out i).wr = some ⟨b.exres, 2#4, true⟩
      simp [Slave.step, haw, hwv, hbv, hwr]
    refine ⟨.inr hsame, ?_, ?_, fun _ => ⟨hkeep, hsame⟩, ?_, ?_⟩ <;> simp [hnext, hready]

theorem step_wait (hold : y.core.exLs.data.Holds b) : Storing (y.step i) b := by
  cases hst : y.core.rw.wState with
  | idle => exact h.step_idle hw hst
  | addr => exact h.step_addr hw hold hst
  | write => exact h.step_write hw hold hst
  | resp => exact h.step_resp hw hst

end

end Storing

/-- A store comes out of EX. -/
theorem Still.step_enter {y : System} {i : AxiIn} {a b : Arch} (h : Still y a) (hs : b.Same a)
    (ho : Occ y) (hw : y.core.axiSigWrite = false) (hw' : (y.step i).core.axiSigWrite = true)
    (hfl : y.core.flush i = false) (hans : y.storeAnswered i = false) : Storing (y.step i) b := by
  have hstill := h.step (i := i) hw
  have hm' := Core.axiSigMem_of_write hw'
  have hex : y.core.idEx.valid = true := by
    by_contra he
    obtain ⟨hm, hl⟩ := Occ.sigMem_of_step (Bool.eq_false_iff.2 he) hm'
    rw [(ho.same_of_wait hm hl).2.1, hw] at hw'
    exact Bool.false_ne_true hw'
  have hsten : y.core.idEx.data.sten = true := by
    simp only [Core.axiSigWrite, ho.step_exLs_of_ex hex, Bool.and_eq_true] at hw'
    simpa [Core.toExLs, hfl] using hw'.2
  obtain ⟨hm, hr⟩ := ho.ex hex
  refine ⟨.inl (hstill.mem.trans hs.mem.symm), fun _ => hstill.wr, ?_, ?_,
    fun _ => hstill.state, ?_⟩
  · intro hst
    rcases hstill.state with h' | h' <;> rw [h'] at hst <;> cases hst
  · intro hst
    rcases hstill.state with h' | h' <;> rw [h'] at hst <;> cases hst
  · intro hready hbid hwb
    have hd : y.core.rw.rDone y.core.req i = true := (AxiRw.transDone_of_read hw).symm.trans hready
    have hid : i.bId = 2#4 := hbid
    have hold : y.core.lsWb.valid = false := by
      by_contra hv
      have hf : y.core.ifReadyAxi i = false := by simp [Core.ifReadyAxi, hr]
      rw [Occ.step_lsWb_of_wait (Bool.eq_true_of_not_eq_false hv) hf hfl] at hwb
      exact hv hwb
    simp [System.storeAnswered, hex, hsten, hd, hid, hold] at hans

/-- `mtimecmp` is written in the first cycle of a store in MEM, and again while the store is left
in EX/MEM. -/
structure Cmp (y : System) (b a : Arch) : Prop where
  free : y.core.exLs.valid = false → y.core.clint.mtimecmp = a.mtimecmp ∧
    (y.core.mtimecmpEn = true → y.core.exLs.data.rs2 = a.mtimecmp)
  mem : y.core.exLs.valid = true →
    y.core.clint.mtimecmp = a.mtimecmp ∨ y.core.clint.mtimecmp = b.step.mtimecmp

namespace Cmp

variable {y : System} {i : AxiIn} {a b : Arch}

theorem step_clint (y : System) (i : AxiIn) : (y.step i).core.clint.mtimecmp =
    if y.core.mtimecmpEn then y.core.exLs.data.rs2 else y.core.clint.mtimecmp := rfl

theorem step_of_free (h : Cmp y b a) (hm : y.core.exLs.valid = false) :
    (y.step i).core.clint.mtimecmp = a.mtimecmp := by
  obtain ⟨hcmp, hstale⟩ := h.free hm
  rw [step_clint]
  cases hen : y.core.mtimecmpEn with
  | true => exact hstale hen
  | false => exact hcmp

theorem mtimecmpEn_eq (hold : y.core.exLs.data.Holds b) :
    y.core.mtimecmpEn = (oLsuSten b.ins && b.exres == MTIMECMP) := by
  have hsten : y.core.exLs.data.sten = oLsuSten b.ins := congrArg ExLs.sten hold.eq
  rw [Core.mtimecmpEn, hsten]
  cases hst : oLsuSten b.ins with
  | true => rw [hold.exres (not_isCsr_of_sten hst)]
  | false => rfl

theorem rs2_of_en (hold : y.core.exLs.data.Holds b) (hen : y.core.mtimecmpEn = true) :
    y.core.exLs.data.rs2 = b.step.mtimecmp := by
  rw [mtimecmpEn_eq hold] at hen
  have hst : oLsuSten b.ins = true := (Bool.and_eq_true_iff.1 hen).1
  rw [hold.rs2 hst, Arch.step, hen]
  rfl

theorem step_of_mem (h : Cmp y b a) (hold : y.core.exLs.data.Holds b) (hs : b.Same a)
    (hm : y.core.exLs.valid = true) : (y.step i).core.clint.mtimecmp = b.step.mtimecmp := by
  rw [step_clint]
  cases hen : y.core.mtimecmpEn with
  | true => exact rs2_of_en hold hen
  | false =>
    have hsame : b.step.mtimecmp = a.mtimecmp := by
      rw [Arch.step, ← mtimecmpEn_eq hold, hen, ← hs.mtimecmp]
      rfl
    rw [if_neg Bool.false_ne_true]
    exact (h.mem hm).elim (fun hc => hc.trans hsame.symm) id

end Cmp

end Oscpu.Axi
