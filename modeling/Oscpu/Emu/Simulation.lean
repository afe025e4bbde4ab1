import Oscpu.Axi.Bookkeeping
import Oscpu.Emu.Refine

/-!
# The emulator as a run of the core

A store that enters MEM just when a fetch ends may take the completion for its own. In the emulator
no fetch ends then: nothing is answered in the cycle in which it is asked for. So a write is on its
way only while its store waits in MEM, with its address presented, and no read is asked for
meanwhile. What is left of `Tame` is about addresses.
-/

namespace Oscpu.Emu

open Oscpu.Rtl Oscpu.Axi Oscpu.Lib

variable {δ : Type*}

/-! ## Stores that wait for their own response -/

/-- A write in progress is that of the store in MEM. -/
structure Attended (y : System) : Prop where
  store : y.core.rw.wState = .write ∨ y.core.rw.wState = .resp →
    y.core.axiSigWrite = true ∧ ∃ w, y.slave.wr = some w ∧ w.addr = y.core.out.awAddr ∧
      w.dataDone = (y.core.rw.wState == .resp)
  done : y.core.axiSigWrite = true → y.core.rw.rwReady = true → y.core.rw.wState = .idle

namespace Attended

variable {y : System} {i : AxiIn}

theorem afterReset (h : y.AfterReset) : Attended y := by
  constructor
  · simp [h.core.rw, AxiRw.zero]
  · simp [h.core.rw, AxiRw.zero]

/-- The store waits. -/
theorem not_exReady (h : Attended y) (hw : y.core.axiSigWrite = true)
    (hst : y.core.rw.wState ≠ .idle) : y.core.exReady i = false := by
  by_contra hl
  have hready := (Occ.ready_of_leave (Core.axiSigMem_of_write hw)
    (Bool.eq_true_of_not_eq_false hl)).1
  exact hst (h.done hw (Occ.ready_of_mem hready).2.2)

/-- While it waits it asks for the same. -/
theorem step_req (ho : Occ y) (hw : y.core.axiSigWrite = true)
    (hl : y.core.exReady i = false) : (y.step i).core.req = y.core.req := by
  have heq := ho.step_exLs_of_wait (Core.axiSigMem_of_write hw) hl
  have hm : y.core.axiSigMem = true := Core.axiSigMem_of_write hw
  have hm' : (y.step i).core.axiSigMem = true := by
    rw [Core.axiSigMem, heq]
    exact hm
  have hsten : y.core.exLs.data.sten = true := by simpa [Core.axiSigWrite, hm] using hw
  simp only [Core.req, hm, hm', heq, hsten, Core.axiSigWrite, Core.memWdata, Core.memWmask,
    ↓reduceIte]

/-- A store comes to MEM from EX. -/
theorem ex_of_enter (hw : y.core.axiSigWrite = false)
    (hw' : (y.step i).core.axiSigWrite = true) : y.core.idEx.valid = true := by
  by_contra hex
  have he : y.core.idEx.valid = false := by simpa using hex
  have hv := Occ.step_mem_of_not_ex (i := i) he
  have hd := Occ.step_exLs_of_stay (i := i) he
  simp only [Core.axiSigWrite, Core.axiSigMem, hv, hd] at hw hw'
  cases hr : y.core.exReady i with
  | true => simp [hr] at hw'
  | false =>
    have hval : y.core.exLs.valid = true := by
      by_contra hno
      simp [Core.exReady, Stage.ready, hno] at hr
    cases hfl : y.core.flush i with
    | true => simp [hr, hfl, ExLs.zero] at hw'
    | false =>
      simp only [hr, hfl, Bool.not_false, Bool.false_eq_true, ↓reduceIte] at hw'
      rw [hval] at hw
      rw [hw] at hw'
      cases hw'

/-- A clock edge at which no read ends while a store is in EX. -/
theorem step (h : Attended y) (ho : Occ y)
    (hex : y.core.idEx.valid = true → i.rValid = false) : Attended (y.step i) := by
  have hst' : (y.step i).core.rw.wState = y.core.rw.nextW y.core.req i := rfl
  constructor
  · intro hs
    -- a store that has not been answered stays in MEM
    have hstays (hw : y.core.axiSigWrite = true) (hne : y.core.rw.wState ≠ .idle) :
        (y.step i).core.axiSigWrite = true ∧
          (y.step i).core.out.awAddr = y.core.out.awAddr := by
      have hl := h.not_exReady (i := i) hw hne
      exact ⟨Books.step_axiSigWrite ho hw hl, congrArg RwReq.addr (step_req ho hw hl)⟩
    rw [hst'] at hs ⊢
    cases hst : y.core.rw.wState with
    | idle =>
      cases hv : y.core.req.wValid <;> simp [AxiRw.nextW, hst, hv] at hs
    | addr =>
      cases hv : y.core.req.wValid with
      | false => simp [AxiRw.nextW, hst, hv] at hs
      | true =>
        cases hhs : y.core.rw.awHs y.core.req i with
        | false => simp [AxiRw.nextW, hst, hv, hhs] at hs
        | true =>
          have hw : y.core.axiSigWrite = true := (Core.req_wValid _).symm.trans hv
          obtain ⟨hw', haddr⟩ := hstays hw (by simp [hst])
          have haw : (i.awReady && y.core.out.awValid) = true := hhs
          refine ⟨hw', ⟨y.core.out.awAddr, y.core.out.awId, false⟩, ?_, haddr.symm, ?_⟩
          · change (y.slave.step y.core.out i).wr = _
            simp [Slave.step, haw]
          · simp [AxiRw.nextW, hst, hv, hhs]
    | write =>
      obtain ⟨hw, w, hwr, haddr, hdone⟩ := h.store (.inl hst)
      obtain ⟨hw', haddr'⟩ := hstays hw (by simp [hst])
      have hv : y.core.req.wValid = true := (Core.req_wValid _).trans hw
      have haw : y.core.out.awValid = false := by simp [Core.out, AxiRw.out, hst]
      have hb : y.core.out.bReady = false := by simp [Core.out, AxiRw.out, hst]
      have hwv : y.core.out.wValid = true := by simp [Core.out, AxiRw.out, hst]
      have hd : w.dataDone = false := by
        rw [hdone, hst]
        rfl
      cases hhs : i.wReady with
      | true =>
        refine ⟨hw', { w with dataDone := true }, ?_, haddr.trans haddr'.symm, ?_⟩
        · change (y.slave.step y.core.out i).wr = _
          simp [Slave.step, haw, hb, hhs, hwv, hwr]
        · simp [AxiRw.nextW, hst, hv, AxiRw.wHs, AxiRw.out, hhs]
      | false =>
        refine ⟨hw', w, ?_, haddr.trans haddr'.symm, ?_⟩
        · change (y.slave.step y.core.out i).wr = _
          simp [Slave.step, haw, hb, hhs, hwr]
        · simp [AxiRw.nextW, hst, hv, AxiRw.wHs, AxiRw.out, hhs, hd]
    | resp =>
      obtain ⟨hw, w, hwr, haddr, hdone⟩ := h.store (.inr hst)
      obtain ⟨hw', haddr'⟩ := hstays hw (by simp [hst])
      have hv : y.core.req.wValid = true := (Core.req_wValid _).trans hw
      have haw : y.core.out.awValid = false := by simp [Core.out, AxiRw.out, hst]
      have hbr : y.core.out.bReady = true := by simp [Core.out, AxiRw.out, hst]
      have hwv : y.core.out.wValid = false := by simp [Core.out, AxiRw.out, hst]
      cases hb : i.bValid with
      | true =>
        have hhs : y.core.rw.bHs y.core.req i = true := by
          simp [AxiRw.bHs, AxiRw.out, hst, hb]
        simp [AxiRw.nextW, hst, hv, hhs] at hs
      | false =>
        refine ⟨hw', w, ?_, haddr.trans haddr'.symm, ?_⟩
        · change (y.slave.step y.core.out i).wr = _
          simp [Slave.step, haw, hb, hwv, hwr]
        · rw [hdone]
          simp [AxiRw.nextW, hst, hv, AxiRw.bHs, AxiRw.out, hb]
  · intro hw' hr'
    have hd : y.core.rw.transDone y.core.req i = true := hr'
    cases hw : y.core.axiSigWrite with
    | true =>
      rw [hst']
      exact AxiRw.nextW_of_bHs ((Core.req_wValid _).trans hw)
        ((AxiRw.transDone_of_write hw).symm.trans hd)
    | false =>
      have hv := (AxiRw.rValid_of_rDone ((AxiRw.transDone_of_read hw).symm.trans hd)).1
      rw [hex (ex_of_enter hw hw')] at hv
      cases hv

/-- While the data of a store is offered, so is its address. -/
theorem of_wValid (h : Attended y) (hw : y.core.out.wValid = true) :
    ∃ w, y.slave.wr = some w ∧ w.addr = y.core.out.awAddr ∧ w.dataDone = false := by
  have hst : y.core.rw.wState = .write := by simpa [Core.out, AxiRw.out] using hw
  obtain ⟨-, w, hwr, haddr, hdone⟩ := h.store (.inl hst)
  exact ⟨w, hwr, haddr, by rw [hdone, hst]; rfl⟩

/-- No address of a read is offered while a write is in progress. -/
theorem wr_of_arValid (h : Attended y) (hout : Outstanding y)
    (har : y.core.out.arValid = true) : y.slave.wr = none := by
  by_contra hwr
  have hw := (h.store (hout.wr hwr)).1
  have hv : y.core.req.rValid = true := by
    simp only [Core.out, AxiRw.out, Bool.and_eq_true] at har
    exact har.2
  rw [Core.req_rValid, hw] at hv
  cases hv

end Attended

/-! ## The memory takes its time -/

section

variable [CoDRAMsim3 δ Dramsim3Meta] [LawfulCoDRAMsim3 δ] [DelayedCoDRAMsim3 δ]

open DelayedCoDRAMsim3

namespace RamSlave

variable {s s' : RamSlave δ} {axi : AxiChannel} {env : DramEnv}

theorem late_submit (h : Late s.dram) : Late (s.submit env).dram := by
  unfold submit
  split
  · exact h
  · exact add_late _ _ h

theorem quiet_submit (h : Late s.dram) (hq : Quiet s.dram) : Quiet (s.submit env).dram := by
  unfold submit
  split
  · exact hq
  · exact add_quiet _ h hq

theorem late_helperRising (h : Late s.dram) (hs : s.helperRising axi env = some s') :
    Late s'.dram := by
  obtain ⟨s₆, hchan, rfl⟩ := helperRising_eq_some hs
  obtain ⟨s₁, s₂, s₃, s₄, s₅, h₁, h₂, h₃, h₄, h₅, h₆⟩ := riseChannels_eq_some hchan
  apply late_submit
  rw [riseW_spec h₆, riseAw_spec h₅, riseB_spec h₄]
  have hl₂ : Late s₂.dram := by
    rw [riseR_spec h₂]
    exact tick_late (tick_spec h₁).1 h
  unfold riseAr at h₃
  split at h₃
  · obtain ⟨req, -, rfl⟩ := Option.map_eq_some_iff.1 h₃
    exact add_late _ _ hl₂
  · cases h₃
    exact hl₂

theorem late_falling (h : Late s.dram) : Late (s.falling axi env).1.dram := by
  have hR : Late s.fetchR.dram := by
    unfold fetchR
    split
    · split
      · exact h
      · rename_i hr
        exact read_late hr h
    · exact h
  change Late s.fetchR.fetchB.dram
  unfold fetchB
  split
  · split
    · exact hR
    · rename_i hb
      exact write_late hb hR
  · exact hR

/-- After a cycle that starts without reads there is no response yet. -/
theorem waitRespR_of_reads (h : Late s.dram) (hv : axi.r.valid = false) (hr : s.reads = [])
    (hs : s.helperRising axi env = some s') (axi' : AxiChannel) :
    (s'.falling axi' env).1.waitRespR = none := by
  obtain ⟨hwait, hpend⟩ := List.append_eq_nil_iff.1 hr
  have hwait : s.waitRespR = none := by simpa using hwait
  obtain ⟨s₆, hchan, rfl⟩ := helperRising_eq_some hs
  obtain ⟨s₁, s₂, s₃, s₄, s₅, h₁, h₂, h₃, h₄, h₅, h₆⟩ := riseChannels_eq_some hchan
  have hl₁ : Late s₁.dram := tick_late (tick_spec h₁).1 h
  have hq₁ : Quiet s₁.dram := by
    refine quiet_of_none (List.perm_nil.1 ?_)
    rw [← hpend]
    exact LawfulCoDRAMsim3.tick_pending false (tick_spec h₁).1
  have h₂' : s₂ = s₁ := by
    rw [riseR, AxiChannel.rdataFire, hv, Bool.and_false] at h₂
    exact (Option.some.inj h₂).symm
  have h₃' : Late s₃.dram ∧ Quiet s₃.dram := by
    rw [h₂'] at h₃
    unfold riseAr at h₃
    split at h₃
    · obtain ⟨req, -, rfl⟩ := Option.map_eq_some_iff.1 h₃
      exact ⟨add_late _ _ hl₁, add_quiet _ hl₁ hq₁⟩
    · cases h₃
      exact ⟨hl₁, hq₁⟩
  have h₆' : s₆.dram = s₃.dram ∧ s₆.waitRespR = none := by
    rw [riseW_spec h₆, riseAw_spec h₅, riseB_spec h₄]
    refine ⟨rfl, ?_⟩
    change s₃.waitRespR = none
    rw [riseAr_spec h₃, h₂', (tick_spec h₁).2]
    exact hwait
  have hq : Quiet (s₆.submit env).dram := quiet_submit (h₆'.1 ▸ h₃'.1) (h₆'.1 ▸ h₃'.2)
  have hw : (s₆.submit env).waitRespR = none := by
    unfold submit
    split
    · exact h₆'.2
    · exact h₆'.2
  change ((s₆.submit env).fetchR.fetchB).waitRespR = none
  rw [(Offers.fetchB_fields _).1]
  simp [fetchR, hw, read_quiet hq]

end RamSlave

namespace Emulator

/-- In this cycle nothing goes beyond the RAM. The RAM words in `T` are not written, so that they may
be read under other addresses as well; and a word is not written while it is being read. -/
structure Within (T : Nat → Prop) (e : Emulator δ) (_ : DramEnv) : Prop where
  read : e.bench.axi.raddrFire = true →
    ramIdx (e.core.out.arAddr - 0x80000000#64) + e.core.out.arLen.toNat < EMU_RAM_SIZE / 8 ∧
    ∀ k ≤ e.core.out.arLen.toNat, Covered T (Mem.wordIdx e.core.out.arAddr + BitVec.ofNat 64 k)
  write : e.bench.axi.wdataFire = true →
    InWindow (Mem.wordIdx e.core.out.awAddr) ∧ ¬ T (wordAlias (Mem.wordIdx e.core.out.awAddr)) ∧
    ∀ rd ∈ e.bench.slave.reads, ∀ k < rd.metaData.len.toNat,
      ramIdx rd.address + k ≠ wordAlias (Mem.wordIdx e.core.out.awAddr)

omit [DelayedCoDRAMsim3 δ] in
theorem within_iff {T : Nat → Prop} {e : Emulator δ} {env : DramEnv} : e.Within T env ↔
    (e.bench.axi.raddrFire = true →
      ramIdx (e.core.out.arAddr - 0x80000000#64) + e.core.out.arLen.toNat < EMU_RAM_SIZE / 8 ∧
      ∀ k ≤ e.core.out.arLen.toNat,
        Covered T (Mem.wordIdx e.core.out.arAddr + BitVec.ofNat 64 k)) ∧
    (e.bench.axi.wdataFire = true →
      InWindow (Mem.wordIdx e.core.out.awAddr) ∧
      ¬ T (wordAlias (Mem.wordIdx e.core.out.awAddr)) ∧
      ∀ rd ∈ e.bench.slave.reads, ∀ k < rd.metaData.len.toNat,
        ramIdx rd.address + k ≠ wordAlias (Mem.wordIdx e.core.out.awAddr)) :=
  ⟨fun h => ⟨h.read, h.write⟩, fun h => ⟨h.1, h.2⟩⟩

instance (T : Nat → Prop) [DecidablePred T] (e : Emulator δ) (env : DramEnv) :
    Decidable (e.Within T env) := decidable_of_iff' _ within_iff

/-- What holds of the emulator beside `Sim`. -/
structure Runs (T : Nat → Prop) (e : Emulator δ) (y : System) : Prop where
  sim : Sim T e y
  occ : Occ y
  attended : Attended y
  late : Late e.bench.slave.dram
  /-- While an instruction is in EX no read is answered. -/
  calm : e.core.idEx.valid = true → e.bench.slave.waitRespR = none

namespace Runs

variable {T : Nat → Prop} {e e' : Emulator δ} {y : System} {env : DramEnv}

theorem not_rValid (h : Runs T e y) (hex : y.core.idEx.valid = true) :
    e.inputs.rValid = false := by
  rw [h.sim.core] at hex
  change e.bench.axi.r.valid = false
  rw [h.sim.offers.r, h.calm hex]
  rfl

theorem tame (h : Runs T e y) (hw : e.Within T env) : e.Tame T env := by
  have hd := h.sim.driven
  obtain ⟨hfAr, -, -, hfW, -⟩ := fires hd
  have hwrites := h.sim.slave.writes
  constructor
  · intro hf
    have har : e.bench.axi.ar.addr = e.core.out.arAddr - 0x80000000#64 :=
      congrArg MasterOut.arAddr hd
    rw [har]
    refine ⟨(hw.read hf).1, fun k hk => ⟨(hw.read hf).2 k hk, fun req hreq => ?_⟩⟩
    have hv : y.core.out.arValid = true := by
      rw [h.sim.core]
      rw [hfAr, Bool.and_eq_true] at hf
      exact hf.2
    rw [h.attended.wr_of_arValid h.sim.outstanding hv] at hwrites
    rw [List.forall₂_nil_right_iff.1 hwrites] at hreq
    cases hreq
  · intro hf req hreq
    have hv : y.core.out.wValid = true := by
      rw [h.sim.core]
      rw [hfW, Bool.and_eq_true] at hf
      exact hf.2
    obtain ⟨w, hwr, haddr, hdone⟩ := h.attended.of_wValid hv
    rw [hwr] at hwrites
    obtain ⟨-, w', hw', hrel⟩ :=
      eq_singleton_of_mem (o := some w) hwrites (a := req) (by simp [RamSlave.writes, hreq])
    cases hw'
    rw [h.sim.core] at haddr
    have hreqaddr : req.address = e.core.out.awAddr - 0x80000000#64 := hrel.address.trans (by rw [haddr])
    have haw : e.bench.axi.aw.addr = req.address := (congrArg MasterOut.awAddr hd).trans hreqaddr.symm
    have hidx : wordAlias (Mem.wordIdx e.core.out.awAddr) = ramIdx req.address := by
      rw [wordAlias_wordIdx, hreqaddr]
    obtain ⟨hwin, hT, hrd⟩ := hw.write hf
    rw [hidx] at hT hrd
    refine ⟨?_, by rw [haw], ?_, hT, hrd⟩
    · have := hrel.done
      rw [hdone] at this
      simpa using this.symm
    · rw [hreqaddr, BitVec.sub_add_cancel]
      exact hwin

/-- **A cycle of the emulator.** -/
theorem step (h : Runs T e y) (hw : e.Within T env) (hs : e.step env = some e') :
    Runs T e' (y.step e.inputs) := by
  have hsim := h.sim.step (h.tame hw) hs
  obtain ⟨hcore, hcycle⟩ := step_eq_some hs
  obtain ⟨s, hrise, hslave, -⟩ := Bench.cycle_eq_some hcycle
  refine ⟨hsim, h.occ.step h.sim.ok, h.attended.step h.occ h.not_rValid, ?_, fun hex => ?_⟩
  · rw [hslave]
    exact RamSlave.late_falling (RamSlave.late_helperRising h.late hrise)
  · rw [hslave]
    rw [← hsim.core, h.occ.step_ex] at hex
    obtain ⟨-, -, -, hrd⟩ := h.occ.id hex
    have hreads := h.sim.slave.reads
    rw [hrd] at hreads
    have hnil : e.bench.slave.reads = [] := List.forall₂_nil_right_iff.1 hreads
    refine RamSlave.waitRespR_of_reads h.late ?_ hnil hrise _
    have hnone : e.bench.slave.waitRespR = none := by
      obtain ⟨hwait, -⟩ := List.append_eq_nil_iff.1 hnil
      simpa using hwait
    rw [h.sim.offers.r, hnone]
    rfl

end Runs

/-! ## Whole runs -/

/-- The core, beside a slave with the memory as it has been written. -/
def system (e : Emulator δ) : System where
  core := e.core
  slave :=
    { mem := fun k => e.bench.slave.view (wordAlias k)
      rd := none
      wr := none
      rid := e.bench.axi.r.id.setWidth 4
      bid := e.bench.axi.b.id.setWidth 4 }

/-- The emulator before its first cycle. -/
structure AfterReset (e : Emulator δ) : Prop where
  core : e.core.AfterReset
  bench : ∃ ram dram, e.bench = Bench.start ram dram (masterOut e.core.out) ∧ Late dram ∧
    ∀ w, LawfulCoDRAMsim3.pending w dram = []

namespace AfterReset

variable {e : Emulator δ}

theorem writes (h : e.AfterReset) : e.bench.slave.writes = [] := by
  obtain ⟨ram, dram, hb, -, hp⟩ := h.bench
  simp [hb, Bench.start, RamSlave.init, RamSlave.writes, RamSlave.sent, hp]

theorem reads (h : e.AfterReset) : e.bench.slave.reads = [] := by
  obtain ⟨ram, dram, hb, -, hp⟩ := h.bench
  simp [hb, Bench.start, RamSlave.init, RamSlave.reads, hp]

theorem view (h : e.AfterReset) : e.bench.slave.view = e.bench.slave.ram := by
  rw [RamSlave.view, h.writes]
  rfl

theorem system (h : e.AfterReset) : e.system.AfterReset := ⟨h.core, rfl, rfl⟩

theorem runs (h : e.AfterReset) (T : Nat → Prop) : Runs T e e.system := by
  obtain ⟨ram, dram, hb, hlate, -⟩ := h.bench
  have hoffers : Offers e.bench.slave e.bench.axi := by
    rw [hb]
    exact ⟨rfl, nofun, rfl, nofun, nofun, nofun⟩
  have hrel : SlaveRel T e.bench.slave e.system.slave := by
    refine ⟨?_, ?_, ?_, fun k _ => rfl⟩
    · rw [h.reads]
      exact .nil
    · rw [h.writes]
      exact .nil
    · have hsent := (List.append_eq_nil_iff.1 h.writes).1
      rw [hsent]
      simp
  refine ⟨⟨rfl, ?_, hoffers, hrel, Outstanding.afterReset h.system, ?_⟩, Occ.afterReset h.system,
    Attended.afterReset h.system, ?_, ?_⟩
  · rw [hb]
    rfl
  · exact hrel.drives hoffers (fun _ => rfl) fun _ => rfl
  · rw [hb]
    exact hlate
  · intro _
    rw [hb]
    rfl

end AfterReset

theorem afterReset_boot {latency : Nat} (h : 0 < latency) (words : List Word) :
    (boot latency words).AfterReset where
  core := (System.afterReset_boot true (fun _ => 0#64) 0#4 0#4 fun _ => 0#64).core
  bench := ⟨_, _, rfl, h, fun _ => rfl⟩

variable {T : Nat → Prop} {e₀ e : Emulator δ} {env : Nat → DramEnv} {n : Nat}

/-- A run of the emulator is one of the core with the slave, state by state. -/
theorem runs_of_reaches (h₀ : e₀.AfterReset) (hw : Meets step (Within T) e₀ env n)
    (h : Reaches step e₀ env n e) :
    Runs T e (run System.step e₀.system (e₀.inputsAt env) n) ∧
      Admits System.step System.Ok e₀.system (e₀.inputsAt env) n := by
  refine h.induct (P := fun k e => Runs T e (run System.step e₀.system (e₀.inputsAt env) k) ∧
    Admits System.step System.Ok e₀.system (e₀.inputsAt env) k) ?_ ⟨h₀.runs T, nofun⟩
  intro k e e' hk hreach ⟨hruns, hadm⟩ hs
  have hin := inputsAt_eq hreach
  refine ⟨?_, fun j hj => ?_⟩
  · rw [run_succ, hin]
    exact hruns.step (hw k hk e hreach) hs
  · rcases Nat.lt_succ_iff_lt_or_eq.1 hj with hlt | rfl
    · exact hadm j hlt
    · rw [hin]
      exact hruns.sim.ok

/-- **The emulator simulates the core in an AXI system.** As long as the addresses stay within the
RAM, some compliant slave behaviour takes the core through the states that the emulator goes through,
and what that slave holds is what the RAM will hold when the write in progress is flushed. -/
theorem simulates (h₀ : e₀.AfterReset) (hw : Meets step (Within T) e₀ env n)
    (h : Reaches step e₀ env n e) :
    ∃ y : System, y.Reachable ∧ y.core = e.core ∧
      ∀ k, Covered T k → y.slave.mem k = e.bench.slave.view (wordAlias k) := by
  obtain ⟨hruns, hadm⟩ := runs_of_reaches h₀ hw h
  exact ⟨_, ⟨e₀.system, e₀.inputsAt env, n, h₀.system, hadm, rfl⟩, hruns.sim.core,
    hruns.sim.slave.mem⟩

/-- `addi x5, x0, 1`, `slli x5, x5, 31` and `sd x5, 64(x5)`. -/
def storeWord : Emulator (SimpleCoDRAMsim3 Dramsim3Meta) :=
  boot 1 [0x01f2929300100293#64, 0x0000006f0452b023#64]

theorem storeWord_run :
    (run (lift step) (some storeWord) (fun _ => .ready) 23).isSome = true := by decide +kernel

/-- The store has its data and waits for the response. -/
theorem simulates_storeWord : ∃ e, Reaches step storeWord (fun _ => .ready) 23 e ∧
    e.bench.slave.view 8 = 0x80000000#64 ∧ e.bench.slave.ram 8 = 0#64 ∧
    ∃ y : System, y.Reachable ∧ y.core = e.core ∧
      ∀ k, Covered (· < 4) k → y.slave.mem k = e.bench.slave.view (wordAlias k) :=
  ⟨_, reaches_get storeWord_run, by decide +kernel, by decide +kernel,
    simulates (afterReset_boot (by decide) _) (by decide +kernel) (reaches_get storeWord_run)⟩

end Emulator

end

end Oscpu.Emu
