import Oscpu.Emu.Simulation

/-!
# Stores that cross a word

The core asks for two beats then, but sends one and waits for the response; `ram.cpp` waits for the
second beat. Neither gives up.
-/

namespace Oscpu.Emu

open Oscpu.Rtl Oscpu.Axi Oscpu.Lib

variable {δ : Type*}

section

variable [CoDRAMsim3 δ Dramsim3Meta] [LawfulCoDRAMsim3 δ]

open LawfulCoDRAMsim3

namespace RamSlave

variable {s s' : RamSlave δ} {axi : AxiChannel} {env : DramEnv} {req : Request}

theorem takeBeat_len {ram : RamWords} {req' : Request} (h : takeBeat ram axi req = some req') :
    req'.metaData.len = req.metaData.len := by
  obtain ⟨w, -, rfl⟩ := takeBeat_eq_some h
  rfl

theorem writes_submit (hw : ∀ req, s.waitReqW = some req → req.isWrite = true) :
    (s.submit env).writes.Perm s.writes := by
  unfold submit
  split
  · exact .refl _
  · rename_i req hreq
    obtain ⟨hwait, -⟩ := complete_eq_some hreq
    have hadd := add_pending true s.dram req
    rw [if_pos (hw req hwait)] at hadd
    simp only [writes, sent, hwait, Option.toList_none, Option.toList_some, List.append_nil]
    refine (hadd.append_left _).trans ?_
    rw [List.append_assoc]
    exact (List.perm_append_singleton req _).symm.append_left _

theorem writes_fetchR (s : RamSlave δ) : s.fetchR.writes.Perm s.writes := by
  unfold fetchR
  split
  · split
    · exact .refl _
    · rename_i resp d hresp
      exact ((read_pending hresp).2.append_left _).append_right _
  · exact .refl _

theorem writes_fetchB (s : RamSlave δ) : s.fetchB.writes.Perm s.writes := by
  unfold fetchB
  split
  · rename_i hnone
    split
    · exact .refl _
    · rename_i resp d hresp
      have hp := (write_pending hresp).1.symm
      simp only [writes, sent, Option.isNone_iff_eq_none.1 hnone]
      exact hp.append_right _
  · exact .refl _

theorem writes_riseW (h : s.riseW axi = some s') (hmem : req ∈ s'.writes) :
    ∃ req₀ ∈ s.writes, req.metaData.len = req₀.metaData.len ∧ req.isWrite = req₀.isWrite := by
  unfold riseW at h
  split at h
  · obtain ⟨req₁, hreq₁, h⟩ := Option.bind_eq_some_iff.1 h
    obtain ⟨req₂, hbeat, rfl⟩ := Option.map_eq_some_iff.1 h
    rcases List.mem_append.1 hmem with hsent | hwait
    · exact ⟨req, List.mem_append_left _ hsent, rfl, rfl⟩
    · cases List.mem_singleton.1 hwait
      refine ⟨req₁, List.mem_append_right _ (by simp [hreq₁]), takeBeat_len hbeat, ?_⟩
      obtain ⟨w, -, rfl⟩ := takeBeat_eq_some hbeat
      rfl
  · cases h
    exact ⟨req, hmem, rfl, rfl⟩

theorem mem_writes_riseAw (h : s.riseAw axi env = some s') (hmem : req ∈ s'.writes) :
    req ∈ s.writes ∨ (axi.aw.valid && axi.aw.ready) = true ∧
      req.metaData.len = axi.aw.len + 1#8 ∧ req.isWrite = true := by
  rw [riseAw_spec h] at hmem
  rcases List.mem_append.1 hmem with hsent | hwait
  · exact .inl (List.mem_append_left _ hsent)
  · simp only [written] at hwait
    split at hwait
    · rename_i hfire
      cases List.mem_singleton.1 hwait
      exact .inr ⟨hfire, rfl, rfl⟩
    · exact .inl (List.mem_append_right _ hwait)

theorem mem_writes_riseB (h : s.riseB axi = some s') (hmem : req ∈ s'.writes) :
    req ∈ s.writes := by
  cases hf : axi.wackFire with
  | false =>
    obtain rfl := riseB_of_not_fire hf h
    exact hmem
  | true =>
    obtain ⟨resp, -, rfl⟩ := riseB_of_fire hf h
    simp only [writes, sent, Option.map_none, Option.toList_none, List.nil_append] at hmem ⊢
    rw [List.append_assoc]
    exact List.mem_append_right _ hmem

theorem writes_riseAr (h : s.riseAr axi env = some s') : s'.writes.Perm s.writes := by
  unfold riseAr at h
  split at h
  · obtain ⟨req, hreq, rfl⟩ := Option.map_eq_some_iff.1 h
    have hadd := add_pending true s.dram req
    rw [if_neg (by simp [(readRequest_fields hreq).1])] at hadd
    exact (hadd.append_left _).append_right _
  · cases h
    exact .refl _

/-- A write in progress has been so before, with as many beats, or its address has just been
taken. -/
theorem mem_writes_helperRising (h : s.helperRising axi env = some s')
    (hk : ∀ req ∈ s.writes, req.isWrite = true) (hmem : req ∈ s'.writes) :
    (∃ req₀ ∈ s.writes, req.metaData.len = req₀.metaData.len) ∨
      (axi.aw.valid && axi.aw.ready) = true ∧ req.metaData.len = axi.aw.len + 1#8 := by
  obtain ⟨s₆, hchan, rfl⟩ := helperRising_eq_some h
  obtain ⟨s₁, s₂, s₃, s₄, s₅, h₁, h₂, h₃, h₄, h₅, h₆⟩ := riseChannels_eq_some hchan
  have hback {req : Request} (hreq : req ∈ s₄.writes) : req ∈ s.writes := by
    have h₃' := (writes_riseAr h₃).subset (mem_writes_riseB h₄ hreq)
    rw [riseR_spec h₂] at h₃'
    have hdram : s₁.writes.Perm s.writes := by
      rw [(tick_spec h₁).2]
      exact ((tick_pending true (tick_spec h₁).1).append_left _).append_right _
    exact hdram.subset h₃'
  have hfrom {req : Request} (hreq : req ∈ s₆.writes) :
      (∃ req₀ ∈ s.writes, req.metaData.len = req₀.metaData.len ∧ req.isWrite = true) ∨
        (axi.aw.valid && axi.aw.ready) = true ∧ req.metaData.len = axi.aw.len + 1#8 ∧
          req.isWrite = true := by
    obtain ⟨req₁, hreq₁, hlen, hw⟩ := writes_riseW h₆ hreq
    rcases mem_writes_riseAw h₅ hreq₁ with hold | ⟨hfire, hlen₁, hw₁⟩
    · have hold := hback hold
      exact .inl ⟨req₁, hold, hlen, hw.trans (hk _ hold)⟩
    · exact .inr ⟨hfire, hlen.trans hlen₁, hw.trans hw₁⟩
  have hsubmit : (s₆.submit env).writes.Perm s₆.writes := writes_submit fun req hreq => by
    have hin : req ∈ s₆.writes := List.mem_append_right _ (by simp [hreq])
    rcases hfrom hin with ⟨-, -, -, hw⟩ | ⟨-, -, hw⟩ <;> exact hw
  rcases hfrom (hsubmit.subset hmem) with ⟨req₀, hreq₀, hlen, -⟩ | ⟨hfire, hlen, -⟩
  · exact .inl ⟨req₀, hreq₀, hlen⟩
  · exact .inr ⟨hfire, hlen⟩

omit [LawfulCoDRAMsim3 δ] in
theorem ram_submit (s : RamSlave δ) (env : DramEnv) : (s.submit env).ram = s.ram := by
  unfold submit
  split <;> rfl

omit [LawfulCoDRAMsim3 δ] in
theorem ram_helperRising (h : s.helperRising axi env = some s') (hb : axi.wackFire = false) :
    s'.ram = s.ram := by
  obtain ⟨s₆, hchan, rfl⟩ := helperRising_eq_some h
  obtain ⟨s₁, s₂, s₃, s₄, s₅, h₁, h₂, h₃, h₄, h₅, h₆⟩ := riseChannels_eq_some hchan
  rw [ram_submit, riseW_spec h₆, riseAw_spec h₅, riseB_of_not_fire hb h₄, riseAr_spec h₃,
    riseR_spec h₂, (tick_spec h₁).2]

omit [LawfulCoDRAMsim3 δ] in
theorem ram_falling (s : RamSlave δ) (axi : AxiChannel) (env : DramEnv) :
    (s.falling axi env).1.ram = s.ram := by
  change s.fetchR.fetchB.ram = s.ram
  have hR : s.fetchR.ram = s.ram := by
    unfold fetchR
    split
    · split <;> rfl
    · rfl
  rw [← hR]
  unfold fetchB
  split
  · split <;> rfl
  · rfl

end RamSlave

end

/-- A write in progress behind an edge is that of a store that waits at the edge. -/
theorem Attended.wait_of_step {y : System} {i : AxiIn} (h : Attended y)
    (hst : (y.step i).core.rw.wState = .write ∨ (y.step i).core.rw.wState = .resp) :
    y.core.axiSigWrite = true ∧ y.core.exReady i = false := by
  have hold : y.core.axiSigWrite = true ∧ y.core.rw.wState ≠ .idle := by
    change y.core.rw.nextW y.core.req i = .write ∨ y.core.rw.nextW y.core.req i = .resp at hst
    cases hw : y.core.axiSigWrite with
    | true =>
      have hv : y.core.req.wValid = true := (Core.req_wValid _).trans hw
      refine ⟨rfl, fun hidle => ?_⟩
      simp [AxiRw.nextW, hv, hidle] at hst
    | false =>
      have hv : y.core.req.wValid = false := (Core.req_wValid _).trans hw
      simp only [AxiRw.nextW, hv, Bool.false_eq_true, if_false] at hst
      rw [(h.store hst).1] at hw
      cases hw
  exact ⟨hold.1, h.not_exReady hold.1 hold.2⟩

/-- What a store asks for is in EX/MEM. -/
theorem store_congr {s s' : Core} (h : s'.exLs = s.exLs) (hw : s.axiSigWrite = true) :
    s'.axiSigWrite = true ∧ s'.out.awLen = s.out.awLen := by
  have hw' : s'.axiSigWrite = true := by
    rw [← hw]
    simp only [Core.axiSigWrite, Core.axiSigMem, h]
  have hm := Core.axiSigMem_of_write hw
  have hm' := Core.axiSigMem_of_write hw'
  refine ⟨hw', ?_⟩
  simp only [Core.out, AxiRw.out, RwReq.axiLen, RwReq.aligned, RwReq.overstep, RwReq.addrEnd,
    Core.req, hm, hm', h, if_true]

namespace Emulator

section

variable [CoDRAMsim3 δ Dramsim3Meta] [LawfulCoDRAMsim3 δ] [DelayedCoDRAMsim3 δ]
  {T : Nat → Prop} {e₀ e e' : Emulator δ} {y : System} {v : DramEnv} {env : Nat → DramEnv}
  {n m : Nat}

/-- A write in progress has the length that the store in MEM asks for; and a store whose answer is
there asks for one beat. -/
structure Stamped (e : Emulator δ) : Prop where
  len : ∀ req ∈ e.bench.slave.writes, req.metaData.len = e.core.out.awLen + 1#8
  done : e.core.axiSigWrite = true → e.core.rw.rwReady = true → e.core.out.awLen = 0#8

namespace Stamped

omit [DelayedCoDRAMsim3 δ] in
theorem not_exReady (h : Stamped e) (hw : e.core.axiSigWrite = true)
    (hlen : e.core.out.awLen ≠ 0#8) (i : AxiIn) : e.core.exReady i = false := by
  by_contra hl
  have hready := (Occ.ready_of_leave (y := e.system) (Core.axiSigMem_of_write hw)
    (Bool.eq_true_of_not_eq_false hl)).1
  exact hlen (h.done hw (Occ.ready_of_mem hready).2.2)

/-- What has been sent has a single beat. -/
theorem awLen_of_sent (h : Stamped e) (hr : Runs T e y) {req : Request}
    (hreq : req ∈ e.bench.slave.sent) : e.core.out.awLen = 0#8 := by
  have hmem : req ∈ e.bench.slave.writes := List.mem_append_left _ hreq
  obtain ⟨-, w, -, hrel⟩ := eq_singleton_of_mem hr.sim.slave.writes hmem
  have hlen := h.len req hmem
  have hoff := hr.sim.slave.sent req hreq
  rcases hrel.one with h0 | h1
  · exact absurd (hoff.symm.trans h0) hrel.len
  · rw [← hoff, h1] at hlen
    bv_omega

theorem step (h : Stamped e) (hr : Runs T e y) (hr' : Runs T e' (y.step e.inputs))
    (hs : e.step v = some e') : Stamped e' := by
  obtain ⟨hcore, hcycle⟩ := step_eq_some hs
  obtain ⟨s, hrise, hslave, -⟩ := Bench.cycle_eq_some hcycle
  have hcore' : e'.core = (y.step e.inputs).core := hr'.sim.core.symm
  have hreq_eq (hw : e.core.axiSigWrite = true) (hl : e.core.exReady e.inputs = false) :
      e'.core.out.awLen = e.core.out.awLen := by
    have hsame := Attended.step_req (i := e.inputs) hr.occ (by rw [hr.sim.core]; exact hw)
      (by rw [hr.sim.core]; exact hl)
    rw [← hcore', hr.sim.core] at hsame
    exact congrArg RwReq.axiLen hsame
  constructor
  · intro req hreq
    -- the store that the write is for has not left
    have hkeep : e'.core.out.awLen = e.core.out.awLen := by
      obtain ⟨-, w, hwr, -⟩ := eq_singleton_of_mem hr'.sim.slave.writes hreq
      have hst := hr'.sim.outstanding.wr (by rw [hwr]; nofun)
      obtain ⟨hw, hl⟩ := hr.attended.wait_of_step hst
      rw [hr.sim.core] at hw hl
      exact hreq_eq hw hl
    rw [hkeep]
    have hmem : req ∈ s.writes := by
      rw [hslave] at hreq
      exact (RamSlave.writes_fetchR s).subset ((RamSlave.writes_fetchB _).subset hreq)
    have hkind (req : Request) (hin : req ∈ e.bench.slave.writes) : req.isWrite = true := by
      obtain ⟨-, w, -, hrel⟩ := eq_singleton_of_mem hr.sim.slave.writes hin
      exact hrel.isWrite
    rcases RamSlave.mem_writes_helperRising hrise hkind hmem with ⟨req₀, hin, hlen⟩ | ⟨-, hlen⟩
    · exact hlen.trans (h.len req₀ hin)
    · have haw : e.bench.axi.aw.len = e.core.out.awLen := congrArg MasterOut.awLen hr.sim.driven
      rw [hlen, haw]
  · intro hw' hready
    rw [hcore'] at hw' hready
    have hd : y.core.rw.transDone y.core.req e.inputs = true := hready
    cases hw : y.core.axiSigWrite with
    | true =>
      obtain ⟨hst, hb⟩ := AxiRw.wState_of_bHs ((AxiRw.transDone_of_write hw).symm.trans hd)
      have hl := hr.attended.not_exReady (i := e.inputs) hw (by rw [hst]; nofun)
      rw [hr.sim.core] at hw hl
      rw [hreq_eq hw hl]
      obtain ⟨resp, hresp⟩ := Option.isSome_iff_exists.1 (hr.sim.offers.b.symm.trans hb)
      have hmem : resp.req ∈ e.bench.slave.sent := by simp [RamSlave.sent, hresp]
      exact h.awLen_of_sent hr hmem
    | false =>
      have hv := (AxiRw.rValid_of_rDone ((AxiRw.transDone_of_read hw).symm.trans hd)).1
      rw [hr.not_rValid (Attended.ex_of_enter hw hw')] at hv
      cases hv

end Stamped

theorem stamped (h₀ : e₀.AfterReset) (hw : Meets step (Within T) e₀ env n)
    (h : Reaches step e₀ env n e) : Stamped e := by
  refine h.induct (P := fun _ e => Stamped e) ?_ ⟨?_, ?_⟩
  · intro k t t' hk ht hst hs
    have hreach : Reaches step e₀ env (k + 1) t' := reaches_succ.2 ⟨t, ht, hs⟩
    have hr := (runs_of_reaches h₀ (fun j hj => hw j (by omega)) ht).1
    have hr' := (runs_of_reaches h₀ (fun j hj => hw j (by omega)) hreach).1
    rw [run_succ, inputsAt_eq ht] at hr'
    exact hst.step hr hr' hs
  · simp [h₀.writes]
  · simp [h₀.core.rw, AxiRw.zero]

/-- One cycle of waiting. -/
theorem step_of_crossing (hr : Runs T e y) (hst : Stamped e) (hw : e.core.axiSigWrite = true)
    (hlen : e.core.out.awLen ≠ 0#8) (hs : e.step v = some e') :
    e'.core.exLs = e.core.exLs ∧ e'.bench.slave.ram = e.bench.slave.ram := by
  obtain ⟨hcore, hcycle⟩ := step_eq_some hs
  obtain ⟨s, hrise, hslave, -⟩ := Bench.cycle_eq_some hcycle
  constructor
  · have heq := hr.occ.step_exLs_of_wait (i := e.inputs)
      (by rw [hr.sim.core]; exact Core.axiSigMem_of_write hw)
      (by rw [hr.sim.core]; exact hst.not_exReady hw hlen _)
    have hstep : (y.step e.inputs).core = e'.core := by
      rw [hcore, System.step, hr.sim.core]
      rfl
    rw [← hstep, heq, hr.sim.core]
  · have hb : e.bench.axi.wackFire = false := by
      have hv : e.bench.axi.b.valid = false := by
        rw [hr.sim.offers.b]
        by_contra hsome
        obtain ⟨resp, hresp⟩ := Option.isSome_iff_exists.1 (Bool.eq_true_of_not_eq_false hsome)
        have hmem : resp.req ∈ e.bench.slave.sent := by simp [RamSlave.sent, hresp]
        exact hlen (hst.awLen_of_sent hr hmem)
      simp [AxiChannel.wackFire, hv]
    rw [hslave, RamSlave.ram_falling]
    exact RamSlave.ram_helperRising hrise hb

/-- **A store that crosses a word hangs the emulator.** It never leaves MEM, and the RAM is never
written again. -/
theorem crossing_store_hangs (h₀ : e₀.AfterReset) (hw : Meets step (Within T) e₀ env (n + m))
    (h : Reaches step e₀ env n e) (hst : e.core.axiSigWrite = true)
    (hlen : e.core.out.awLen ≠ 0#8) (h' : Reaches step e₀ env (n + m) e') :
    e'.core.exLs = e.core.exLs ∧ e'.core.exReady e'.inputs = false ∧
      e'.bench.slave.ram = e.bench.slave.ram := by
  induction m generalizing e' with
  | zero =>
    cases Reaches.unique h h'
    exact ⟨rfl, (stamped h₀ hw h).not_exReady hst hlen _, rfl⟩
  | succ m ih =>
    obtain ⟨t, ht, hs⟩ := reaches_succ.1 h'
    have hwt : Meets step (Within T) e₀ env (n + m) := fun j hj => hw j (by omega)
    obtain ⟨hxs, -, hram⟩ := ih hwt ht
    obtain ⟨hst', hlen'⟩ := store_congr hxs hst
    rw [← hlen'] at hlen
    obtain ⟨hxs', hram'⟩ :=
      step_of_crossing (runs_of_reaches h₀ hwt ht).1 (stamped h₀ hwt ht) hst' hlen hs
    obtain ⟨hst'', hlen''⟩ := store_congr hxs' hst'
    rw [← hlen''] at hlen
    exact ⟨hxs'.trans hxs, (stamped h₀ hw h').not_exReady hst'' hlen _, hram'.trans hram⟩

end

/-- `addi x5, x0, 1`, `slli x5, x5, 31` and `sd x5, 60(x5)`. -/
def storeAcross : Emulator (SimpleCoDRAMsim3 Dramsim3Meta) :=
  boot 1 [0x01f2929300100293#64, 0x0000006f0252be23#64]

theorem storeAcross_run (n : Nat) (hn : n = 20 ∨ n = 20 + 40) :
    (run (lift step) (some storeAcross) (fun _ => .ready) n).isSome = true := by
  rcases hn with rfl | rfl <;> decide +kernel

/-- The store is still there after 40 cycles. -/
theorem crossing_store_hangs_across :
    ∃ e e', Reaches step storeAcross (fun _ => .ready) 20 e ∧
      Reaches step storeAcross (fun _ => .ready) (20 + 40) e' ∧ e.core.axiSigWrite = true ∧
      e'.core.exLs = e.core.exLs ∧ e'.core.exReady e'.inputs = false ∧
      e'.bench.slave.ram = e.bench.slave.ram :=
  ⟨_, _, reaches_get (storeAcross_run 20 (.inl rfl)), reaches_get (storeAcross_run _ (.inr rfl)),
    by decide +kernel,
    crossing_store_hangs (T := (· < 4)) (afterReset_boot (by decide) _) (by decide +kernel)
      (reaches_get (storeAcross_run 20 (.inl rfl))) (by decide +kernel) (by decide +kernel)
      (reaches_get (storeAcross_run _ (.inr rfl)))⟩

end Emulator

end Oscpu.Emu
