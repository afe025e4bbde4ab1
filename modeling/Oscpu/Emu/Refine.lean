import Oscpu.Axi.Occupancy
import Oscpu.Emu.SlaveRel

/-!
# The emulator refines the core with an AXI slave

Cycle by cycle the emulator goes through the states of `System`: the core is the same, and the
inputs that `ram.cpp` gives it are some that the slave can produce. `Tame` is what this takes: reads
and writes stay within the RAM, and a word is not read and written at the same time.
-/

namespace Oscpu.Emu

open Oscpu.Rtl Oscpu.Axi Oscpu.Lib

variable {δ : Type*}

/-! ## What the falling half leaves alone -/

section

variable [CoDRAMsim3 δ Dramsim3Meta]

namespace RamSlave

variable (s : RamSlave δ) (axi : AxiChannel) (env : DramEnv)

/-- The master's side of the channels and the ids of the responses. -/
structure Keeps (axi axi' : AxiChannel) : Prop where
  master : axi'.master = axi.master
  rId : axi'.r.id = axi.r.id
  bId : axi'.b.id = axi.b.id

theorem Keeps.trans {axi axi' axi'' : AxiChannel} (h : Keeps axi axi') (h' : Keeps axi' axi'') :
    Keeps axi axi'' :=
  ⟨h'.master.trans h.master, h'.rId.trans h.rId, h'.bId.trans h.bId⟩

theorem keeps_acceptAr : Keeps axi (s.acceptAr axi env) := by
  unfold acceptAr
  split
  · split <;> exact ⟨rfl, rfl, rfl⟩
  · exact ⟨rfl, rfl, rfl⟩

theorem keeps_acceptAw : Keeps axi (s.acceptAw axi env) := by
  unfold acceptAw
  split
  · split <;> exact ⟨rfl, rfl, rfl⟩
  · exact ⟨rfl, rfl, rfl⟩

theorem keeps_acceptW : Keeps axi (s.acceptW axi env) := by
  unfold acceptW
  split
  · split <;> exact ⟨rfl, rfl, rfl⟩
  · exact ⟨rfl, rfl, rfl⟩

omit [CoDRAMsim3 δ Dramsim3Meta] in
theorem putR_keeps : (s.putR axi).master = axi.master ∧ (s.putR axi).b = axi.b ∧
    (s.waitRespR = none → (s.putR axi).r.id = axi.r.id) := by
  unfold putR
  split
  · exact ⟨rfl, rfl, fun _ => rfl⟩
  · rename_i hresp
    exact ⟨rfl, rfl, fun h => by rw [h] at hresp; cases hresp⟩

omit [CoDRAMsim3 δ Dramsim3Meta] in
theorem putB_keeps : (s.putB axi).master = axi.master ∧ (s.putB axi).r = axi.r ∧
    (s.waitRespB = none → (s.putB axi).b.id = axi.b.id) := by
  unfold putB
  split
  · exact ⟨rfl, rfl, fun _ => rfl⟩
  · rename_i hresp
    exact ⟨rfl, rfl, fun h => by rw [h] at hresp; cases hresp⟩

/-- The master's side stays, and so does an id while there is no response. -/
theorem falling_keeps : (s.falling axi env).2.master = axi.master ∧
    ((s.falling axi env).1.waitRespR = none →
      (s.falling axi env).2.r.id = axi.r.id) ∧
    ((s.falling axi env).1.waitRespB = none →
      (s.falling axi env).2.b.id = axi.b.id) := by
  obtain ⟨hmR, hbR, hrR⟩ := s.fetchR.putR_keeps (quiet axi)
  let axi₁ := s.fetchR.putR (quiet axi)
  have hmid : Keeps axi₁ (s.fetchR.acceptW (s.fetchR.acceptAw (s.fetchR.acceptAr axi₁ env) env)
      env) :=
    ((keeps_acceptAr _ _ _).trans (keeps_acceptAw _ _ _)).trans (keeps_acceptW _ _ _)
  obtain ⟨hmB, hrB, hbB⟩ := s.fetchR.fetchB.putB_keeps
    (s.fetchR.acceptW (s.fetchR.acceptAw (s.fetchR.acceptAr axi₁ env) env) env)
  have hresp := (Offers.fetchB_fields s.fetchR).1
  have hb₁ : axi₁.b.id = axi.b.id := by
    change (s.fetchR.putR (quiet axi)).b.id = axi.b.id
    rw [hbR]
    rfl
  refine ⟨hmB.trans (hmid.master.trans hmR), fun h => ?_, fun h => ?_⟩
  · have hnone : s.fetchR.waitRespR = none := hresp.symm.trans h
    exact (congrArg RChannel.id hrB).trans (hmid.rId.trans (hrR hnone))
  · exact (hbB h).trans (hmid.bId.trans hb₁)

end RamSlave

end

/-! ## What is outstanding -/

/-- A transaction of the slave is one that the bus master waits for. -/
structure Outstanding (y : System) : Prop where
  rd : y.slave.rd ≠ none → y.core.rw.rState = .read
  wr : y.slave.wr ≠ none → y.core.rw.wState = .write ∨ y.core.rw.wState = .resp

theorem Outstanding.afterReset {y : System} (h : y.AfterReset) : Outstanding y :=
  ⟨fun hrd => absurd h.rd hrd, fun hwr => absurd h.wr hwr⟩

theorem Outstanding.rd_eq_none {y : System} (h : Outstanding y) (hst : y.core.rw.rState ≠ .read) :
    y.slave.rd = none := by
  by_contra hne
  exact hst (h.rd hne)

theorem Outstanding.wr_eq_none {y : System} (h : Outstanding y) (hw : y.core.rw.wState ≠ .write)
    (hr : y.core.rw.wState ≠ .resp) : y.slave.wr = none := by
  by_contra hne
  rcases h.wr hne with hst | hst
  · exact hw hst
  · exact hr hst

theorem Outstanding.step {y : System} (h : Outstanding y) (i : AxiIn) :
    Outstanding (y.step i) := by
  constructor
  · intro hrd
    change (y.slave.step y.core.out i).rd ≠ none at hrd
    change y.core.rw.nextR y.core.req i = .read
    cases hst : y.core.rw.rState with
    | idle =>
      have hnone : y.slave.rd = none := h.rd_eq_none (by simp [hst])
      simp [Slave.step, Core.out, AxiRw.out, hst, hnone] at hrd
    | addr =>
      have hnone : y.slave.rd = none := h.rd_eq_none (by simp [hst])
      have hfire : y.core.req.rValid = true ∧ i.arReady = true := by
        by_contra hno
        have : (i.arReady && y.core.req.rValid) = false := by
          cases hr : y.core.req.rValid <;> simp_all
        simp [Slave.step, Core.out, AxiRw.out, hst, hnone, this] at hrd
      simp [AxiRw.nextR, hst, hfire.1, AxiRw.arHs, AxiRw.out, hfire.2]
    | read =>
      have hlast : (i.rValid && i.rLast) = false := by
        by_contra hl
        have hl' := Bool.and_eq_true_iff.1 (Bool.eq_true_of_not_eq_false hl)
        simp [Slave.step, Core.out, AxiRw.out, hst, hl'.1, hl'.2] at hrd
      simp [AxiRw.nextR, hst, AxiRw.rDone, AxiRw.rHs, AxiRw.out, hlast]
  · intro hwr
    change (y.slave.step y.core.out i).wr ≠ none at hwr
    change y.core.rw.nextW y.core.req i = .write ∨ y.core.rw.nextW y.core.req i = .resp
    cases hst : y.core.rw.wState with
    | idle =>
      have hnone : y.slave.wr = none := h.wr_eq_none (by simp [hst]) (by simp [hst])
      simp [Slave.step, Core.out, AxiRw.out, hst, hnone] at hwr
    | addr =>
      have hnone : y.slave.wr = none := h.wr_eq_none (by simp [hst]) (by simp [hst])
      have hfire : y.core.req.wValid = true ∧ i.awReady = true := by
        by_contra hno
        have : (i.awReady && y.core.req.wValid) = false := by
          cases hr : y.core.req.wValid <;> simp_all
        simp [Slave.step, Core.out, AxiRw.out, hst, hnone, this] at hwr
      left
      simp [AxiRw.nextW, hst, hfire.1, AxiRw.awHs, AxiRw.out, hfire.2]
    | write =>
      cases hv : y.core.req.wValid <;> cases hw : i.wReady <;>
        simp [AxiRw.nextW, hst, hv, AxiRw.wHs, AxiRw.out, hw]
    | resp =>
      have hb : i.bValid = false := by
        by_contra hb
        simp [Slave.step, Core.out, AxiRw.out, hst, Bool.eq_true_of_not_eq_false hb] at hwr
      right
      simp [AxiRw.nextW, hst, AxiRw.bHs, AxiRw.out, hb]

/-! ## One cycle -/

theorem arLen_le (s : Core) : s.out.arLen.toNat ≤ 1 ∧ s.out.awLen.toNat ≤ 1 := by
  have hlen : s.req.axiLen.toNat ≤ 1 := by
    rw [RwReq.axiLen]
    split
    · decide
    · cases s.req.overstep <;> decide
  exact ⟨hlen, hlen⟩

theorem oneAtATime (s : Core) : OneAtATime s.out := by
  constructor
  · intro hw
    have hst : s.rw.wState = .write := by simpa [Core.out, AxiRw.out] using hw
    simp [Core.out, AxiRw.out, hst]
  · intro hw
    have hst : s.rw.wState = .write := by simpa [Core.out, AxiRw.out] using hw
    simp [Core.out, AxiRw.out, hst]

/-- The handshakes that the memory sees are those of the core. -/
theorem fires {axi : AxiChannel} {o : AxiOut} (hd : axi.master = masterOut o) :
    axi.raddrFire = ((axiIn axi).arReady && o.arValid) ∧
      axi.rdataFire = ((axiIn axi).rValid && o.rReady) ∧
      (axi.aw.valid && axi.aw.ready) = ((axiIn axi).awReady && o.awValid) ∧
      axi.wdataFire = ((axiIn axi).wReady && o.wValid) ∧
      axi.wackFire = ((axiIn axi).bValid && o.bReady) := by
  have har : axi.ar.valid = o.arValid := congrArg MasterOut.arValid hd
  have hr : axi.r.ready = o.rReady := congrArg MasterOut.rReady hd
  have haw : axi.aw.valid = o.awValid := congrArg MasterOut.awValid hd
  have hw : axi.w.valid = o.wValid := congrArg MasterOut.wValid hd
  have hb : axi.b.ready = o.bReady := congrArg MasterOut.bReady hd
  refine ⟨?_, ?_, ?_, ?_, ?_⟩
  · rw [AxiChannel.raddrFire, har, Bool.and_comm]
    rfl
  · rw [AxiChannel.rdataFire, hr, Bool.and_comm]
    rfl
  · rw [haw, Bool.and_comm]
    rfl
  · rw [AxiChannel.wdataFire, hw, Bool.and_comm]
    rfl
  · rw [AxiChannel.wackFire, hb]
    rfl

section

variable [CoDRAMsim3 δ Dramsim3Meta] [LawfulCoDRAMsim3 δ]

namespace RamSlave

variable {s s' : RamSlave δ} {axi : AxiChannel} {env : DramEnv} {rd : Request}

/-- A read keeps its address and its length while it is delivered. -/
theorem mem_reads_riseR (h : s.riseR axi = some s') (hmem : rd ∈ s'.reads) :
    ∃ rd₀ ∈ s.reads, rd.address = rd₀.address ∧ rd.metaData.len = rd₀.metaData.len := by
  unfold riseR at h
  split at h
  · obtain ⟨resp, hresp, rfl⟩ := Option.map_eq_some_iff.1 h
    have hhead : resp.req ∈ s.reads := by simp [reads, hresp]
    split at hmem
    · exact ⟨rd, List.mem_append_right _ (by simpa [reads] using hmem), rfl, rfl⟩
    · rcases List.mem_append.1 hmem with hmem | hmem
      · simp only [Option.map_some, Option.toList_some, List.mem_singleton] at hmem
        exact ⟨resp.req, hhead, hmem ▸ rfl, hmem ▸ rfl⟩
      · exact ⟨rd, List.mem_append_right _ hmem, rfl, rfl⟩
  · cases h
    exact ⟨rd, hmem, rfl, rfl⟩

theorem mem_reads_riseAr (h : s.riseAr axi env = some s') (hmem : rd ∈ s'.reads) :
    rd ∈ s.reads ∨
      axi.raddrFire = true ∧ rd.address = axi.ar.addr ∧ rd.metaData.len = axi.ar.len + 1#8 := by
  unfold riseAr at h
  split at h
  · rename_i hf
    obtain ⟨req, hreq, rfl⟩ := Option.map_eq_some_iff.1 h
    rcases List.mem_append.1 hmem with hmem | hmem
    · exact .inl (List.mem_append_left _ hmem)
    · have hadd := (LawfulCoDRAMsim3.add_pending false s.dram req).subset hmem
      rw [if_pos (readRequest_fields hreq).1] at hadd
      rcases List.mem_cons.1 hadd with rfl | hold
      · obtain ⟨m, hm, rfl⟩ := Option.map_eq_some_iff.1 hreq
        obtain ⟨words, -, rfl⟩ := Option.map_eq_some_iff.1 hm
        exact .inr ⟨hf, rfl, rfl⟩
      · exact .inl (List.mem_append_right _ hold)
  · cases h
    exact .inl hmem

end RamSlave

namespace Emulator

/-- In this cycle nothing goes beyond the RAM, and no word is read and written at the same time. The
RAM words in `T` are not written, so that they may be read under other addresses as well. -/
structure Tame (T : Nat → Prop) (e : Emulator δ) (_ : DramEnv) : Prop where
  /-- A read whose address is taken: its words are covered, and no write is on its way to them. -/
  read : e.bench.axi.raddrFire = true →
    ramIdx e.bench.axi.ar.addr + e.core.out.arLen.toNat < EMU_RAM_SIZE / 8 ∧
    ∀ k ≤ e.core.out.arLen.toNat, Covered T (Mem.wordIdx e.core.out.arAddr + BitVec.ofNat 64 k) ∧
      ∀ req ∈ e.bench.slave.writes, ramIdx req.address ≠ ramIdx e.bench.axi.ar.addr + k
  /-- A write whose data is taken: it is the first beat, the address is still presented, its word is
  in the window and not in `T`, and no read is on its way from there. -/
  write : e.bench.axi.wdataFire = true → ∀ req, e.bench.slave.waitReqW = some req →
    req.metaData.offset = 0#8 ∧ ramIdx e.bench.axi.aw.addr = ramIdx req.address ∧
    InWindow (Mem.wordIdx (req.address + 0x80000000#64)) ∧ ¬ T (ramIdx req.address) ∧
    ∀ rd ∈ e.bench.slave.reads, ∀ k < rd.metaData.len.toNat,
      ramIdx rd.address + k ≠ ramIdx req.address

/-- The emulator and the core with an abstract slave. -/
structure Sim (T : Nat → Prop) (e : Emulator δ) (y : System) : Prop where
  core : y.core = e.core
  driven : e.bench.axi.master = masterOut e.core.out
  offers : Offers e.bench.slave e.bench.axi
  slave : SlaveRel T e.bench.slave y.slave
  outstanding : Outstanding y
  ok : y.Ok e.inputs

namespace Sim

variable {T : Nat → Prop} {e e' : Emulator δ} {y : System} {env : DramEnv}

/-- A cycle of the slave: the channels one after the other. -/
theorem slave_step (h : Sim T e y) (ht : e.Tame T env) {s : RamSlave δ}
    (hs : e.bench.slave.helperRising e.bench.axi env = some s) :
    SlaveRel T s (y.slave.step e.core.out e.inputs) := by
  obtain ⟨s₆, hchan, rfl⟩ := RamSlave.helperRising_eq_some hs
  obtain ⟨s₁, s₂, s₃, s₄, s₅, h₁, h₂, h₃, h₄, h₅, h₆⟩ := RamSlave.riseChannels_eq_some hchan
  have hd := h.driven
  obtain ⟨hal, hawl⟩ := arLen_le e.core
  have hone := oneAtATime e.core
  obtain ⟨hfAr, hfR, hfAw, hfW, hfB⟩ := fires hd
  have hrel₁ := h.slave.tick h₁
  have heq₁ := (RamSlave.tick_spec h₁).2
  have hoff₁ : Offers s₁ e.bench.axi := by
    rw [heq₁]
    exact ⟨h.offers.r, h.offers.beat, h.offers.b, h.offers.bId, h.offers.aw, h.offers.w⟩
  have hreads₁ : s₁.reads.Perm e.bench.slave.reads := by
    rw [heq₁]
    exact (LawfulCoDRAMsim3.tick_pending false (RamSlave.tick_spec h₁).1).append_left _
  have hwrites₁ : s₁.writes.Perm e.bench.slave.writes := by
    rw [heq₁]
    exact ((LawfulCoDRAMsim3.tick_pending true (RamSlave.tick_spec h₁).1).append_left _).append_right
      _
  have hwrites₂ : s₂.writes = s₁.writes := by rw [RamSlave.riseR_spec h₂]; rfl
  have hrel₂ := hrel₁.riseR hoff₁ hfR h₂
  have hrel₃ : SlaveRel T s₃ (takeAr e.core.out e.inputs
      (takeR e.core.out e.inputs y.slave)) := by
    refine hrel₂.riseAr hfAr ⟨?_, ?_, ?_, ?_, ?_⟩ hal ?_ (fun hf => (ht.read hf).1)
      (fun hf k hk => ((ht.read hf).2 k hk).1) ?_ h₃
    · exact congrArg MasterOut.arAddr hd
    · exact congrArg MasterOut.arId hd
    · exact congrArg MasterOut.arLen hd
    · exact congrArg MasterOut.arSize hd
    · exact congrArg MasterOut.arBurst hd
    · intro hf
      have hst : e.core.rw.rState = .addr := by
        rw [hfAr, Bool.and_eq_true] at hf
        have := hf.2
        simp only [Core.out, AxiRw.out, Bool.and_eq_true, beq_iff_eq] at this
        exact this.1
      have hready : e.core.out.rReady = false := by simp [Core.out, AxiRw.out, hst]
      have hnone : y.slave.rd = none := h.outstanding.rd_eq_none (by simp [h.core, hst])
      simpa [takeR, hready] using hnone
    · intro hf k hk req hreq _
      exact ((ht.read hf).2 k hk).2 req (hwrites₁.subset (hwrites₂ ▸ hreq))
  have hrel₄ := hrel₃.riseB hfB h₄
  have hw₄ := RamSlave.waitReqW_of_rising h₁ h₂ h₃ h₄
  have hrel₅ : SlaveRel T s₅ (takeAw e.core.out e.inputs (takeB e.core.out e.inputs
      (takeAr e.core.out e.inputs (takeR e.core.out e.inputs y.slave)))) := by
    refine hrel₄.riseAw hfAw ⟨?_, ?_, ?_, ?_⟩ hawl ?_ h₅
    · exact congrArg MasterOut.awAddr hd
    · exact congrArg MasterOut.awId hd
    · exact congrArg MasterOut.awLen hd
    · exact congrArg MasterOut.awSize hd
    · intro hf
      have hst : e.core.rw.wState = .addr := by
        rw [hfAw, Bool.and_eq_true] at hf
        have := hf.2
        simp only [Core.out, AxiRw.out, Bool.and_eq_true, beq_iff_eq] at this
        exact this.1
      have hnone : y.slave.wr = none :=
        h.outstanding.wr_eq_none (by simp [h.core, hst]) (by simp [h.core, hst])
      simp only [takeB, takeAr, takeR]
      split <;> split <;> split <;> first | rfl | exact hnone
  have hrel₆ : SlaveRel T s₆ (takeW e.core.out e.inputs (takeAw e.core.out e.inputs
      (takeB e.core.out e.inputs (takeAr e.core.out e.inputs
        (takeR e.core.out e.inputs y.slave))))) := by
    refine hrel₅.riseW hfW ⟨?_, ?_⟩ ?_ h₆
    · exact congrArg MasterOut.wData hd
    · exact congrArg MasterOut.wStrb hd
    · intro hf req hreq
      have hwv : e.core.out.wValid = true := by
        rw [hfW, Bool.and_eq_true] at hf
        exact hf.2
      have hav : e.bench.axi.aw.valid = false := (congrArg MasterOut.awValid hd).trans (hone.1 hwv)
      have hreq' : e.bench.slave.waitReqW = some req := by
        rw [RamSlave.riseAw_spec h₅, RamSlave.written, hav] at hreq
        rw [← hw₄]
        exact hreq
      obtain ⟨hoff, haddr, hwin, hT, hrd⟩ := ht.write hf req hreq'
      refine ⟨hoff, haddr, hwin, hT, fun rd hmem k hk => ?_⟩
      have hmem₃ : rd ∈ s₃.reads := by
        rw [RamSlave.riseAw_spec h₅, RamSlave.riseB_spec h₄] at hmem
        exact hmem
      rcases RamSlave.mem_reads_riseAr h₃ hmem₃ with hmem₂ | ⟨hfire, haddr', hlen⟩
      · obtain ⟨rd₀, hmem₁, haddr₀, hlen₀⟩ := RamSlave.mem_reads_riseR h₂ hmem₂
        rw [haddr₀]
        exact hrd rd₀ (hreads₁.subset hmem₁) k (hlen₀ ▸ hk)
      · have hlen' : e.bench.axi.ar.len = e.core.out.arLen := congrArg MasterOut.arLen hd
        rw [hlen, hlen'] at hk
        have hmemW : req ∈ e.bench.slave.writes := by simp [RamSlave.writes, hreq']
        rw [haddr']
        exact (((ht.read hfire).2 k (by bv_omega)).2 req hmemW).symm
  have hfinal : SlaveRel T (s₆.submit env) _ := hrel₆.submit
  rw [slave_step_eq _ hone]
  exact ⟨hfinal.reads, hfinal.writes, hfinal.sent, hfinal.mem⟩

/-- **One cycle of the emulator is one cycle of the core with the slave.** -/
theorem step (h : Sim T e y) (ht : e.Tame T env) (hs : e.step env = some e') :
    Sim T e' (y.step e.inputs) := by
  obtain ⟨hcore, hcycle⟩ := step_eq_some hs
  obtain ⟨s, hrise, hslave, haxi⟩ := Bench.cycle_eq_some hcycle
  have hstep : (y.step e.inputs).core = e'.core := by
    rw [hcore, System.step, h.core]
    rfl
  have hrel : SlaveRel T e'.bench.slave (y.step e.inputs).slave := by
    rw [hslave, System.step, h.core]
    exact (h.slave_step ht hrise).fetchR.fetchB
  obtain ⟨hmaster, hrid, hbid⟩ :=
    s.falling_keeps (e.bench.axi.copyFrom (masterOut e'.core.out)) env
  have hoffers : Offers e'.bench.slave e'.bench.axi := by
    rw [hslave, haxi]
    exact Offers.falling _ _ _
  refine ⟨hstep, ?_, hoffers, hrel, h.outstanding.step _, ?_⟩
  · rw [haxi, hmaster]
    rfl
  · refine hrel.drives hoffers (fun hnone => ?_) fun hnone => ?_
    · rw [haxi, hrid (by rwa [hslave] at hnone)]
      rfl
    · rw [haxi, hbid (by rwa [hslave] at hnone)]
      rfl

end Sim

end Emulator

end

end Oscpu.Emu
