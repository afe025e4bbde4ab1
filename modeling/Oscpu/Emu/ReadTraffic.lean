import Oscpu.Emu.Bench

/-!
# Reads of the emulator's memory

A read that has been accepted waits in the DRAM model, which may let others overtake it, and is then
delivered beat by beat. The words are those of the RAM in the cycle of its address handshake.
-/

namespace Oscpu.Emu

open Oscpu.Rtl Oscpu.Axi Oscpu.Lib

variable {δ : Type*}

/-! ## The beats of a request -/

namespace Dramsim3Meta

variable (m : Dramsim3Meta)

/-- The number of beats: `len`, and 256 if the addition in `ar.len + 1` has wrapped. -/
def beatCount : Nat := (m.len - 1#8).toNat + 1

/-- Beat `k` of the answer. -/
def beatAt (k : Nat) : Beat :=
  ⟨m.id, copyBytes m.size.toNat (m.data (k * m.size.toNat / 8)) 0#64, k + 1 == m.len.toNat⟩

end Dramsim3Meta

/-- All beats of the answer to a read. -/
def beats (req : Request) : List Beat :=
  (List.range req.metaData.beatCount).map req.metaData.beatAt

/-- The request as it was accepted, before any beat of it. -/
def CoDRAMRequest.fresh (req : Request) : Request :=
  req.withMeta { req.metaData with offset := 0#8 }

theorem fresh_eq {req : Request} (h : req.metaData.offset = 0#8) : req.fresh = req := by
  obtain ⟨address, isWrite, ⟨len, size, offset, id, data⟩⟩ := req
  cases h
  rfl

theorem length_beats (req : Request) : (beats req).length = req.metaData.beatCount := by
  simp [beats]

theorem beats_getElem? {req : Request} (h : req.metaData.offset.toNat < req.metaData.beatCount) :
    (beats req.fresh)[req.metaData.offset.toNat]? = some req.metaData.nextBeat := by
  have hlt : req.metaData.offset.toNat < req.fresh.metaData.beatCount := h
  rw [beats, List.getElem?_map, List.getElem?_range hlt]
  rfl

theorem readRequest_fields {ram : RamWords} {axi : AxiChannel} {junk : Nat → Word} {req : Request}
    (h : readRequest ram axi junk = some req) :
    req.isWrite = false ∧ req.metaData.offset = 0#8 := by
  obtain ⟨m, hm, rfl⟩ := Option.map_eq_some_iff.1 h
  obtain ⟨words, -, rfl⟩ := Option.map_eq_some_iff.1 hm
  exact ⟨rfl, rfl⟩

/-- The answer that a read asks for: the words of its burst in the RAM, with `last` on the last. -/
def answer (ram : RamWords) (ar : AddrChannel) : List Beat :=
  (burstWords ram ar).elim [] fun words =>
    (List.range (ar.len.toNat + 1)).map fun k =>
      ⟨ar.id, copyBytes (2 ^ ar.size.toNat) (words (k * 2 ^ ar.size.toNat / 8)) 0#64,
        k == ar.len.toNat⟩

/-- For 256 beats `len` wraps to zero, and `axi_read_data` fetches nothing. -/
theorem beats_readRequest {ram : RamWords} {axi : AxiChannel} {junk : Nat → Word} {req : Request}
    (h : readRequest ram axi junk = some req) (hlen : axi.ar.len ≠ 255#8) :
    beats req = answer ram axi.ar := by
  obtain ⟨m, hm, rfl⟩ := Option.map_eq_some_iff.1 h
  obtain ⟨words, hwords, rfl⟩ := Option.map_eq_some_iff.1 hm
  have h8 : axi.ar.transactionSize % 8 = 0 := by
    by_contra hne
    simp [burstWords, hne] at hwords
  have hsum : (axi.ar.len + 1#8).toNat = axi.ar.len.toNat + 1 := by bv_omega
  have hsize : (BitVec.ofNat 8 (2 ^ axi.ar.size.toNat)).toNat = 2 ^ axi.ar.size.toNat := by
    rw [BitVec.toNat_ofNat]
    exact Nat.mod_eq_of_lt (Nat.pow_lt_pow_right (by decide) axi.ar.size.isLt)
  have hcount : (axi.ar.len + 1#8 - 1#8).toNat + 1 = axi.ar.len.toNat + 1 := by
    rw [BitVec.add_sub_cancel]
  simp only [beats, Dramsim3Meta.beatCount, hcount, answer, hwords, Option.elim_some]
  refine List.map_congr_left fun k hk => ?_
  have hk : k < axi.ar.len.toNat + 1 := List.mem_range.1 hk
  have hin : k * 2 ^ axi.ar.size.toNat / 8 < axi.ar.transactionSize / 8 := by
    have hlt : k * 2 ^ axi.ar.size.toNat < axi.ar.transactionSize := by
      rw [AddrChannel.transactionSize, hsum, Nat.mul_comm]
      exact Nat.mul_lt_mul_of_pos_left hk (Nat.two_pow_pos _)
    omega
  simp only [Dramsim3Meta.beatAt, hsize, hsum, if_pos hin]
  congr 1
  exact Bool.eq_iff_iff.2 (by simp)

/-- The read in progress, and how many of its beats have been taken. -/
def RamSlave.reading (s : RamSlave δ) : Option (Request × Nat) :=
  s.waitRespR.map fun resp => (resp.req.fresh, resp.req.metaData.offset.toNat)

section

variable [CoDRAMsim3 δ Dramsim3Meta] [LawfulCoDRAMsim3 δ]

open LawfulCoDRAMsim3

/-- What the slave has done with the reads that it accepted. -/
structure Reading (s : RamSlave δ) (accepted : List Request) (delivered : List Beat) : Prop where
  served : Served beats accepted delivered (pending false s.dram) s.reading
  fresh : ∀ req ∈ pending false s.dram, req.metaData.offset = 0#8
  inside : ∀ resp, s.waitRespR = some resp →
    resp.req.metaData.offset.toNat < resp.req.metaData.beatCount
  write : ∀ req, s.waitReqW = some req → req.isWrite = true

namespace Reading

variable {s s' : RamSlave δ} {axi : AxiChannel} {env : DramEnv} {accepted : List Request}
  {delivered : List Beat}

/-- The DRAM model reorders what is pending. -/
theorem of_perm (h : Reading s accepted delivered)
    (hp : (pending false s'.dram).Perm (pending false s.dram)) (hr : s'.waitRespR = s.waitRespR)
    (hw : ∀ req, s'.waitReqW = some req → req.isWrite = true) :
    Reading s' accepted delivered := by
  refine ⟨?_, fun req hreq => h.fresh req (hp.subset hreq), fun resp hresp => ?_, hw⟩
  · rw [RamSlave.reading, hr]
    exact h.served.reorder hp
  · exact h.inside resp (hr ▸ hresp)

theorem tick (h : Reading s accepted delivered) (hs : s.tick env = some s') :
    Reading s' accepted delivered := by
  obtain ⟨hd, heq⟩ := RamSlave.tick_spec hs
  refine h.of_perm (tick_pending false hd) (by rw [heq]) ?_
  rw [heq]
  exact h.write

/-- A beat is taken. -/
theorem riseR (h : Reading s accepted delivered) (ho : Offers s axi)
    (hs : s.riseR axi = some s') : Reading s' accepted (delivered ++
      if axi.rdataFire then s.waitRespR.toList.map fun resp =>
        axi.beat resp.req.metaData.size.toNat else []) := by
  unfold RamSlave.riseR at hs
  split at hs
  · rename_i hf
    obtain ⟨resp, hresp, hs⟩ := Option.map_eq_some_iff.1 hs
    have hbeat : axi.beat resp.req.metaData.size.toNat = resp.req.metaData.nextBeat :=
      ho.beat resp hresp
    have hin := h.inside resp hresp
    have hserved := h.served
    simp only [RamSlave.reading, hresp, Option.map_some] at hserved
    rw [if_pos hf, hresp, Option.toList_some, List.map_singleton, hbeat]
    have hitem := beats_getElem? hin
    have hlen : (beats resp.req.fresh).length = resp.req.metaData.beatCount := length_beats _
    split at hs
    · rename_i hlast
      subst hs
      -- the last beat: the request is done
      have hk : resp.req.metaData.offset.toNat + 1 = (beats resp.req.fresh).length := by
        rw [hlen, Dramsim3Meta.beatCount, ← hlast, Dramsim3Meta.advance]
        simp
      exact ⟨hserved.finish hitem hk, h.fresh, nofun, h.write⟩
    · rename_i hmore
      subst hs
      have hnext : resp.req.metaData.advance.offset.toNat = resp.req.metaData.offset.toNat + 1 ∧
          resp.req.metaData.offset.toNat + 1 < resp.req.metaData.beatCount := by
        simp only [Dramsim3Meta.advance, Dramsim3Meta.beatCount] at hmore hin ⊢
        bv_omega
      refine ⟨?_, h.fresh, ?_, h.write⟩
      · have := hserved.emit hitem
        rw [← hnext.1] at this
        exact this
      · intro resp' heq
        cases heq
        change resp.req.metaData.advance.offset.toNat < resp.req.metaData.beatCount
        rw [hnext.1]
        exact hnext.2
  · rename_i hf
    cases hs
    simpa [hf] using h

/-- An address is taken. -/
theorem riseAr (h : Reading s accepted delivered) (hs : s.riseAr axi env = some s') :
    Reading s' (accepted ++
      if axi.raddrFire then (readRequest s.ram axi env.junk).toList else []) delivered := by
  unfold RamSlave.riseAr at hs
  split at hs
  · rename_i hf
    obtain ⟨req, hreq, rfl⟩ := Option.map_eq_some_iff.1 hs
    obtain ⟨hkind, hoff⟩ := readRequest_fields hreq
    have hadd := add_pending false s.dram req
    rw [if_pos hkind] at hadd
    rw [if_pos hf, hreq, Option.toList_some]
    refine ⟨h.served.accept hadd, ?_, h.inside, h.write⟩
    intro req' hmem
    rcases List.mem_cons.1 (hadd.subset hmem) with rfl | hmem
    · exact hoff
    · exact h.fresh req' hmem
  · rename_i hf
    cases hs
    simpa [hf] using h

theorem riseB (h : Reading s accepted delivered) (hs : s.riseB axi = some s') :
    Reading s' accepted delivered := by
  rw [RamSlave.riseB_spec hs]
  exact ⟨h.served, h.fresh, h.inside, h.write⟩

theorem riseAw (h : Reading s accepted delivered) (hs : s.riseAw axi env = some s') :
    Reading s' accepted delivered := by
  rw [RamSlave.riseAw_spec hs]
  refine ⟨h.served, h.fresh, h.inside, ?_⟩
  intro req hreq
  simp only [RamSlave.written] at hreq
  split at hreq
  · cases hreq
    rfl
  · exact h.write req hreq

theorem riseW (h : Reading s accepted delivered) (hs : s.riseW axi = some s') :
    Reading s' accepted delivered := by
  have hkind : ∀ req, s'.waitReqW = some req → req.isWrite = true := by
    unfold RamSlave.riseW at hs
    split at hs
    · obtain ⟨req, hreq, hs⟩ := Option.bind_eq_some_iff.1 hs
      obtain ⟨req', hbeat, rfl⟩ := Option.map_eq_some_iff.1 hs
      obtain ⟨w, -, rfl⟩ := RamSlave.takeBeat_eq_some hbeat
      rintro _ ⟨⟩
      exact h.write req hreq
    · cases hs
      exact h.write
  rw [RamSlave.riseW_spec hs] at hkind ⊢
  exact ⟨h.served, h.fresh, h.inside, hkind⟩

theorem submit (h : Reading s accepted delivered) :
    Reading (s.submit env) accepted delivered := by
  unfold RamSlave.submit
  split
  · exact h
  · rename_i req hreq
    have hadd := add_pending false s.dram req
    rw [if_neg (by simp [h.write req (RamSlave.complete_eq_some hreq).1])] at hadd
    exact h.of_perm hadd rfl nofun

/-- The slave takes the next answer up. -/
theorem fetchR (h : Reading s accepted delivered) : Reading s.fetchR accepted delivered := by
  unfold RamSlave.fetchR
  split
  · rename_i hnone
    split
    · exact h
    · rename_i resp d hresp
      obtain ⟨hread, -⟩ := read_pending hresp
      have hnone' : s.waitRespR = none := Option.isNone_iff_eq_none.1 hnone
      have hoff : resp.req.metaData.offset = 0#8 :=
        h.fresh _ (hread.symm.subset List.mem_cons_self)
      have hserved := h.served
      rw [RamSlave.reading, hnone'] at hserved
      refine ⟨?_, ?_, ?_, h.write⟩
      · have hcur : ({ s with dram := d, waitRespR := some resp } : RamSlave δ).reading =
            some (resp.req, 0) := by
          simp [RamSlave.reading, fresh_eq hoff, hoff]
        rw [hcur]
        exact hserved.takeUp hread
      · exact fun req hreq => h.fresh req (hread.symm.subset (List.mem_cons_of_mem _ hreq))
      · rintro _ ⟨⟩
        rw [hoff, Dramsim3Meta.beatCount]
        exact Nat.succ_pos _
  · exact h

theorem fetchB (h : Reading s accepted delivered) : Reading s.fetchB accepted delivered := by
  unfold RamSlave.fetchB
  split
  · split
    · exact h
    · rename_i resp d hresp
      exact h.of_perm (write_pending hresp).2 rfl h.write
  · exact h

end Reading

/-! ## Runs -/

namespace Bench

/-- The read whose address is taken in this cycle, with its data. -/
def takesRead (c : Bench δ) (i : DramEnv × MasterOut) : List Request :=
  if c.axi.raddrFire then (readRequest c.slave.ram c.axi i.1.junk).toList else []

/-- The answer that this read asks for. -/
def asksRead (c : Bench δ) (_ : DramEnv × MasterOut) : List (List Beat) :=
  if c.axi.raddrFire then [answer c.slave.ram c.axi.ar] else []

/-- A read has fewer than 256 beats. -/
def ShortReads (c : Bench δ) (_ : DramEnv × MasterOut) : Prop :=
  c.axi.raddrFire = true → c.axi.ar.len ≠ 255#8

instance (c : Bench δ) (i : DramEnv × MasterOut) : Decidable (c.ShortReads i) :=
  inferInstanceAs (Decidable (_ → _))

/-- The beat that the master takes in this cycle. -/
def givesBeat (c : Bench δ) (_ : DramEnv × MasterOut) : List Beat :=
  if c.axi.rdataFire then
    c.slave.waitRespR.toList.map fun resp => c.axi.beat resp.req.metaData.size.toNat
  else []

variable {ram : RamWords} {dram : δ} {o : MasterOut} {is : Nat → DramEnv × MasterOut} {n : Nat}
  {c c' : Bench δ} {accepted : List Request} {delivered : List Beat}

theorem reading_cycle {i : DramEnv × MasterOut} (ho : Offers c.slave c.axi)
    (h : Reading c.slave accepted delivered) (hs : c.cycle i = some c') :
    Reading c'.slave (accepted ++ c.takesRead i) (delivered ++ c.givesBeat i) := by
  obtain ⟨s, hrise, hslave, -⟩ := cycle_eq_some hs
  obtain ⟨s₆, hchan, rfl⟩ := RamSlave.helperRising_eq_some hrise
  obtain ⟨s₁, s₂, s₃, s₄, s₅, h₁, h₂, h₃, h₄, h₅, h₆⟩ := RamSlave.riseChannels_eq_some hchan
  have hspec := (RamSlave.tick_spec h₁).2
  have ho₁ : Offers s₁ c.axi := by
    rw [hspec]
    exact ⟨ho.r, ho.beat, ho.b, ho.bId, ho.aw, ho.w⟩
  have hram : s₂.ram = c.slave.ram := by rw [RamSlave.riseR_spec h₂, hspec]
  have hresp : s₁.waitRespR = c.slave.waitRespR := by rw [hspec]
  have hR := (h.tick h₁).riseR ho₁ h₂
  have hAr := hR.riseAr h₃
  rw [hram, hresp] at hAr
  have hW := ((hAr.riseB h₄).riseAw h₅).riseW h₆
  rw [hslave]
  exact hW.submit.fetchR.fetchB

omit [LawfulCoDRAMsim3 δ] in
theorem map_takesRead {i : DramEnv × MasterOut} (hshort : c.ShortReads i)
    (hs : c.cycle i = some c') : (c.takesRead i).map beats = c.asksRead i := by
  obtain ⟨s, hrise, -⟩ := cycle_eq_some hs
  obtain ⟨s₆, hchan, -⟩ := RamSlave.helperRising_eq_some hrise
  obtain ⟨s₁, s₂, s₃, -, -, h₁, h₂, h₃, -⟩ := RamSlave.riseChannels_eq_some hchan
  have hram : s₂.ram = c.slave.ram := by rw [RamSlave.riseR_spec h₂, (RamSlave.tick_spec h₁).2]
  rw [takesRead, asksRead]
  cases hf : c.axi.raddrFire with
  | false => rfl
  | true =>
    rw [RamSlave.riseAr, if_pos hf, hram] at h₃
    obtain ⟨req, hreq, -⟩ := Option.map_eq_some_iff.1 h₃
    rw [if_pos rfl, if_pos rfl, hreq, Option.toList_some, List.map_singleton,
      beats_readRequest hreq (hshort hf)]

theorem pairReads_run : (run (lift cycle) (some (counting (.reader 1#8 1#8)))
    (fun _ => (.ready, .reader 1#8 1#8)) 7).isSome = true := by decide +kernel

end Bench

end

end Oscpu.Emu
