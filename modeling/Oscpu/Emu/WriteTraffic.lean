import Oscpu.Emu.ReadTraffic

/-!
# Writes of the emulator's memory

A write is put together from its address and its beats, sent to the DRAM model when it is complete,
and copied to the RAM when its response is taken. Between these the RAM does not know of it: what a
beat leaves out by its strobe is filled in from the RAM in the cycle of the beat.
-/

namespace Oscpu.Emu

open Oscpu.Rtl Oscpu.Axi Oscpu.Lib

variable {δ : Type*}

/-! ## From the beats to a request -/

/-- What the address channel says about a write. -/
def CoDRAMRequest.header (req : Request) : Word × BitVec 8 × BitVec 8 × BitVec 8 :=
  (req.address, req.metaData.len, req.metaData.size, req.metaData.id)

/-- The words that a write has received. -/
def CoDRAMRequest.words (req : Request) : List Word :=
  (List.range req.metaData.offset.toNat).map req.metaData.data

/-- A word holds the bytes of a beat that its strobe selects. -/
def Holds (w : Word) (beat : Word × BitVec 8) : Prop :=
  w &&& strbMask beat.2 = beat.1 &&& strbMask beat.2

/-- A write of full words that has room for another beat, if it lacks one. -/
structure Filling (req : Request) : Prop where
  isWrite : req.isWrite = true
  size : req.metaData.size = 8#8
  le : req.metaData.offset.toNat ≤ req.metaData.len.toNat

/-- `axi_get_wdata` of a full word. -/
theorem getWdata_holds {axi : AxiChannel} {dest src w : Word}
    (h : axi.getWdata dest src 8 = some w) : Holds w (axi.w.data, axi.w.strb) := by
  simp only [AxiChannel.getWdata, copyBytes_eq le_rfl] at h
  split at h
  · cases h
    rfl
  · simp only [le_refl, ↓reduceIte, Option.some.injEq] at h
    subst h
    apply BitVec.eq_of_getLsbD_eq
    intro k hk
    simp only [BitVec.getLsbD_and, BitVec.getLsbD_or, BitVec.getLsbD_not, hk]
    cases (strbMask axi.w.strb).getLsbD k <;> simp

/-- A beat adds one word to the request. -/
theorem takeBeat_words {ram : RamWords} {axi : AxiChannel} {req req' : Request}
    (h : RamSlave.takeBeat ram axi req = some req') (hf : Filling req)
    (hne : req.metaData.offset ≠ req.metaData.len) :
    Filling req' ∧ req'.header = req.header ∧
      ∃ w, req'.words = req.words ++ [w] ∧ Holds w (axi.w.data, axi.w.strb) := by
  obtain ⟨w, hw, rfl⟩ := RamSlave.takeBeat_eq_some h
  have hsize : req.metaData.size.toNat = 8 := by rw [hf.size]; rfl
  have hstart : req.metaData.dataStart = req.metaData.offset.toNat := by
    rw [Dramsim3Meta.dataStart, hsize, Nat.mul_div_cancel _ (by omega)]
  have hlt : req.metaData.offset.toNat < req.metaData.len.toNat :=
    lt_of_le_of_ne hf.le fun heq => hne (BitVec.eq_of_toNat_eq heq)
  have hnext : (req.metaData.offset + 1#8).toNat = req.metaData.offset.toNat + 1 := by bv_omega
  rw [hsize] at hw
  refine ⟨⟨hf.isWrite, hf.size, ?_⟩, rfl, w, ?_, getWdata_holds hw⟩
  · change (req.metaData.offset + 1#8).toNat ≤ req.metaData.len.toNat
    omega
  · simp only [CoDRAMRequest.words, CoDRAMRequest.withMeta, Dramsim3Meta.advance, hnext, hstart,
      List.range_succ, List.map_append, List.map_singleton, Function.update_self]
    congr 1
    apply List.map_congr_left
    intro k hk
    exact Function.update_of_ne (Nat.ne_of_lt (List.mem_range.1 hk)) _ _

/-! ## What the slave has done with the writes -/

/-- The writes sent to the DRAM model and the one being put together, against the addresses and the
beats that were taken. -/
structure Assembled (s : RamSlave δ) (taken sent : List Request)
    (beats : List (Word × BitVec 8)) : Prop where
  headers : (sent ++ s.waitReqW.toList).map CoDRAMRequest.header = taken.map CoDRAMRequest.header
  words : List.Forall₂ Holds ((sent ++ s.waitReqW.toList).flatMap CoDRAMRequest.words) beats
  filling : ∀ req, s.waitReqW = some req → Filling req
  full : ∀ req ∈ sent, req.metaData.offset = req.metaData.len

namespace Assembled

variable {s s' : RamSlave δ} {axi : AxiChannel} {env : DramEnv} {taken sent : List Request}
  {beats : List (Word × BitVec 8)}

theorem congr (h : Assembled s taken sent beats) (hw : s'.waitReqW = s.waitReqW) :
    Assembled s' taken sent beats :=
  ⟨hw ▸ h.headers, hw ▸ h.words, hw ▸ h.filling, h.full⟩

/-- An address is taken; it is that of a burst of full words that fit into `meta`. -/
theorem riseAw (h : Assembled s taken sent beats) (ho : axi.aw.ready = true → s.waitReqW = none)
    (hfmt : (axi.aw.valid && axi.aw.ready) = true → axi.aw.size = 3#3)
    (hs : s.riseAw axi env = some s') :
    Assembled s' (taken ++ if axi.aw.valid && axi.aw.ready then [writeRequest axi env.junk] else [])
      sent beats := by
  rw [RamSlave.riseAw_spec hs, RamSlave.written]
  cases hf : axi.aw.valid && axi.aw.ready with
  | false => simpa using h.congr rfl
  | true =>
    have hnone := ho (Bool.and_eq_true_iff.1 hf).2
    have hheaders := h.headers
    have hwords := h.words
    simp only [hnone, Option.toList_none, List.append_nil] at hheaders hwords
    refine ⟨?_, ?_, ?_, h.full⟩
    · simp [hheaders]
    · simpa [CoDRAMRequest.words, writeRequest] using hwords
    · rintro _ ⟨⟩
      refine ⟨rfl, ?_, Nat.zero_le _⟩
      simp [writeRequest, hfmt hf]

/-- A beat is taken. -/
theorem riseW (h : Assembled s taken sent beats)
    (hroom : axi.wdataFire = true → ∀ req, s.waitReqW = some req →
      req.metaData.offset ≠ req.metaData.len)
    (hs : s.riseW axi = some s') :
    Assembled s' taken sent
      (beats ++ if axi.wdataFire then [(axi.w.data, axi.w.strb)] else []) := by
  unfold RamSlave.riseW at hs
  cases hf : axi.wdataFire with
  | false =>
    rw [hf] at hs
    cases hs
    simpa using h
  | true =>
    rw [if_pos hf] at hs
    obtain ⟨req, hreq, hs⟩ := Option.bind_eq_some_iff.1 hs
    obtain ⟨req', hbeat, rfl⟩ := Option.map_eq_some_iff.1 hs
    obtain ⟨hfill, hheader, w, hw, hholds⟩ :=
      takeBeat_words hbeat (h.filling req hreq) (hroom hf req hreq)
    have hheaders := h.headers
    have hwords := h.words
    simp only [hreq, Option.toList_some, List.map_append, List.map_singleton, List.flatMap_append,
      List.flatMap_singleton] at hheaders hwords
    refine ⟨?_, ?_, ?_, h.full⟩
    · simp [hheader, hheaders]
    · simp only [Option.toList_some, List.flatMap_append, List.flatMap_singleton, hw,
        ← List.append_assoc, ↓reduceIte]
      exact List.rel_append hwords (.cons hholds .nil)
    · rintro _ ⟨⟩
      exact hfill

/-- A complete write is sent. -/
theorem submit [CoDRAMsim3 δ Dramsim3Meta] (h : Assembled s taken sent beats) :
    Assembled (s.submit env) taken (sent ++ (s.complete env).toList) beats := by
  unfold RamSlave.submit
  split
  · rename_i hnone
    simpa [hnone] using h
  · rename_i req hreq
    obtain ⟨hwait, hlen⟩ := RamSlave.complete_eq_some hreq
    have hheaders := h.headers
    have hwords := h.words
    rw [hwait] at hheaders hwords
    rw [hreq]
    refine ⟨by simpa using hheaders, by simpa using hwords, nofun, ?_⟩
    intro req' hmem
    rcases List.mem_append.1 hmem with hmem | hmem
    · exact h.full req' hmem
    · rw [List.mem_singleton.1 hmem, hlen]

end Assembled

section

variable [CoDRAMsim3 δ Dramsim3Meta] [LawfulCoDRAMsim3 δ]

open LawfulCoDRAMsim3

/-- The writes acknowledged and the RAM, against the writes sent to the DRAM model. -/
structure Flushed (ram : RamWords) (s : RamSlave δ) (sent acked : List Request) : Prop where
  served : Served (fun req => [req]) sent acked (pending true s.dram)
    (s.waitRespB.map fun resp => (resp.req, 0))
  ram : s.ram = acked.foldl RamSlave.flush ram

namespace Flushed

variable {ram : RamWords} {s s' : RamSlave δ} {axi : AxiChannel} {env : DramEnv}
  {sent acked : List Request}

/-- Nothing happens to the writes that have been sent. -/
theorem of_perm (h : Flushed ram s sent acked)
    (hp : (pending true s'.dram).Perm (pending true s.dram)) (hb : s'.waitRespB = s.waitRespB)
    (hr : s'.ram = s.ram) : Flushed ram s' sent acked := by
  refine ⟨?_, hr.trans h.ram⟩
  rw [hb]
  exact h.served.reorder hp

theorem tick (h : Flushed ram s sent acked) (hs : s.tick env = some s') :
    Flushed ram s' sent acked := by
  obtain ⟨hd, heq⟩ := RamSlave.tick_spec hs
  exact h.of_perm (tick_pending true hd) (by rw [heq]) (by rw [heq])

theorem riseAr (h : Flushed ram s sent acked) (hs : s.riseAr axi env = some s') :
    Flushed ram s' sent acked := by
  unfold RamSlave.riseAr at hs
  split at hs
  · obtain ⟨req, hreq, rfl⟩ := Option.map_eq_some_iff.1 hs
    have hadd := add_pending true s.dram req
    rw [if_neg (by simp [(readRequest_fields hreq).1])] at hadd
    exact h.of_perm hadd rfl rfl
  · cases hs
    exact h

/-- A response is taken, and the data goes to the RAM. -/
theorem riseB (h : Flushed ram s sent acked) (hs : s.riseB axi = some s') :
    Flushed ram s' sent (acked ++
      if axi.wackFire then s.waitRespB.toList.map CoDRAMResponse.req else []) := by
  cases hf : axi.wackFire with
  | false =>
    obtain rfl := RamSlave.riseB_of_not_fire hf hs
    simpa using h
  | true =>
    obtain ⟨resp, hresp, rfl⟩ := RamSlave.riseB_of_fire hf hs
    have hserved := h.served
    rw [hresp, Option.map_some] at hserved
    rw [hresp, if_pos rfl]
    refine ⟨hserved.answer rfl, ?_⟩
    simp [List.foldl_append, h.ram]

theorem submit (h : Flushed ram s sent acked)
    (hfill : ∀ req, s.waitReqW = some req → Filling req) :
    Flushed ram (s.submit env) (sent ++ (s.complete env).toList) acked := by
  unfold RamSlave.submit
  split
  · rename_i hnone
    simpa [hnone] using h
  · rename_i req hreq
    have hadd := add_pending true s.dram req
    rw [if_pos (hfill req (RamSlave.complete_eq_some hreq).1).isWrite] at hadd
    rw [hreq]
    exact ⟨h.served.accept hadd, h.ram⟩

theorem fetchR (h : Flushed ram s sent acked) : Flushed ram s.fetchR sent acked := by
  unfold RamSlave.fetchR
  split
  · split
    · exact h
    · rename_i resp d hresp
      exact h.of_perm (read_pending hresp).2 rfl rfl
  · exact h

/-- The slave takes the next response up. -/
theorem fetchB (h : Flushed ram s sent acked) : Flushed ram s.fetchB sent acked := by
  unfold RamSlave.fetchB
  split
  · rename_i hnone
    split
    · exact h
    · rename_i resp d hresp
      have hserved := h.served
      rw [Option.isNone_iff_eq_none.1 hnone] at hserved
      exact ⟨hserved.takeUp (write_pending hresp).1, h.ram⟩
  · exact h

end Flushed

/-! ## Runs -/

namespace Bench

/-- The write whose address is taken in this cycle. -/
def takesWrite (c : Bench δ) (i : DramEnv × MasterOut) : List Request :=
  if c.axi.aw.valid && c.axi.aw.ready then [writeRequest c.axi i.1.junk] else []

/-- The beat of a write that is taken in this cycle. -/
def takesBeat (c : Bench δ) (_ : DramEnv × MasterOut) : List (Word × BitVec 8) :=
  if c.axi.wdataFire then [(c.axi.w.data, c.axi.w.strb)] else []

/-- The write that goes to the DRAM model in this cycle. -/
def sendsWrite (c : Bench δ) (i : DramEnv × MasterOut) : List Request :=
  ((c.slave.riseChannels c.axi i.1).bind fun s => s.complete i.1).toList

/-- The write whose response is taken in this cycle. -/
def acksWrite (c : Bench δ) (_ : DramEnv × MasterOut) : List Request :=
  if c.axi.wackFire then c.slave.waitRespB.toList.map CoDRAMResponse.req else []

/-- The id of the response that is taken in this cycle. -/
def ackId (c : Bench δ) (_ : DramEnv × MasterOut) : List (BitVec 8) :=
  if c.axi.wackFire then [c.axi.b.id] else []

/-- A write is a burst of full words that fit into `meta`. -/
def FullWords (c : Bench δ) (_ : DramEnv × MasterOut) : Prop :=
  (c.axi.aw.valid && c.axi.aw.ready) = true → c.axi.aw.size = 3#3 ∧
    c.axi.aw.len.toNat < MAX_AXI_DATA_LEN

/-- Everything about the writes of a run. -/
structure Writing (ram : RamWords) (c : Bench δ) (taken sent acked : List Request)
    (beats : List (Word × BitVec 8)) : Prop where
  assembled : Assembled c.slave taken sent beats
  flushed : Flushed ram c.slave sent acked

omit [CoDRAMsim3 δ Dramsim3Meta] [LawfulCoDRAMsim3 δ] in
/-- The request of a beat that is accepted has room for it. -/
theorem written_room {s : RamSlave δ} {axi : AxiChannel} {env : DramEnv} {req : Request}
    (ho : Offers s axi)
    (hlen : (axi.aw.valid && axi.aw.ready) = true → axi.aw.len.toNat < MAX_AXI_DATA_LEN)
    (hf : axi.wdataFire = true) (hreq : s.written axi env = some req) :
    req.metaData.offset ≠ req.metaData.len := by
  have hready : axi.w.ready = true := by
    simp only [AxiChannel.wdataFire, Bool.and_eq_true] at hf
    exact hf.2
  rw [RamSlave.written] at hreq
  rcases ho.w hready with ⟨hv, hr⟩ | ⟨req', hreq', hne⟩
  · have hfire : (axi.aw.valid && axi.aw.ready) = true := by rw [hv, hr]; rfl
    have hlen' := hlen hfire
    simp only [hfire, ↓reduceIte, Option.some.injEq] at hreq
    subst hreq
    simp only [writeRequest, MAX_AXI_DATA_LEN] at hlen' ⊢
    bv_omega
  · have hquiet : ¬ (axi.aw.valid && axi.aw.ready) = true := by
      intro hfire
      have hnone := (ho.aw (Bool.and_eq_true_iff.1 hfire).2).2
      rw [hreq'] at hnone
      cases hnone
    simp only [hquiet, Bool.false_eq_true, ↓reduceIte, hreq', Option.some.injEq] at hreq
    exact hreq ▸ hne

theorem writing_cycle {ram : RamWords} {c c' : Bench δ} {i : DramEnv × MasterOut}
    {taken sent acked : List Request} {beats : List (Word × BitVec 8)}
    (ho : Offers c.slave c.axi) (hfmt : c.FullWords i)
    (h : Writing ram c taken sent acked beats) (hs : c.cycle i = some c') :
    Writing ram c' (taken ++ c.takesWrite i) (sent ++ c.sendsWrite i) (acked ++ c.acksWrite i)
      (beats ++ c.takesBeat i) := by
  obtain ⟨s, hrise, hslave, -⟩ := cycle_eq_some hs
  obtain ⟨s₆, hchan, rfl⟩ := RamSlave.helperRising_eq_some hrise
  obtain ⟨s₁, s₂, s₃, s₄, s₅, h₁, h₂, h₃, h₄, h₅, h₆⟩ := RamSlave.riseChannels_eq_some hchan
  have hw₄ := RamSlave.waitReqW_of_rising h₁ h₂ h₃ h₄
  have hb₃ := RamSlave.waitRespB_of_rising h₁ h₂ h₃
  have hsend : c.sendsWrite i = (s₆.complete i.1).toList := by
    rw [sendsWrite, hchan, Option.bind_some]
  have hroom (hf : c.axi.wdataFire = true) (req : Request) (hreq : s₅.waitReqW = some req) :
      req.metaData.offset ≠ req.metaData.len := by
    rw [RamSlave.riseAw_spec h₅, RamSlave.written, hw₄] at hreq
    exact written_room ho (fun hfire => (hfmt hfire).2) hf hreq
  have hA : Assembled s₆ (taken ++ c.takesWrite i) sent (beats ++ c.takesBeat i) :=
    ((h.assembled.congr hw₄).riseAw (fun hr => hw₄.trans (ho.aw hr).2)
      (fun hfire => (hfmt hfire).1) h₅).riseW hroom h₆
  have hF : Flushed ram s₆ sent (acked ++ c.acksWrite i) := by
    have h₂' : Flushed ram s₂ sent acked := by
      rw [RamSlave.riseR_spec h₂]
      exact ⟨(h.flushed.tick h₁).served, (h.flushed.tick h₁).ram⟩
    have h₄' := (h₂'.riseAr h₃).riseB h₄
    rw [hb₃] at h₄'
    rw [RamSlave.riseW_spec h₆, RamSlave.riseAw_spec h₅]
    exact ⟨h₄'.served, h₄'.ram⟩
  have hsubmit : Assembled (s₆.submit i.1) _ _ _ := hA.submit
  rw [hsend]
  refine ⟨hsubmit.congr ?_, ?_⟩
  · rw [hslave]
    exact ((Offers.fetchB_fields _).2.trans (Offers.fetchR_waitReqW _))
  · rw [hslave]
    exact (hF.submit hA.filling).fetchR.fetchB

omit [CoDRAMsim3 δ Dramsim3Meta] [LawfulCoDRAMsim3 δ] in
theorem ackId_eq {c : Bench δ} (ho : Offers c.slave c.axi) (i : DramEnv × MasterOut) :
    c.ackId i = (c.acksWrite i).map fun req => req.metaData.id := by
  unfold ackId acksWrite
  split
  · rename_i hf
    have hv : c.axi.b.valid = true := by
      simp only [AxiChannel.wackFire, Bool.and_eq_true] at hf
      exact hf.1
    obtain ⟨resp, hresp⟩ := Option.isSome_iff_exists.1 (ho.b.symm.trans hv)
    simp [hresp, ho.bId resp hresp]
  · rfl

instance (c : Bench δ) (i : DramEnv × MasterOut) : Decidable (c.FullWords i) :=
  inferInstanceAs (Decidable (_ → _))

theorem halfWords_run : (run (lift cycle) (some (counting .writer))
    (fun _ => (.ready, .writer)) 7).isSome = true := by decide +kernel

end Bench

end

end Oscpu.Emu
