import Oscpu.Emu.Ram

/-!
# The memory of the emulator with any master

The master is a stream of outputs, new ones after every clock edge. What the slave has driven before
an edge is what it looks at when the edge comes, so its assertions on the order of the handshakes
never fail; what can stop it is a request or a beat that it cannot serve.
-/

namespace Oscpu.Emu

open Oscpu.Rtl Oscpu.Axi Oscpu.Lib

/-- The slave and the channels, as the last `dramsim3_helper_falling` has left them. -/
structure Bench (δ : Type*) where
  slave : RamSlave δ
  axi : AxiChannel

variable {δ : Type*}

namespace Bench

variable [CoDRAMsim3 δ Dramsim3Meta]

/-- One call of `single_cycle`: the master drives `o` behind the edge. -/
def cycle (c : Bench δ) (i : DramEnv × MasterOut) : Option (Bench δ) :=
  (c.slave.helperRising c.axi i.1).bind fun s =>
    (s.helperFalling (c.axi.copyFrom i.2) i.1).map fun (s, axi) => ⟨s, axi⟩

/-- Before the first cycle. -/
def start (ram : RamWords) (dram : δ) (o : MasterOut) : Bench δ where
  slave := RamSlave.init ram dram
  axi := AxiChannel.start o

end Bench

/-! ## What the slave has driven -/

/-- The beat of a read that is due. -/
structure Beat where
  id : BitVec 8
  data : Word
  last : Bool

/-- The beat on the channel, of which `n` bytes count. -/
def AxiChannel.beat (axi : AxiChannel) (n : Nat) : Beat :=
  ⟨axi.r.id, copyBytes n axi.r.data 0#64, axi.r.last⟩

/-- The beat that a request owes next. -/
def Dramsim3Meta.nextBeat (m : Dramsim3Meta) : Beat :=
  ⟨m.id, copyBytes m.size.toNat (m.data m.dataStart) 0#64, m.isLast⟩

theorem copyBytes_copyBytes (n : Nat) (src dest base : Word) :
    copyBytes n (copyBytes n src dest) base = copyBytes n src base := by
  apply BitVec.eq_of_getLsbD_eq
  intro k hk
  simp only [copyBytes, BitVec.getLsbD_or, BitVec.getLsbD_and, BitVec.getLsbD_not, hk]
  cases (BitVec.ofNat 64 (2 ^ (8 * n) - 1)).getLsbD k <;> simp

/-- The handshakes that the slave has offered fit its state. -/
structure Offers (s : RamSlave δ) (axi : AxiChannel) : Prop where
  r : axi.r.valid = s.waitRespR.isSome
  beat : ∀ resp, s.waitRespR = some resp →
    axi.beat resp.req.metaData.size.toNat = resp.req.metaData.nextBeat
  b : axi.b.valid = s.waitRespB.isSome
  bId : ∀ resp, s.waitRespB = some resp → axi.b.id = resp.req.metaData.id
  aw : axi.aw.ready = true → axi.aw.valid = true ∧ s.waitReqW = none
  w : axi.w.ready = true → axi.aw.valid = true ∧ axi.aw.ready = true ∨
    ∃ req, s.waitReqW = some req ∧ req.metaData.offset ≠ req.metaData.len

namespace Offers

variable [CoDRAMsim3 δ Dramsim3Meta]

/-- The write channels are offered from scratch. -/
theorem acceptW_fields (s : RamSlave δ) (axi : AxiChannel) (env : DramEnv)
    (haw : axi.aw.ready = false) (hw : axi.w.ready = false) :
    let axi' := s.acceptW (s.acceptAw axi env) env
    axi'.r = axi.r ∧ axi'.b = axi.b ∧ axi'.aw.valid = axi.aw.valid ∧
      (axi'.aw.ready = true → axi'.aw.valid = true ∧ s.waitReqW = none) ∧
      (axi'.w.ready = true → axi'.aw.valid = true ∧ axi'.aw.ready = true ∨
        ∃ req, s.waitReqW = some req ∧ req.metaData.offset ≠ req.metaData.len) := by
  cases hreq : s.waitReqW with
  | none =>
    cases hv : axi.aw.valid with
    | false => simp [RamSlave.acceptW, RamSlave.acceptAw, hreq, AxiChannel.getWaddr, hv, haw, hw]
    | true =>
      simp only [RamSlave.acceptW, RamSlave.acceptAw, hreq, AxiChannel.getWaddr, hv, ↓reduceIte]
      split
      · simp [AxiChannel.acceptWaddr, AxiChannel.acceptWdata, hv]
      · simp [haw, hw, hv]
  | some req =>
    simp only [RamSlave.acceptW, RamSlave.acceptAw, hreq]
    split
    · rename_i hacc
      exact ⟨rfl, rfl, rfl, fun h => absurd (haw.symm.trans h) Bool.false_ne_true,
        fun _ => .inr ⟨req, rfl, hacc.2⟩⟩
    · exact ⟨rfl, rfl, rfl, fun h => absurd (haw.symm.trans h) Bool.false_ne_true,
        fun h => absurd (hw.symm.trans h) Bool.false_ne_true⟩

theorem acceptAr_fields (s : RamSlave δ) (axi : AxiChannel) (env : DramEnv) :
    (s.acceptAr axi env).aw = axi.aw ∧ (s.acceptAr axi env).w = axi.w ∧
      (s.acceptAr axi env).r = axi.r ∧ (s.acceptAr axi env).b = axi.b := by
  unfold RamSlave.acceptAr
  split
  · split
    · exact ⟨rfl, rfl, rfl, rfl⟩
    · exact ⟨rfl, rfl, rfl, rfl⟩
  · exact ⟨rfl, rfl, rfl, rfl⟩

theorem fetchR_waitReqW (s : RamSlave δ) : s.fetchR.waitReqW = s.waitReqW := by
  unfold RamSlave.fetchR
  split
  · split <;> rfl
  · rfl

theorem fetchB_fields (s : RamSlave δ) :
    s.fetchB.waitRespR = s.waitRespR ∧ s.fetchB.waitReqW = s.waitReqW := by
  unfold RamSlave.fetchB
  split
  · split <;> exact ⟨rfl, rfl⟩
  · exact ⟨rfl, rfl⟩

/-- Whatever was driven before, the falling half of a cycle offers what fits. -/
theorem falling (s : RamSlave δ) (axi : AxiChannel) (env : DramEnv) :
    Offers (s.falling axi env).1 (s.falling axi env).2 := by
  let s₁ := s.fetchR
  let axi₁ := s₁.putR (RamSlave.quiet axi)
  have hput : axi₁.aw = (RamSlave.quiet axi).aw ∧ axi₁.w = (RamSlave.quiet axi).w ∧
      axi₁.b = (RamSlave.quiet axi).b ∧ axi₁.r.valid = s₁.waitRespR.isSome ∧
      ∀ resp, s₁.waitRespR = some resp →
        axi₁.beat resp.req.metaData.size.toNat = resp.req.metaData.nextBeat := by
    cases hr : s₁.waitRespR with
    | none => simp [axi₁, RamSlave.putR, hr, RamSlave.quiet]
    | some resp =>
      refine ⟨?_, ?_, ?_, ?_, ?_⟩
      case refine_5 =>
        intro resp' heq
        cases heq
        simp [axi₁, RamSlave.putR, hr, AxiChannel.putRdata, AxiChannel.beat, copyBytes_copyBytes,
          Dramsim3Meta.nextBeat]
      all_goals simp [axi₁, RamSlave.putR, hr, AxiChannel.putRdata]
  obtain ⟨haw, hw, hb, hrv, hbeat⟩ := hput
  obtain ⟨har_aw, har_w, har_r, har_b⟩ := acceptAr_fields s₁ axi₁ env
  let axi₂ := s₁.acceptAr axi₁ env
  have haw₂ : axi₂.aw.ready = false := by rw [har_aw, haw]; rfl
  have hw₂ : axi₂.w.ready = false := by rw [har_w, hw]; rfl
  obtain ⟨hr₄, hb₄, -, hawr, hwr⟩ := acceptW_fields s₁ axi₂ env haw₂ hw₂
  let axi₄ := s₁.acceptW (s₁.acceptAw axi₂ env) env
  let s₂ := s₁.fetchB
  obtain ⟨hf_r, hf_w⟩ := fetchB_fields s₁
  change Offers s₂ (s₂.putB axi₄)
  have hput₂ : (s₂.putB axi₄).r = axi₁.r ∧ (s₂.putB axi₄).aw = axi₄.aw ∧
      (s₂.putB axi₄).w = axi₄.w ∧ (s₂.putB axi₄).b.valid = s₂.waitRespB.isSome ∧
      ∀ resp, s₂.waitRespB = some resp → (s₂.putB axi₄).b.id = resp.req.metaData.id := by
    have hr : axi₄.r = axi₁.r := hr₄.trans har_r
    have hv : axi₄.b.valid = false := by rw [hb₄, har_b, hb]; rfl
    cases hb : s₂.waitRespB with
    | none => simp [RamSlave.putB, hb, hr, hv]
    | some resp => simp [RamSlave.putB, hb, hr, AxiChannel.putWack]
  obtain ⟨hr₅, haw₅, hw₅, hbv, hbid⟩ := hput₂
  constructor
  · rw [hr₅, hrv, hf_r]
  · intro resp hresp
    simp only [AxiChannel.beat, hr₅]
    exact hbeat resp (hf_r ▸ hresp)
  · exact hbv
  · exact hbid
  · rw [haw₅, hf_w]
    exact hawr
  · rw [haw₅, hw₅, hf_w]
    exact hwr

end Offers

/-! ## The parts of a rising edge -/

namespace RamSlave

variable {s s' : RamSlave δ} {axi : AxiChannel} {env : DramEnv}

theorem riseR_spec (h : s.riseR axi = some s') : s' = { s with waitRespR := s'.waitRespR } := by
  unfold riseR at h
  split at h
  · obtain ⟨resp, -, rfl⟩ := Option.map_eq_some_iff.1 h
    split <;> rfl
  · cases h
    rfl

theorem riseB_of_fire (hf : axi.wackFire = true) (h : s.riseB axi = some s') :
    ∃ resp, s.waitRespB = some resp ∧
      s' = { s with ram := flush s.ram resp.req, waitRespB := none } := by
  rw [riseB, if_pos hf] at h
  obtain ⟨resp, hresp, h⟩ := Option.bind_eq_some_iff.1 h
  exact ⟨resp, hresp, (Option.some.inj (Option.ite_none_right_eq_some.1 h).2).symm⟩

theorem riseB_of_not_fire (hf : axi.wackFire = false) (h : s.riseB axi = some s') : s' = s := by
  rw [riseB, hf] at h
  exact (Option.some.inj h).symm

theorem riseB_spec (h : s.riseB axi = some s') :
    s' = { s with ram := s'.ram, waitRespB := s'.waitRespB } := by
  cases hf : axi.wackFire with
  | false => rw [riseB_of_not_fire hf h]
  | true =>
    obtain ⟨resp, -, rfl⟩ := riseB_of_fire hf h
    rfl

/-- What a beat leaves in `meta`. -/
theorem takeBeat_eq_some {ram : RamWords} {req req' : Request}
    (h : takeBeat ram axi req = some req') :
    let m := req.metaData
    ∃ w, axi.getWdata (m.data m.dataStart) (ram (srcIdx axi m)) m.size.toNat = some w ∧
      req' = req.withMeta { m with data := Function.update m.data m.dataStart w }.advance := by
  rw [takeBeat, Option.ite_none_right_eq_some] at h
  obtain ⟨w, hw, heq⟩ := Option.map_eq_some_iff.1 h.2
  exact ⟨w, hw, heq.symm⟩

/-- The request that the data beat of this cycle belongs to. -/
def written (s : RamSlave δ) (axi : AxiChannel) (env : DramEnv) : Option Request :=
  if axi.aw.valid && axi.aw.ready then some (writeRequest axi env.junk) else s.waitReqW

theorem riseAw_spec (h : s.riseAw axi env = some s') :
    s' = { s with waitReqW := s.written axi env } := by
  simp only [riseAw, AxiChannel.waddrFire, Option.bind_eq_some_iff] at h
  obtain ⟨fire, hf, h⟩ := h
  unfold written
  split at hf
  · rename_i haw
    split at hf
    · cases hf
      rw [if_pos rfl] at h
      split at h
      · cases h
        rw [if_pos haw]
      · cases h
    · cases hf
  · rename_i haw
    cases hf
    cases h
    rw [if_neg haw]

theorem riseW_spec (h : s.riseW axi = some s') : s' = { s with waitReqW := s'.waitReqW } := by
  unfold riseW at h
  split at h
  · obtain ⟨req, -, h⟩ := Option.bind_eq_some_iff.1 h
    obtain ⟨req', -, rfl⟩ := Option.map_eq_some_iff.1 h
    rfl
  · cases h
    rfl

variable [CoDRAMsim3 δ Dramsim3Meta]

theorem tick_spec (h : s.tick env = some s') :
    CoDRAMsim3.tick s.dram env.callbacks = some s'.dram ∧ s' = { s with dram := s'.dram } := by
  obtain ⟨d, hd, rfl⟩ := Option.map_eq_some_iff.1 h
  exact ⟨hd, rfl⟩

theorem riseAr_spec (h : s.riseAr axi env = some s') : s' = { s with dram := s'.dram } := by
  unfold riseAr at h
  split at h
  · obtain ⟨req, -, rfl⟩ := Option.map_eq_some_iff.1 h
    rfl
  · cases h
    rfl

theorem complete_eq_some {req : Request} (h : s.complete env = some req) :
    s.waitReqW = some req ∧ req.metaData.offset = req.metaData.len := by
  obtain ⟨hreq, hc⟩ := Option.filter_eq_some_iff.1 h
  simp only [Bool.and_eq_true, beq_iff_eq] at hc
  exact ⟨hreq, hc.1⟩

/-- The states between the parts of a rising edge. -/
theorem riseChannels_eq_some (h : s.riseChannels axi env = some s') :
    ∃ s₁ s₂ s₃ s₄ s₅, s.tick env = some s₁ ∧ s₁.riseR axi = some s₂ ∧
      s₂.riseAr axi env = some s₃ ∧ s₃.riseB axi = some s₄ ∧ s₄.riseAw axi env = some s₅ ∧
      s₅.riseW axi = some s' := by
  simp only [riseChannels, Option.bind_eq_bind, Option.bind_eq_some_iff] at h
  obtain ⟨s₁, h₁, s₂, h₂, s₃, h₃, s₄, h₄, s₅, h₅, h₆⟩ := h
  exact ⟨s₁, s₂, s₃, s₄, s₅, h₁, h₂, h₃, h₄, h₅, h₆⟩

section

variable {s₁ s₂ s₃ s₄ : RamSlave δ}

/-- The response of a write is still there when its channel is looked at. -/
theorem waitRespB_of_rising (h₁ : s.tick env = some s₁) (h₂ : s₁.riseR axi = some s₂)
    (h₃ : s₂.riseAr axi env = some s₃) : s₃.waitRespB = s.waitRespB := by
  rw [riseAr_spec h₃, riseR_spec h₂, (tick_spec h₁).2]

/-- And so is a write that waits for its data. -/
theorem waitReqW_of_rising (h₁ : s.tick env = some s₁) (h₂ : s₁.riseR axi = some s₂)
    (h₃ : s₂.riseAr axi env = some s₃) (h₄ : s₃.riseB axi = some s₄) :
    s₄.waitReqW = s.waitReqW := by
  rw [riseB_spec h₄, riseAr_spec h₃, riseR_spec h₂, (tick_spec h₁).2]

end

theorem helperRising_eq_some (h : s.helperRising axi env = some s') :
    ∃ t, s.riseChannels axi env = some t ∧ s' = t.submit env := by
  obtain ⟨t, ht, rfl⟩ := Option.map_eq_some_iff.1 h
  exact ⟨t, ht, rfl⟩

end RamSlave

/-! ## When the emulator aborts -/

/-- A read that `axi_read_data` serves: whole words, no more than `meta` holds and all in the RAM, in
a burst that increments, or in one that wraps and has not 256 beats. -/
def AddrChannel.ReadOk (ar : AddrChannel) : Prop :=
  ar.transactionSize % 8 = 0 ∧
    (ar.burst = 1#8 ∧ ar.Fits ar.incrIdx ∨
      ar.burst = 2#8 ∧ ar.transactionSize ≠ 0 ∧ ar.Fits ar.wrapIdx)

instance (ar : AddrChannel) : Decidable ar.ReadOk :=
  inferInstanceAs (Decidable (_ ∧ (_ ∧ _ ∨ _ ∧ _ ∧ _)))

theorem axiReadData_isSome_iff (ram : RamWords) (ar : AddrChannel) (junk : Nat → Word) :
    (axiReadData ram ar junk).isSome = true ↔ ar.ReadOk := by
  rw [axiReadData, Option.isSome_map, burstWords, AddrChannel.ReadOk]
  by_cases h8 : ar.transactionSize % 8 = 0
  · by_cases h1 : ar.burst = 1#8
    · by_cases hfit : ar.Fits ar.incrIdx
      · simp [h8, h1, hfit]
      · simp [h8, h1, hfit]
    · by_cases h2 : ar.burst = 2#8
      · by_cases hfit : ar.transactionSize ≠ 0 ∧ ar.Fits ar.wrapIdx
        · simp [h8, h2, hfit]
        · simp [h8, h2, hfit]
      · simp [h8, h1, h2]
  · simp [h8]

/-- A beat that `axi_get_wdata` takes: it fits, and has no more than eight bytes if they are merged
with the RAM. -/
def RamSlave.BeatOk (axi : AxiChannel) (m : Dramsim3Meta) : Prop :=
  takeFits axi m = true ∧ (axi.w.strb ≠ 0xff#8 → m.size.toNat ≤ 8)

/-- What makes the rising half of a cycle fail: the memory system reports a transaction that it was
not given, or a request or a beat that is accepted, or a write that is copied to the RAM, is not one
that the slave can serve. -/
def RamSlave.Faulty [CoDRAMsim3 δ Dramsim3Meta] (s : RamSlave δ) (axi : AxiChannel)
    (env : DramEnv) : Prop :=
  CoDRAMsim3.tick s.dram env.callbacks = none ∨
  (axi.raddrFire = true ∧ ¬ axi.ar.ReadOk) ∨
  (axi.wackFire = true ∧ ∃ resp, s.waitRespB = some resp ∧ flushFits resp.req = false) ∨
  ((axi.aw.valid && axi.aw.ready) = true ∧ axi.waddrOk = false) ∨
  (axi.wdataFire = true ∧ ∃ req, s.written axi env = some req ∧ ¬ BeatOk axi req.metaData)

/-- What makes the falling half fail: the beat that goes on the bus next is not in `meta->data`, or
too wide for the channel. -/
def RamSlave.Overruns [CoDRAMsim3 δ Dramsim3Meta] (s : RamSlave δ) : Prop :=
  ∃ resp, s.fetchR.waitRespR = some resp ∧ resp.req.metaData.beatFits = false

namespace RamSlave

variable {s s' : RamSlave δ} {axi : AxiChannel} {env : DramEnv}

theorem takeBeat_isSome_iff (ram : RamWords) (axi : AxiChannel) (req : Request) :
    (takeBeat ram axi req).isSome = true ↔ BeatOk axi req.metaData := by
  rw [takeBeat, BeatOk]
  cases hfit : takeFits axi req.metaData with
  | false => simp
  | true =>
    by_cases hs : axi.w.strb = 0xff#8
    · simp [AxiChannel.getWdata, hs]
    · by_cases hn : req.metaData.size.toNat ≤ 8
      · simp [AxiChannel.getWdata, hs, hn]
      · simp [AxiChannel.getWdata, hs, hn]

theorem exists_riseR (h : axi.r.valid = s.waitRespR.isSome) : ∃ s', s.riseR axi = some s' := by
  unfold riseR
  split
  · rename_i hf
    have hv : axi.r.valid = true := by
      simp only [AxiChannel.rdataFire, Bool.and_eq_true] at hf
      exact hf.2
    obtain ⟨resp, hresp⟩ := Option.isSome_iff_exists.1 (h.symm.trans hv)
    rw [hresp]
    exact ⟨_, rfl⟩
  · exact ⟨s, rfl⟩

theorem exists_riseB_iff (h : axi.b.valid = s.waitRespB.isSome) :
    (∃ s', s.riseB axi = some s') ↔
      (axi.wackFire = true → ∀ resp, s.waitRespB = some resp → flushFits resp.req = true) := by
  rw [← Option.isSome_iff_exists, riseB]
  cases hf : axi.wackFire with
  | false => simp
  | true =>
    have hv : axi.b.valid = true := by
      simp only [AxiChannel.wackFire, Bool.and_eq_true] at hf
      exact hf.1
    obtain ⟨resp, hresp⟩ := Option.isSome_iff_exists.1 (h.symm.trans hv)
    cases hfit : flushFits resp.req
    · simp [hresp, hfit]
    · simp [hresp, hfit]

theorem exists_riseAw_iff (h : axi.aw.ready = true → s.waitReqW = none) :
    (∃ s', s.riseAw axi env = some s') ↔
      ((axi.aw.valid && axi.aw.ready) = true → axi.waddrOk = true) := by
  rw [← Option.isSome_iff_exists, riseAw, AxiChannel.waddrFire]
  cases hf : axi.aw.valid && axi.aw.ready with
  | false => simp
  | true =>
    have hr : axi.aw.ready = true := (Bool.and_eq_true_iff.1 hf).2
    cases hok : axi.waddrOk
    · simp
    · simp [h hr]

theorem exists_riseW_iff (h : axi.wdataFire = true → s.waitReqW.isSome) :
    (∃ s', s.riseW axi = some s') ↔
      (axi.wdataFire = true → ∀ req, s.waitReqW = some req → BeatOk axi req.metaData) := by
  rw [← Option.isSome_iff_exists, riseW]
  cases hf : axi.wdataFire with
  | false => simp
  | true =>
    obtain ⟨req, hreq⟩ := Option.isSome_iff_exists.1 (h hf)
    simp [hreq, takeBeat_isSome_iff]

/-- The request of a data beat is there: it is accepted in this cycle or waits for the beat. -/
theorem written_isSome (h : Offers s axi) (hf : axi.wdataFire = true) :
    (s.written axi env).isSome := by
  have hw : axi.w.ready = true := by
    simp only [AxiChannel.wdataFire, Bool.and_eq_true] at hf
    exact hf.2
  unfold written
  rcases h.w hw with ⟨hv, hr⟩ | ⟨req, hreq, -⟩
  · simp [hv, hr]
  · split
    · rfl
    · simp [hreq]

variable [CoDRAMsim3 δ Dramsim3Meta]

theorem exists_riseAr_iff :
    (∃ s', s.riseAr axi env = some s') ↔ (axi.raddrFire = true → axi.ar.ReadOk) := by
  rw [← Option.isSome_iff_exists, riseAr]
  cases hf : axi.raddrFire
  · simp
  · simp [readRequest, axiReadData_isSome_iff]

theorem exists_helperRising_iff (h : Offers s axi) :
    (∃ s', s.helperRising axi env = some s') ↔ ¬ s.Faulty axi env := by
  constructor
  · rintro ⟨s', hs⟩ hF
    obtain ⟨s₆, hs, -⟩ := helperRising_eq_some hs
    obtain ⟨s₁, s₂, s₃, s₄, s₅, h₁, h₂, h₃, h₄, h₅, h₆⟩ := riseChannels_eq_some hs
    have hwaitB := waitRespB_of_rising h₁ h₂ h₃
    have hreq₄ := waitReqW_of_rising h₁ h₂ h₃ h₄
    have hreq₅ : s₅.waitReqW = s.written axi env := by
      rw [riseAw_spec h₅, written, written, hreq₄]
    rcases hF with htick | ⟨hfire, hok⟩ | ⟨hfire, resp, hresp, hfit⟩ | ⟨hfire, hok⟩ |
      ⟨hfire, req, hreq, hbeat⟩
    · rw [(tick_spec h₁).1] at htick
      cases htick
    · exact hok (exists_riseAr_iff.1 ⟨s₃, h₃⟩ hfire)
    · have := (exists_riseB_iff (s := s₃) (by rw [hwaitB]; exact h.b)).1 ⟨s₄, h₄⟩ hfire resp
        (hwaitB.trans hresp)
      rw [hfit] at this
      cases this
    · have := (exists_riseAw_iff fun hr => hreq₄.trans (h.aw hr).2).1 ⟨s₅, h₅⟩ hfire
      rw [hok] at this
      cases this
    · have hsome (hw : axi.wdataFire = true) : s₅.waitReqW.isSome := by
        rw [hreq₅]
        exact written_isSome h hw
      exact hbeat ((exists_riseW_iff hsome).1 ⟨s₆, h₆⟩ hfire req (hreq₅.trans hreq))
  · intro hF
    simp only [Faulty, not_or, not_and, not_exists, Bool.not_eq_false, not_not] at hF
    obtain ⟨htick, hread, hflush, hwrite, hbeat⟩ := hF
    obtain ⟨d, hd⟩ := Option.ne_none_iff_exists'.1 htick
    have h₁ : s.tick env = some { s with dram := d } := by simp [tick, hd]
    obtain ⟨s₂, h₂⟩ := exists_riseR (s := { s with dram := d }) h.r
    obtain ⟨s₃, h₃⟩ : ∃ s₃, s₂.riseAr axi env = some s₃ := exists_riseAr_iff.2 hread
    have hwaitB := waitRespB_of_rising h₁ h₂ h₃
    obtain ⟨s₄, h₄⟩ : ∃ s₄, s₃.riseB axi = some s₄ :=
      (exists_riseB_iff (h.b.trans (by rw [hwaitB]))).2 fun hf resp hresp =>
        hflush hf resp (hwaitB.symm.trans hresp)
    have hreq₄ := waitReqW_of_rising h₁ h₂ h₃ h₄
    obtain ⟨s₅, h₅⟩ : ∃ s₅, s₄.riseAw axi env = some s₅ :=
      (exists_riseAw_iff fun hr => hreq₄.trans (h.aw hr).2).2 hwrite
    have hreq₅ : s₅.waitReqW = s.written axi env := by
      rw [riseAw_spec h₅, written, written, hreq₄]
    obtain ⟨s₆, h₆⟩ := (exists_riseW_iff fun hw => by
      rw [hreq₅]
      exact written_isSome h hw).2 fun hw req hreq => hbeat hw req (hreq₅.symm.trans hreq)
    exact ⟨s₆.submit env, by simp [helperRising, riseChannels, h₁, h₂, h₃, h₄, h₅, h₆]⟩

theorem exists_helperFalling_iff (axi : AxiChannel) :
    (∃ r, s.helperFalling axi env = some r) ↔ ¬ s.Overruns := by
  rw [helperFalling, putFits, Overruns]
  cases hresp : s.fetchR.waitRespR with
  | none => simp
  | some resp => cases hfit : resp.req.metaData.beatFits <;> simp [hfit]

end RamSlave

namespace Bench

variable [CoDRAMsim3 δ Dramsim3Meta] {ram : RamWords} {dram : δ} {o : MasterOut}
  {is : Nat → DramEnv × MasterOut} {n : Nat} {c c' : Bench δ}

theorem cycle_eq_some {i : DramEnv × MasterOut} (h : c.cycle i = some c') :
    ∃ s, c.slave.helperRising c.axi i.1 = some s ∧
      c'.slave = (s.falling (c.axi.copyFrom i.2) i.1).1 ∧
      c'.axi = (s.falling (c.axi.copyFrom i.2) i.1).2 := by
  obtain ⟨s, hs, h⟩ := Option.bind_eq_some_iff.1 h
  obtain ⟨_, hfall, rfl⟩ := Option.map_eq_some_iff.1 h
  rw [RamSlave.helperFalling] at hfall
  split at hfall
  · cases hfall
    exact ⟨s, hs, rfl, rfl⟩
  · cases hfall

theorem offers (h : Reaches cycle (start ram dram o) is n c) : Offers c.slave c.axi := by
  cases n with
  | zero =>
    cases reaches_zero.1 h
    exact ⟨rfl, nofun, rfl, nofun, nofun, nofun⟩
  | succ n =>
    obtain ⟨t, -, hs⟩ := reaches_succ.1 h
    obtain ⟨s, -, hslave, haxi⟩ := cycle_eq_some hs
    rw [hslave, haxi]
    exact Offers.falling _ _ _

/-- **Why a run aborts**: never for the order of the handshakes, whatever the master and the DRAM
do, but for a transaction that nobody has asked for, or a request or a beat that the slave cannot
serve. -/
theorem aborts_iff (h : Reaches cycle (start ram dram o) is n c) :
    c.cycle (is n) = none ↔ c.slave.Faulty c.axi (is n).1 ∨
      ∃ s, c.slave.helperRising c.axi (is n).1 = some s ∧ s.Overruns := by
  have hrise : (∃ s', c.slave.helperRising c.axi (is n).1 = some s') ↔ _ :=
    RamSlave.exists_helperRising_iff (offers h)
  rw [cycle, Option.bind_eq_none_iff]
  constructor
  · intro hnone
    refine or_iff_not_imp_left.2 fun hF => ?_
    obtain ⟨s, hs⟩ := hrise.2 hF
    refine ⟨s, hs, ?_⟩
    by_contra hO
    obtain ⟨r, hr⟩ := (RamSlave.exists_helperFalling_iff (c.axi.copyFrom (is n).2)).2 hO
    have hfall := hnone s hs
    rw [hr] at hfall
    cases hfall
  · rintro (hF | ⟨s, hs, hO⟩) s' hs'
    · exact absurd hF (hrise.1 ⟨s', hs'⟩)
    · obtain rfl := Option.some.inj (hs.symm.trans hs')
      rw [Option.map_eq_none_iff, Option.eq_none_iff_forall_ne_some]
      exact fun r hr => (RamSlave.exists_helperFalling_iff _).1 ⟨r, hr⟩ hO

/-- The RAM with the number of each word in it, behind a DRAM model that takes one cycle. -/
def counting (o : MasterOut) : Bench (SimpleCoDRAMsim3 Dramsim3Meta) :=
  start (fun k => BitVec.ofNat 64 k) (SimpleCoDRAMsim3.init 1) o

theorem fixedReads_run : (run (lift cycle) (some (counting (.reader 0#8 1#8)))
    (fun _ => (.ready, .reader 0#8 1#8)) 1).isSome = true := by decide +kernel

/-- A burst of type FIXED is accepted, and ends the run. -/
theorem aborts_iff_fixed :
    let is : Nat → DramEnv × MasterOut := fun _ => (.ready, .reader 0#8 1#8)
    ∃ c, Reaches cycle (counting (.reader 0#8 1#8)) is 1 c ∧ c.cycle (is 1) = none :=
  ⟨_, reaches_get fixedReads_run,
    (aborts_iff (reaches_get fixedReads_run)).2 (.inl (.inr (.inl (by decide +kernel))))⟩

end Bench

end Oscpu.Emu