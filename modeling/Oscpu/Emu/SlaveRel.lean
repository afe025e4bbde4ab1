import Oscpu.Emu.Emulator

/-!
# The emulator's memory and the slave

The RAM stands for a window of the address space; beyond it every address is an alias of one in the
RAM. `SlaveRel` relates the slave of `System` to the static variables of `ram.cpp` when each has one
read and one write in progress at most: the memory of the slave is the RAM with the data of the
write over it, from its data handshake on.
-/

namespace Oscpu.Emu

open Oscpu.Rtl Oscpu.Axi Oscpu.Lib

variable {δ : Type*}

/-! ## Addresses -/

/-- The index of the RAM word at an address relative to the RAM. -/
def ramIdx (addr : Word) : Nat := addr.toNat % EMU_RAM_SIZE / 8

/-- The RAM word that a 64-bit word of the address space is read from. -/
def wordAlias (k : Word) : Nat := ramIdx (8#64 * k - 0x80000000#64)

/-- The words of the address space that the RAM is meant for. -/
def InWindow (k : Word) : Prop :=
  0x10000000 ≤ k.toNat ∧ k.toNat < 0x10000000 + EMU_RAM_SIZE / 8

/-- A word of the window, or an alias of a RAM word in `T`. -/
def Covered (T : Nat → Prop) (k : Word) : Prop := InWindow k ∨ T (wordAlias k)

instance (k : Word) : Decidable (InWindow k) := inferInstanceAs (Decidable (_ ∧ _))

instance (T : Nat → Prop) [DecidablePred T] (k : Word) : Decidable (Covered T k) :=
  inferInstanceAs (Decidable (_ ∨ _))

theorem wordAlias_add {a : Word} {k : Nat}
    (hk : ramIdx (a - 0x80000000#64) + k < EMU_RAM_SIZE / 8) :
    wordAlias (Mem.wordIdx a + BitVec.ofNat 64 k) = ramIdx (a - 0x80000000#64) + k := by
  have ha := a.isLt
  simp only [ramIdx, wordAlias, Mem.wordIdx, EMU_RAM_SIZE, BitVec.toNat_sub, BitVec.toNat_mul,
    BitVec.toNat_add, BitVec.toNat_ofNat, BitVec.toNat_ushiftRight,
    Nat.shiftRight_eq_div_pow] at hk ⊢
  omega

theorem ramIdx_lt (addr : Word) : ramIdx addr < EMU_RAM_SIZE / 8 := by
  simp only [ramIdx, EMU_RAM_SIZE]
  omega

theorem wordAlias_wordIdx (a : Word) :
    wordAlias (Mem.wordIdx a) = ramIdx (a - 0x80000000#64) := by
  simpa using wordAlias_add (k := 0) (ramIdx_lt (a - 0x80000000#64))

theorem wordAlias_inj {j k : Word} (hj : InWindow j) (hk : InWindow k)
    (h : wordAlias j = wordAlias k) : j = k := by
  apply BitVec.eq_of_toNat_eq
  obtain ⟨hj₁, hj₂⟩ := hj
  obtain ⟨hk₁, hk₂⟩ := hk
  simp only [ramIdx, wordAlias, EMU_RAM_SIZE, BitVec.toNat_sub, BitVec.toNat_mul,
    BitVec.toNat_ofNat] at *
  omega

/-- A word that is written has no other name among those covered. -/
theorem eq_of_wordAlias {T : Nat → Prop} {j k : Word} (hj : InWindow j) (hT : ¬ T (wordAlias j))
    (hk : Covered T k) (h : wordAlias k = wordAlias j) : k = j := by
  rcases hk with hk | hk
  · exact wordAlias_inj hk hj h
  · rw [h] at hk
    exact absurd hk hT

/-! ## The slave, one channel at a time -/

/-- A beat of a read is taken. -/
def takeR (o : AxiOut) (i : AxiIn) (sl : Slave) : Slave :=
  if i.rValid && o.rReady then
    { sl with rd := if i.rLast then none else sl.rd.map fun b => { b with done := b.done + 1#8 } }
  else sl

/-- The address of a read is taken. -/
def takeAr (o : AxiOut) (i : AxiIn) (sl : Slave) : Slave :=
  if i.arReady && o.arValid then { sl with rd := some ⟨o.arAddr, o.arId, o.arLen, 0#8⟩ } else sl

/-- A response is taken. -/
def takeB (o : AxiOut) (i : AxiIn) (sl : Slave) : Slave :=
  if i.bValid && o.bReady then { sl with wr := none } else sl

/-- The address of a write is taken. -/
def takeAw (o : AxiOut) (i : AxiIn) (sl : Slave) : Slave :=
  if i.awReady && o.awValid then { sl with wr := some ⟨o.awAddr, o.awId, false⟩ } else sl

/-- The data of a write is taken. -/
def takeW (o : AxiOut) (i : AxiIn) (sl : Slave) : Slave :=
  if i.wReady && o.wValid then
    { sl with
      mem := match sl.wr with
        | some w => if !w.dataDone then sl.mem.write w.addr o.wData o.wStrb else sl.mem
        | none => sl.mem
      wr := sl.wr.map fun w => { w with dataDone := true } }
  else sl

/-- The channels of a write are used one at a time. -/
def OneAtATime (o : AxiOut) : Prop :=
  (o.wValid = true → o.awValid = false) ∧ (o.wValid = true → o.bReady = false)

/-- A clock edge of the slave, one channel after the other. -/
theorem slave_step_eq (sl : Slave) {o : AxiOut} {i : AxiIn} (h : OneAtATime o) :
    sl.step o i = { takeW o i (takeAw o i (takeB o i (takeAr o i (takeR o i sl)))) with
      rid := i.rId, bid := i.bId } := by
  obtain ⟨mem, rd, wr, rid, bid⟩ := sl
  cases hw : i.wReady && o.wValid with
  | true =>
    have hwv : o.wValid = true := (Bool.and_eq_true_iff.1 hw).2
    cases hr : i.rValid && o.rReady <;> cases har : i.arReady && o.arValid <;> cases wr <;>
      simp [Slave.step, takeW, takeAw, takeB, takeAr, takeR, hw, hr, har, h.1 hwv, h.2 hwv]
  | false =>
    cases hr : i.rValid && o.rReady <;> cases har : i.arReady && o.arValid <;>
    cases hb : i.bValid && o.bReady <;> cases haw : i.awReady && o.awValid <;> cases wr <;>
      simp [Slave.step, takeW, takeAw, takeB, takeAr, takeR, hw, hr, har, hb, haw]

/-! ## The RAM under a write in progress -/

/-- The RAM as it will be when the write is flushed, once the write has its data. -/
def overlay (ram : RamWords) (req : Request) : RamWords :=
  if req.metaData.offset = 0#8 then ram
  else Function.update ram (ramIdx req.address) (req.metaData.data 0)

theorem foldl_overlay_of_ne {ram : RamWords} {reqs : List Request} {j : Nat}
    (h : ∀ req ∈ reqs, req.metaData.offset ≠ 0#8 → ramIdx req.address ≠ j) :
    reqs.foldl overlay ram j = ram j := by
  induction reqs generalizing ram with
  | nil => rfl
  | cons req reqs ih =>
    rw [List.foldl_cons, ih fun r hr => h r (List.mem_cons_of_mem _ hr)]
    by_cases hoff : req.metaData.offset = 0#8
    · rw [overlay, if_pos hoff]
    · rw [overlay, if_neg hoff]
      exact Function.update_of_ne (h req List.mem_cons_self hoff).symm _ _

/-- The flush of one word. -/
theorem flush_eq (ram : RamWords) {req : Request} (hlen : req.metaData.len = 1#8)
    (hsize : req.metaData.size = 8#8) :
    RamSlave.flush ram req = Function.update ram (ramIdx req.address) (req.metaData.data 0) := by
  funext k
  simp only [RamSlave.flush, RamWords.memcpy, hlen, hsize, Function.update_apply]
  change (if k < ramIdx req.address then ram k else
    copyBytes (8 - 8 * (k - ramIdx req.address)) (req.metaData.data (k - ramIdx req.address))
      (ram k)) = _
  rcases Nat.lt_trichotomy k (ramIdx req.address) with hlt | rfl | hgt
  · rw [if_pos hlt, if_neg (Nat.ne_of_lt hlt)]
  · rw [if_neg (Nat.lt_irrefl _), if_pos rfl, Nat.sub_self, Nat.mul_zero, Nat.sub_zero,
      copyBytes_eq le_rfl]
  · have hzero : 8 - 8 * (k - ramIdx req.address) = 0 := by omega
    rw [if_neg (Nat.lt_asymm hgt), if_neg (Nat.ne_of_gt hgt), hzero, copyBytes_zero]

/-- What is read for an incrementing burst of full words. -/
theorem readRequest_incr {ram : RamWords} {axi : AxiChannel} {junk : Nat → Word} {req : Request}
    (h : readRequest ram axi junk = some req) (hsize : axi.ar.size = 3#3)
    (hburst : axi.ar.burst = 1#8) (hlen : axi.ar.len.toNat ≤ 1) :
    req.address = axi.ar.addr ∧ req.metaData.id = axi.ar.id ∧ req.metaData.size = 8#8 ∧
      req.metaData.len = axi.ar.len + 1#8 ∧
      ∀ k ≤ axi.ar.len.toNat, req.metaData.data k = ram (ramIdx axi.ar.addr + k) := by
  obtain ⟨m, hm, rfl⟩ := Option.map_eq_some_iff.1 h
  obtain ⟨words, hwords, rfl⟩ := Option.map_eq_some_iff.1 hm
  have hcount : axi.ar.transactionSize / 8 = axi.ar.len.toNat + 1 := by
    have hsum : (axi.ar.len + 1#8).toNat = axi.ar.len.toNat + 1 := by bv_omega
    rw [AddrChannel.transactionSize, hsize, hsum]
    exact Nat.mul_div_cancel_left _ (by decide)
  have hram : words = fun k => ram (ramIdx axi.ar.addr + k) := by
    simp only [burstWords, hburst] at hwords
    split at hwords
    · cases hwords
    · split at hwords
      · rename_i h0
        exact absurd h0 (by decide)
      · simp only [↓reduceIte, Option.ite_none_right_eq_some, Option.some.injEq] at hwords
        exact hwords.2.symm
  refine ⟨rfl, rfl, ?_, rfl, fun k hk => ?_⟩
  · change BitVec.ofNat 8 (2 ^ axi.ar.size.toNat) = 8#8
    rw [hsize]
    rfl
  · change (if k < axi.ar.transactionSize / 8 then words k else junk k) = _
    rw [if_pos (by omega), hram]

/-- What a beat of a full word leaves in `meta`. -/
theorem takeBeat_first {ram : RamWords} {axi : AxiChannel} {req req' : Request}
    (h : RamSlave.takeBeat ram axi req = some req') (hsize : req.metaData.size = 8#8)
    (hoff : req.metaData.offset = 0#8) :
    ∃ w, w = ((ram (ramIdx axi.aw.addr) &&& ~~~strbMask axi.w.strb) |||
        (axi.w.data &&& strbMask axi.w.strb)) ∧
      req' = req.withMeta
        { req.metaData with offset := 1#8, data := Function.update req.metaData.data 0 w } := by
  obtain ⟨w, hw, rfl⟩ := RamSlave.takeBeat_eq_some h
  obtain ⟨address, isWrite, ⟨len, size, offset, id, data⟩⟩ := req
  subst hsize hoff
  refine ⟨w, ?_, by simp [Dramsim3Meta.advance, Dramsim3Meta.dataStart, CoDRAMRequest.withMeta]⟩
  simp only [AxiChannel.getWdata, copyBytes_eq le_rfl, BitVec.toNat_ofNat, Nat.reducePow,
    Nat.reduceMod] at hw
  split at hw
  · rename_i hstrb
    have hff : strbMask 0xff#8 = BitVec.allOnes 64 := by decide
    rw [beq_iff_eq] at hstrb
    cases hw
    rw [hstrb, hff, BitVec.not_allOnes, BitVec.and_zero, BitVec.and_allOnes, BitVec.zero_or]
  · simp only [le_refl, ↓reduceIte, Option.some.injEq] at hw
    exact hw.symm

/-! ## One read and one write in progress -/

/-- A read that the DRAM model has, and the burst of the slave. -/
structure ReadRel (mem : Mem) (req : Request) (b : ReadBurst) : Prop where
  address : req.address = b.addr - 0x80000000#64
  room : ramIdx req.address + b.len.toNat < EMU_RAM_SIZE / 8
  id : req.metaData.id = b.id.zeroExtend 8
  size : req.metaData.size = 8#8
  len : req.metaData.len = b.len + 1#8
  short : b.len.toNat ≤ 1
  offset : req.metaData.offset = b.done
  inside : b.done.toNat ≤ b.len.toNat
  data : ∀ k ≤ b.len.toNat, req.metaData.data k = mem (Mem.wordIdx b.addr + BitVec.ofNat 64 k)

/-- A write that is on its way, and the write of the slave. -/
structure WriteRel (req : Request) (w : WriteTrans) : Prop where
  isWrite : req.isWrite = true
  address : req.address = w.addr - 0x80000000#64
  id : req.metaData.id = w.id.zeroExtend 8
  size : req.metaData.size = 8#8
  done : w.dataDone = (req.metaData.offset != 0#8)
  one : req.metaData.offset = 0#8 ∨ req.metaData.offset = 1#8
  len : req.metaData.len ≠ 0#8

/-- Lists that are related to at most one item are equal when they hold the same. -/
theorem eq_of_perm_of_forall₂ {α β : Type*} {R : α → β → Prop} {l l' : List α} {o : Option β}
    (hp : l'.Perm l) (h : List.Forall₂ R l o.toList) : l' = l := by
  cases o with
  | none =>
    cases h
    exact List.perm_nil.1 hp
  | some b =>
    rcases h with _ | ⟨-, hnil⟩
    cases hnil
    exact List.perm_singleton.1 hp

theorem eq_singleton_of_mem {α β : Type*} {R : α → β → Prop} {l : List α} {a : α} {o : Option β}
    (h : List.Forall₂ R l o.toList) (ha : a ∈ l) : l = [a] ∧ ∃ b, o = some b ∧ R a b := by
  cases o with
  | none =>
    cases h
    cases ha
  | some b =>
    rcases h with _ | ⟨hab, hnil⟩
    cases hnil
    cases List.mem_singleton.1 ha
    exact ⟨rfl, b, rfl, hab⟩

theorem forall₂_imp_of_mem {α β : Type*} {R S : α → β → Prop} {l : List α} {o : Option β}
    (h : List.Forall₂ R l o.toList) (hS : ∀ a ∈ l, ∀ b, R a b → S a b) :
    List.Forall₂ S l o.toList := by
  cases o with
  | none =>
    cases h
    exact .nil
  | some b =>
    rcases h with _ | ⟨hab, hnil⟩
    cases hnil
    exact .cons (hS _ List.mem_cons_self b hab) .nil

section

variable [CoDRAMsim3 δ Dramsim3Meta] [LawfulCoDRAMsim3 δ]

open LawfulCoDRAMsim3

namespace RamSlave

/-- The reads in progress. -/
def reads (s : RamSlave δ) : List Request :=
  (s.waitRespR.map CoDRAMResponse.req).toList ++ pending false s.dram

/-- The writes that the DRAM model has or has answered. -/
def sent (s : RamSlave δ) : List Request :=
  (s.waitRespB.map CoDRAMResponse.req).toList ++ pending true s.dram

/-- The writes in progress. -/
def writes (s : RamSlave δ) : List Request := s.sent ++ s.waitReqW.toList

/-- The memory that the master has written. -/
def view (s : RamSlave δ) : RamWords := s.writes.foldl overlay s.ram

end RamSlave

structure SlaveRel (T : Nat → Prop) (s : RamSlave δ) (sl : Slave) : Prop where
  reads : List.Forall₂ (ReadRel sl.mem) s.reads sl.rd.toList
  writes : List.Forall₂ WriteRel s.writes sl.wr.toList
  sent : ∀ req ∈ s.sent, req.metaData.offset = req.metaData.len
  mem : ∀ k, Covered T k → sl.mem k = s.view (wordAlias k)

namespace SlaveRel

variable {T : Nat → Prop} {s s' : RamSlave δ} {sl : Slave} {axi : AxiChannel} {env : DramEnv}

/-- Requests change places. -/
theorem reorder (h : SlaveRel T s sl) (hram : s'.ram = s.ram) (hr : s'.reads.Perm s.reads)
    (hw : s'.writes.Perm s.writes)
    (hsent : ∀ req ∈ s'.sent, req.metaData.offset = req.metaData.len) : SlaveRel T s' sl := by
  have hreads : s'.reads = s.reads := eq_of_perm_of_forall₂ hr h.reads
  have hwrites : s'.writes = s.writes := eq_of_perm_of_forall₂ hw h.writes
  refine ⟨hreads ▸ h.reads, hwrites ▸ h.writes, hsent, fun k hk => ?_⟩
  rw [h.mem k hk, RamSlave.view, RamSlave.view, hwrites, hram]

theorem tick (h : SlaveRel T s sl) (hs : s.tick env = some s') : SlaveRel T s' sl := by
  obtain ⟨hd, heq⟩ := RamSlave.tick_spec hs
  have hsent : s'.sent.Perm s.sent := by
    rw [heq]
    exact (tick_pending true hd).append_left _
  refine h.reorder (by rw [heq]) ?_ ?_ fun req hreq => h.sent req (hsent.subset hreq)
  · rw [heq]
    exact (tick_pending false hd).append_left _
  · rw [heq]
    exact ((tick_pending true hd).append_left _).append_right _

theorem submit (h : SlaveRel T s sl) : SlaveRel T (s.submit env) sl := by
  unfold RamSlave.submit
  split
  · exact h
  · rename_i req hreq
    obtain ⟨hwait, hlen⟩ := RamSlave.complete_eq_some hreq
    have hmem : req ∈ s.writes := by simp [RamSlave.writes, hwait]
    obtain ⟨-, w, -, hrel⟩ := eq_singleton_of_mem h.writes hmem
    have hfalse := add_pending false s.dram req
    have htrue := add_pending true s.dram req
    rw [if_neg (by simp [hrel.isWrite])] at hfalse
    rw [if_pos hrel.isWrite] at htrue
    refine h.reorder rfl (hfalse.append_left _) ?_ ?_
    · simp only [RamSlave.writes, RamSlave.sent, hwait, Option.toList_none, Option.toList_some,
        List.append_nil]
      refine (htrue.append_left _).trans ?_
      rw [List.append_assoc]
      exact (List.perm_append_singleton req _).symm.append_left _
    · intro req' hreq'
      rcases List.mem_append.1 hreq' with hb | hp
      · exact h.sent req' (List.mem_append_left _ hb)
      · rcases List.mem_cons.1 (htrue.subset hp) with rfl | hp
        · exact hlen
        · exact h.sent req' (List.mem_append_right _ hp)

theorem fetchR (h : SlaveRel T s sl) : SlaveRel T s.fetchR sl := by
  unfold RamSlave.fetchR
  split
  · rename_i hnone
    split
    · exact h
    · rename_i resp d hresp
      obtain ⟨hread, hwrite⟩ := read_pending hresp
      have hsent : ((s.waitRespB.map CoDRAMResponse.req).toList ++ pending true d).Perm s.sent :=
        hwrite.append_left _
      refine h.reorder rfl ?_ (hsent.append_right _) fun req hreq => h.sent req (hsent.subset hreq)
      simpa [RamSlave.reads, Option.isNone_iff_eq_none.1 hnone] using hread.symm
  · exact h

theorem fetchB (h : SlaveRel T s sl) : SlaveRel T s.fetchB sl := by
  unfold RamSlave.fetchB
  split
  · rename_i hnone
    split
    · exact h
    · rename_i resp d hresp
      obtain ⟨hwrite, hread⟩ := write_pending hresp
      have hsent : (resp.req :: pending true d).Perm s.sent := by
        simpa [RamSlave.sent, Option.isNone_iff_eq_none.1 hnone] using hwrite.symm
      exact h.reorder rfl (hread.append_left _) (hsent.append_right _)
        fun req hreq => h.sent req (hsent.subset hreq)
  · exact h

/-! ### The handshakes -/

/-- The read in service is the only one. -/
theorem of_waitRespR (h : SlaveRel T s sl) {resp : Response} (hr : s.waitRespR = some resp) :
    pending false s.dram = [] ∧ ∃ b, sl.rd = some b ∧ ReadRel sl.mem resp.req b := by
  have hmem : resp.req ∈ s.reads := by simp [RamSlave.reads, hr]
  obtain ⟨hone, b, hb, hrel⟩ := eq_singleton_of_mem h.reads hmem
  exact ⟨by simpa [RamSlave.reads, hr] using hone, b, hb, hrel⟩

/-- So is the write in service, and it has its data. -/
theorem of_waitRespB (h : SlaveRel T s sl) {resp : Response} (hb : s.waitRespB = some resp) :
    pending true s.dram = [] ∧ s.waitReqW = none ∧ resp.req.metaData.len = 1#8 ∧
      ∃ w, sl.wr = some w ∧ w.dataDone = true ∧ WriteRel resp.req w := by
  have hsent : resp.req ∈ s.sent := by simp [RamSlave.sent, hb]
  obtain ⟨hone, w, hw, hrel⟩ := eq_singleton_of_mem h.writes (List.mem_append_left _ hsent)
  have hlen := h.sent _ hsent
  have hoff : resp.req.metaData.offset = 1#8 := by
    rcases hrel.one with h0 | h1
    · exact absurd (hlen.symm.trans h0) hrel.len
    · exact h1
  simp only [RamSlave.writes, RamSlave.sent, hb, Option.map_some, Option.toList_some,
    List.cons_append, List.cons.injEq, List.append_eq_nil_iff, true_and] at hone
  refine ⟨hone.1, by simpa using hone.2, hlen ▸ hoff, w, hw, ?_, hrel⟩
  rw [hrel.done, hoff]
  rfl

theorem riseR {o : AxiOut} (h : SlaveRel T s sl) (ho : Offers s axi)
    (hfire : axi.rdataFire = ((axiIn axi).rValid && o.rReady)) (hs : s.riseR axi = some s') :
    SlaveRel T s' (takeR o (axiIn axi) sl) := by
  unfold RamSlave.riseR at hs
  unfold takeR
  rw [← hfire]
  cases hf : axi.rdataFire with
  | false =>
    rw [hf] at hs
    cases hs
    exact h
  | true =>
    rw [if_pos hf] at hs
    obtain ⟨resp, hresp, hs⟩ := Option.map_eq_some_iff.1 hs
    obtain ⟨hpend, b, hb, hrel⟩ := h.of_waitRespR hresp
    have hbeat := ho.beat resp hresp
    have hlast : axi.r.last = resp.req.metaData.isLast := congrArg Beat.last hbeat
    have hlen := hrel.len
    have hoff := hrel.offset
    have hin := hrel.inside
    have hshort := hrel.short
    have hisLast : axi.r.last = (b.done == b.len) := by
      rw [hlast, Dramsim3Meta.isLast, hlen, hoff, Bool.eq_iff_iff, beq_iff_eq, beq_iff_eq,
        BitVec.toNat_eq]
      bv_omega
    have hadv : resp.req.metaData.advance.offset = resp.req.metaData.len ↔ b.done = b.len := by
      rw [Dramsim3Meta.advance, hlen, hoff]
      exact ⟨fun h => by bv_omega, fun h => by rw [h]⟩
    simp only [if_true]
    change SlaveRel T s' { sl with rd := if axi.r.last then _ else _ }
    rw [hisLast]
    split at hs
    · rename_i hlast
      subst hs
      rw [if_pos (beq_iff_eq.2 (hadv.1 hlast))]
      refine ⟨?_, h.writes, h.sent, h.mem⟩
      simp [RamSlave.reads, hpend]
    · rename_i hmore
      subst hs
      have hne : b.done ≠ b.len := fun h => hmore (hadv.2 h)
      rw [if_neg (by simpa using hne), hb]
      refine ⟨?_, h.writes, h.sent, h.mem⟩
      simp only [RamSlave.reads, hpend, Option.map_some, Option.toList_some, List.append_nil]
      refine .cons ⟨hrel.address, hrel.room, hrel.id, hrel.size, hlen, hshort, ?_, ?_, hrel.data⟩ .nil
      · exact congrArg (· + 1#8) hoff
      · change (b.done + 1#8).toNat ≤ b.len.toNat
        bv_omega

/-- The address of a read is taken: what it reads is covered, and no write on its way to the RAM
goes there. -/
theorem riseAr {o : AxiOut} (h : SlaveRel T s sl)
    (hfire : axi.raddrFire = ((axiIn axi).arReady && o.arValid))
    (har : axi.ar.addr = o.arAddr - 0x80000000#64 ∧ axi.ar.id = o.arId.zeroExtend 8 ∧
      axi.ar.len = o.arLen ∧ axi.ar.size = 3#3 ∧ axi.ar.burst = 1#8) (hlen : o.arLen.toNat ≤ 1)
    (hrd : axi.raddrFire = true → sl.rd = none)
    (hroom : axi.raddrFire = true → ramIdx axi.ar.addr + o.arLen.toNat < EMU_RAM_SIZE / 8)
    (hcov : axi.raddrFire = true → ∀ k ≤ o.arLen.toNat,
      Covered T (Mem.wordIdx o.arAddr + BitVec.ofNat 64 k))
    (hfresh : axi.raddrFire = true → ∀ k ≤ o.arLen.toNat, ∀ req ∈ s.writes,
      req.metaData.offset ≠ 0#8 → ramIdx req.address ≠ ramIdx axi.ar.addr + k)
    (hs : s.riseAr axi env = some s') : SlaveRel T s' (takeAr o (axiIn axi) sl) := by
  unfold RamSlave.riseAr at hs
  unfold takeAr
  rw [← hfire]
  cases hf : axi.raddrFire with
  | false =>
    rw [hf] at hs
    cases hs
    exact h
  | true =>
    rw [if_pos hf] at hs
    obtain ⟨req, hreq, rfl⟩ := Option.map_eq_some_iff.1 hs
    obtain ⟨haddr, hid, hlen', hsize, hburst⟩ := har
    obtain ⟨haddr', hid', hsize', hmlen, hdata⟩ :=
      readRequest_incr hreq hsize hburst (hlen' ▸ hlen)
    obtain ⟨hkind, hoff⟩ := readRequest_fields hreq
    have hfalse := add_pending false s.dram req
    have htrue := add_pending true s.dram req
    rw [if_pos hkind] at hfalse
    rw [if_neg (by simp [hkind])] at htrue
    have hsent := htrue.append_left (s.waitRespB.map CoDRAMResponse.req).toList
    have hwrites := eq_of_perm_of_forall₂ (hsent.append_right s.waitReqW.toList) h.writes
    have hnil : s.waitRespR = none ∧ pending false s.dram = [] := by
      have := h.reads
      rw [hrd hf] at this
      simpa [RamSlave.reads] using this
    have hroom := hroom hf
    simp only [if_true]
    refine ⟨?_, ?_, fun r hr => h.sent r (hsent.subset hr), fun k hk => ?_⟩
    · rw [hnil.2] at hfalse
      simp only [RamSlave.reads, hnil.1, Option.map_none, Option.toList_none, List.nil_append,
        List.perm_singleton.1 hfalse, Option.toList_some]
      refine .cons ⟨haddr'.trans haddr, haddr' ▸ hroom, hid'.trans hid, hsize',
        hmlen.trans (congrArg (· + 1#8) hlen'), hlen, hoff, Nat.zero_le _, ?_⟩ .nil
      intro k (hk : k ≤ o.arLen.toNat)
      have hlt : ramIdx (o.arAddr - 0x80000000#64) + k < EMU_RAM_SIZE / 8 := by
        rw [← haddr]
        omega
      rw [hdata k (hlen' ▸ hk), h.mem _ (hcov hf k hk), wordAlias_add hlt, ← haddr]
      exact (foldl_overlay_of_ne (hfresh hf k hk)).symm
    · rw [RamSlave.writes, RamSlave.sent, hwrites]
      exact h.writes
    · rw [h.mem k hk, RamSlave.view, RamSlave.view]
      exact congrArg (fun l => List.foldl overlay s.ram l (wordAlias k)) hwrites.symm

/-- A response is taken: the RAM has caught up. -/
theorem riseB {o : AxiOut} (h : SlaveRel T s sl)
    (hfire : axi.wackFire = ((axiIn axi).bValid && o.bReady)) (hs : s.riseB axi = some s') :
    SlaveRel T s' (takeB o (axiIn axi) sl) := by
  unfold takeB
  rw [← hfire]
  cases hf : axi.wackFire with
  | false =>
    obtain rfl := RamSlave.riseB_of_not_fire hf hs
    exact h
  | true =>
    obtain ⟨resp, hresp, rfl⟩ := RamSlave.riseB_of_fire hf hs
    obtain ⟨hpend, hwait, hlen, w, -, -, hrel⟩ := h.of_waitRespB hresp
    have hoff : resp.req.metaData.offset ≠ 0#8 := by
      rw [h.sent resp.req (by simp [RamSlave.sent, hresp]), hlen]
      decide
    simp only [if_true]
    refine ⟨h.reads, ?_, ?_, fun k hk => ?_⟩
    · simp [RamSlave.writes, RamSlave.sent, hpend, hwait]
    · simp [RamSlave.sent, hpend]
    · rw [h.mem k hk]
      simp [RamSlave.view, RamSlave.writes, RamSlave.sent, hpend, hwait, hresp, overlay, hoff,
        flush_eq s.ram hlen hrel.size]

/-- The address of a write is taken. -/
theorem riseAw {o : AxiOut} (h : SlaveRel T s sl)
    (hfire : (axi.aw.valid && axi.aw.ready) = ((axiIn axi).awReady && o.awValid))
    (haw : axi.aw.addr = o.awAddr - 0x80000000#64 ∧ axi.aw.id = o.awId.zeroExtend 8 ∧
      axi.aw.len = o.awLen ∧ axi.aw.size = 3#3) (hlen : o.awLen.toNat ≤ 1)
    (hwr : (axi.aw.valid && axi.aw.ready) = true → sl.wr = none)
    (hs : s.riseAw axi env = some s') : SlaveRel T s' (takeAw o (axiIn axi) sl) := by
  rw [RamSlave.riseAw_spec hs, RamSlave.written]
  unfold takeAw
  rw [← hfire]
  cases hf : axi.aw.valid && axi.aw.ready with
  | false => exact h
  | true =>
    obtain ⟨haddr, hid, hlen', hsize⟩ := haw
    have hnil : s.sent = [] ∧ s.waitReqW = none := by
      have := h.writes
      rw [hwr hf] at this
      simpa [RamSlave.writes] using this
    have hnew : ({ s with waitReqW := some (writeRequest axi env.junk) } : RamSlave δ).writes =
        [writeRequest axi env.junk] := by
      have : ({ s with waitReqW := some (writeRequest axi env.junk) } : RamSlave δ).sent = [] :=
        hnil.1
      simp [RamSlave.writes, this]
    simp only [if_true]
    refine ⟨h.reads, ?_, h.sent, fun k hk => ?_⟩
    · rw [hnew]
      refine .cons ⟨rfl, haddr, hid, ?_, rfl, .inl rfl, ?_⟩ .nil
      · simp [writeRequest, hsize]
      · simp only [writeRequest, hlen']
        bv_omega
    · rw [RamSlave.view, hnew, h.mem k hk, RamSlave.view, RamSlave.writes, hnil.1, hnil.2]
      simp [overlay, writeRequest]

/-- The data of a write is taken, the first time, at the address it was accepted for: a word of the
window that nobody reads under another name or is reading. -/
theorem riseW {o : AxiOut} (h : SlaveRel T s sl)
    (hfire : axi.wdataFire = ((axiIn axi).wReady && o.wValid))
    (hw : axi.w.data = o.wData ∧ axi.w.strb = o.wStrb)
    (hone : axi.wdataFire = true → ∀ req, s.waitReqW = some req → req.metaData.offset = 0#8 ∧
      ramIdx axi.aw.addr = ramIdx req.address ∧
      InWindow (Mem.wordIdx (req.address + 0x80000000#64)) ∧ ¬ T (ramIdx req.address) ∧
      ∀ rd ∈ s.reads, ∀ k < rd.metaData.len.toNat, ramIdx rd.address + k ≠ ramIdx req.address)
    (hs : s.riseW axi = some s') : SlaveRel T s' (takeW o (axiIn axi) sl) := by
  unfold RamSlave.riseW at hs
  unfold takeW
  rw [← hfire]
  cases hf : axi.wdataFire with
  | false =>
    rw [hf] at hs
    cases hs
    exact h
  | true =>
    rw [if_pos hf] at hs
    obtain ⟨req, hreq, hs⟩ := Option.bind_eq_some_iff.1 hs
    obtain ⟨req', hbeat, rfl⟩ := Option.map_eq_some_iff.1 hs
    obtain ⟨hoff, haddr, hwin, hT, hrd⟩ := hone hf req hreq
    obtain ⟨hlist, w, hwr, hrel⟩ :=
      eq_singleton_of_mem h.writes (a := req) (by simp [RamSlave.writes, hreq])
    obtain ⟨v, hv, rfl⟩ := takeBeat_first hbeat hrel.size hoff
    have hsent : s.sent = [] := by
      rw [RamSlave.writes, hreq] at hlist
      exact List.append_left_eq_self.1 hlist
    have hdone : w.dataDone = false := by rw [hrel.done, hoff]; rfl
    have hback : req.address + 0x80000000#64 = w.addr := by
      rw [hrel.address, BitVec.sub_add_cancel]
    rw [hback] at hwin
    have hidx : wordAlias (Mem.wordIdx w.addr) = ramIdx req.address := by
      rw [wordAlias_wordIdx, hrel.address]
    -- before the beat the memory of the slave is the RAM itself
    have hbefore (k : Word) (hk : Covered T k) : sl.mem k = s.ram (wordAlias k) := by
      rw [h.mem k hk, RamSlave.view, hlist]
      simp [overlay, hoff]
    simp only [if_true, hwr, hdone, Bool.not_false, Option.map_some]
    have hmem' (k : Word) : sl.mem.write w.addr o.wData o.wStrb k =
        if k = Mem.wordIdx w.addr then v else sl.mem k := by
      unfold Mem.write
      by_cases hk : k = Mem.wordIdx w.addr
      · rw [if_pos hk, if_pos hk, hk, hbefore _ (.inl hwin), hidx, hv, haddr, hw.1, hw.2]
      · rw [if_neg hk, if_neg hk]
    have hwrites : ({ s with waitReqW := some (req.withMeta
        { req.metaData with offset := 1#8, data := Function.update req.metaData.data 0 v }) } :
        RamSlave δ).writes = [req.withMeta
        { req.metaData with offset := 1#8, data := Function.update req.metaData.data 0 v }] := by
      rw [RamSlave.writes]
      exact congrArg (· ++ _) hsent
    refine ⟨?_, ?_, h.sent, fun k hk => ?_⟩
    · -- the burst in progress reads other words
      refine forall₂_imp_of_mem h.reads fun rd hmem b hread => { hread with data := ?_ }
      intro k hk
      have hlt : ramIdx (b.addr - 0x80000000#64) + k < EMU_RAM_SIZE / 8 := by
        have := hread.room
        rw [hread.address] at this
        omega
      have hlen : k < rd.metaData.len.toNat := by
        have := hread.short
        rw [hread.len]
        bv_omega
      have hother : Mem.wordIdx b.addr + BitVec.ofNat 64 k ≠ Mem.wordIdx w.addr := by
        intro heq
        refine hrd rd hmem k hlen ?_
        rw [← hidx, ← heq, wordAlias_add hlt, ← hread.address]
      rw [hread.data k hk]
      exact ((hmem' _).trans (if_neg hother)).symm
    · rw [hwrites]
      exact .cons ⟨hrel.isWrite, hrel.address, hrel.id, hrel.size, rfl, .inr rfl, hrel.len⟩ .nil
    · refine (hmem' k).trans ?_
      rw [RamSlave.view, hwrites]
      simp only [List.foldl_cons, List.foldl_nil, overlay, CoDRAMRequest.withMeta]
      by_cases hk' : k = Mem.wordIdx w.addr
      · rw [if_pos hk', hk', hidx]
        simp
      · have hne : wordAlias k ≠ ramIdx req.address := fun heq =>
          hk' (eq_of_wordAlias hwin (by rwa [hidx]) hk (by rw [heq, hidx]))
        rw [if_neg hk', hbefore k hk]
        simp [hne]

/-! ### What the slave drives -/

/-- The inputs of the core are those that the slave can produce. -/
theorem drives (h : SlaveRel T s sl) (ho : Offers s axi)
    (hrid : s.waitRespR = none → axi.r.id.setWidth 4 = sl.rid)
    (hbid : s.waitRespB = none → axi.b.id.setWidth 4 = sl.bid) : sl.Drives (axiIn axi) := by
  refine ⟨?_, ?_, ?_, ?_⟩
  · intro hv
    obtain ⟨resp, hresp⟩ := Option.isSome_iff_exists.1 (ho.r.symm.trans hv)
    obtain ⟨-, b, hb, hrel⟩ := h.of_waitRespR hresp
    have hbeat := ho.beat resp hresp
    have hsize : resp.req.metaData.size.toNat = 8 := by rw [hrel.size]; rfl
    have hid : axi.r.id = resp.req.metaData.id := congrArg Beat.id hbeat
    have hlast : axi.r.last = resp.req.metaData.isLast := congrArg Beat.last hbeat
    have hdata : axi.r.data = resp.req.metaData.data resp.req.metaData.dataStart := by
      have := congrArg Beat.data hbeat
      simpa only [AxiChannel.beat, Dramsim3Meta.nextBeat, hsize, copyBytes_eq le_rfl] using this
    have hstart : resp.req.metaData.dataStart = b.done.toNat := by
      rw [Dramsim3Meta.dataStart, hsize, hrel.offset, Nat.mul_div_cancel _ (by decide)]
    have hshort := hrel.short
    have hin := hrel.inside
    refine ⟨b, hb, ?_, ?_, ?_⟩
    · change axi.r.data = _
      rw [hdata, hstart, hrel.data _ hin, Slave.beat, BitVec.ofNat_toNat]
    · change axi.r.last = _
      rw [hlast, Dramsim3Meta.isLast, hrel.len, hrel.offset, Bool.eq_iff_iff, beq_iff_eq,
        beq_iff_eq, BitVec.toNat_eq]
      bv_omega
    · change axi.r.id.setWidth 4 = _
      rw [hid, hrel.id]
      bv_omega
  · intro hv
    refine hrid ?_
    rw [← Option.not_isSome_iff_eq_none, ← ho.r]
    exact Bool.eq_false_iff.1 hv
  · intro hv
    obtain ⟨resp, hresp⟩ := Option.isSome_iff_exists.1 (ho.b.symm.trans hv)
    obtain ⟨-, -, -, w, hw, hdone, hrel⟩ := h.of_waitRespB hresp
    refine ⟨w, hw, hdone, ?_⟩
    change axi.b.id.setWidth 4 = _
    rw [ho.bId resp hresp, hrel.id]
    bv_omega
  · intro hv
    refine hbid ?_
    rw [← Option.not_isSome_iff_eq_none, ← ho.b]
    exact Bool.eq_false_iff.1 hv

end SlaveRel

end

end Oscpu.Emu
