import Oscpu.Axi.Lanes
import Oscpu.Axi.Reset
import Oscpu.Lib.Bytes

/-!
# Transactions of `axi_rw`

`axi_rw` on its own, with any requester that holds its request until it is answered and any slave
that serves one burst and one write at a time from a byte memory. Between two requests the machine
is at rest, with the beat counter at zero, whatever was read and written before.
-/

namespace Oscpu.Axi

open Oscpu.Rtl Oscpu.Lib

/-- The bus word that holds an address. -/
def busAddr (addr : Word) : Word := addr.extractLsb' 3 61 ++ 0#3

/-- A slave that serves bytes. -/
structure Responder where
  mem : ByteMem 64
  rd : Option ReadBurst
  wr : Option WriteTrans

namespace Responder

variable (sl : Responder)

/-- The next beat: the aligned words from the address of the burst on. -/
def beat (b : ReadBurst) : Word := sl.mem.load 64 (b.addr + 8#64 * b.done.zeroExtend 64) 8

/-- A read response is the next beat that is owed, a write response answers a write whose data has
arrived. When the ready and valid signals rise is free, and so are the ids. -/
structure Drives (i : AxiIn) : Prop where
  r : i.rValid = true → ∃ b, sl.rd = some b ∧ i.rData = sl.beat b ∧ i.rLast = (b.done == b.len)
  b : i.bValid = true → ∃ w, sl.wr = some w ∧ w.dataDone = true

/-- The slave after a clock edge at which the master drives `o`. -/
def step (o : AxiOut) (i : AxiIn) : Responder where
  mem :=
    match sl.wr with
    | some w =>
      if i.wReady && o.wValid && !w.dataDone then
        sl.mem.writeStrb (busAddr w.addr) o.wData o.wStrb
      else sl.mem
    | none => sl.mem
  rd :=
    if i.arReady && o.arValid then some ⟨o.arAddr, o.arId, o.arLen, 0#8⟩
    else if i.rValid && o.rReady then
      if i.rLast then none else sl.rd.map fun b => { b with done := b.done + 1#8 }
    else sl.rd
  wr :=
    if i.awReady && o.awValid then some ⟨o.awAddr, o.awId, false⟩
    else if i.bValid && o.bReady then none
    else if i.wReady && o.wValid then sl.wr.map fun w => { w with dataDone := true }
    else sl.wr

end Responder

/-- `axi_rw` and a slave. -/
structure Bus where
  rw : AxiRw
  slave : Responder

namespace Bus

/-- One clock edge with the request and the slave's inputs of the cycle. -/
def step (b : Bus) (x : RwReq × AxiIn) : Bus where
  rw := b.rw.step x.1 x.2 false
  slave := b.slave.step (b.rw.out x.1) x.2

/-- The inputs that the slave can produce. -/
def Ok (b : Bus) (x : RwReq × AxiIn) : Prop := b.slave.Drives x.2

structure AfterReset (b : Bus) : Prop where
  rw : b.rw = AxiRw.zero
  rd : b.slave.rd = none
  wr : b.slave.wr = none

end Bus

/-- The signals of a request that are held until it is answered. -/
structure RwReq.Held (r r' : RwReq) : Prop where
  valid : r'.valid = r.valid
  write : r'.write = r.write
  addr : r'.addr = r.addr
  size : r'.size = r.size
  sigMem : r'.sigMem = r.sigMem

namespace RwReq.Held

variable {r r' : RwReq}

theorem refl (r : RwReq) : Held r r := ⟨rfl, rfl, rfl, rfl, rfl⟩

theorem trans {r'' : RwReq} (h : Held r r') (h' : Held r' r'') : Held r r'' :=
  ⟨h'.valid.trans h.valid, h'.write.trans h.write, h'.addr.trans h.addr, h'.size.trans h.size,
    h'.sigMem.trans h.sigMem⟩

theorem rValid (h : Held r r') : r'.rValid = r.rValid := by
  simp only [RwReq.rValid, h.valid, h.write]

theorem wValid (h : Held r r') : r'.wValid = r.wValid := by
  simp only [RwReq.wValid, h.valid, h.write]

theorem axiAddr (h : Held r r') : r'.axiAddr = r.axiAddr := by simp only [RwReq.axiAddr, h.addr]

theorem axiLen (h : Held r r') : r'.axiLen = r.axiLen := by
  unfold RwReq.axiLen RwReq.aligned RwReq.overstep RwReq.addrEnd
  rw [h.addr, h.size]

theorem dataL (h : Held r r') : r'.dataL = r.dataL := by
  funext w
  unfold RwReq.dataL RwReq.mask RwReq.offsetL
  rw [h.addr, h.size]

end RwReq.Held

/-! ## The bytes of a read -/

/-- The memory as bus words, by address divided by eight. -/
def busWords (m : ByteMem 64) : Mem := fun k => m.load 64 (8#64 * k) 8

theorem busAddr_toNat (addr : Word) : (busAddr addr).toNat = 8 * (addr.toNat / 8) := by
  have h : (busAddr addr).toNat = (addr.extractLsb' 3 61 ++ 0#3 : BitVec (61 + 3)).toNat := rfl
  have hlt := addr.isLt
  rw [h, BitVec.toNat_append, BitVec.extractLsb'_toNat, Nat.shiftRight_eq_div_pow,
    Nat.shiftLeft_eq]
  simp
  omega

theorem busAddr_eq (addr : Word) : busAddr addr = 8#64 * Mem.wordIdx addr := by
  apply BitVec.eq_of_toNat_eq
  have hlt := addr.isLt
  rw [busAddr_toNat, Mem.wordIdx, BitVec.toNat_mul, BitVec.toNat_ushiftRight,
    Nat.shiftRight_eq_div_pow]
  simp
  omega

theorem byteOffset_eq (addr : Word) : byteOffset addr = addr.toNat % 8 := by
  simp [byteOffset]

theorem busAddr_add (addr : Word) : busAddr addr + BitVec.ofNat 64 (byteOffset addr) = addr := by
  apply BitVec.eq_of_toNat_eq
  have h := addr.isLt
  rw [BitVec.toNat_add, busAddr_toNat, BitVec.toNat_ofNat, byteOffset_eq]
  omega

theorem getLsbD_busWords (m : ByteMem 64) (k : Word) {j : Nat} (hj : j < 64) :
    (busWords m k).getLsbD j = (m (8#64 * k + BitVec.ofNat 64 (j / 8))).getLsbD (j % 8) := by
  rw [busWords, ByteMem.getLsbD_load _ _ _ hj]
  simp [hj]

/-- The bytes that the two words of an address hold are those from the address on. -/
theorem content_busWords (m : ByteMem 64) (addr : Word) (size : BitVec 2) :
    (busWords m).content addr size = m.load 64 addr (sizeBytes size) := by
  apply BitVec.eq_of_getLsbD_eq
  intro k hk
  have hoff : byteOffset addr < 8 := (addr.extractLsb' 0 3).isLt
  rw [getLsbD_content _ _ _ hk, ByteMem.getLsbD_load _ _ _ hk, Bool.and_comm]
  congr 1
  have hmod : (8 * byteOffset addr + k) % 8 = k % 8 := by omega
  have hdiv : (8 * byteOffset addr + k) / 8 = byteOffset addr + k / 8 := by omega
  have hbyte : busAddr addr + BitVec.ofNat 64 (byteOffset addr + k / 8) =
      addr + BitVec.ofNat 64 (k / 8) := by
    rw [BitVec.ofNat_add, ← BitVec.add_assoc, busAddr_add]
  by_cases hlt : 8 * byteOffset addr + k < 64
  · rw [if_pos hlt, getLsbD_busWords m _ hlt, hmod, hdiv, ← busAddr_eq, hbyte]
  · rw [if_neg hlt, getLsbD_busWords m _ (by omega)]
    have hmod' : (8 * byteOffset addr + k - 64) % 8 = k % 8 := by omega
    have hdiv' : byteOffset addr + k / 8 = 8 + (8 * byteOffset addr + k - 64) / 8 := by omega
    rw [hmod', BitVec.mul_add, ← busAddr_eq, ← hbyte, hdiv', BitVec.ofNat_add, BitVec.add_assoc]
    rfl

/-- The bytes that a request asks for. -/
def RwReq.bytes (r : RwReq) (m : ByteMem 64) : Word := m.load 64 r.addr (sizeBytes r.size)

theorem RwReq.Held.bytes {r r' : RwReq} (h : Held r r') : r'.bytes = r.bytes := by
  funext m
  simp only [RwReq.bytes, h.addr, h.size]

theorem Responder.beat_eq {sl : Responder} {b : ReadBurst} {r : RwReq} (h : b.addr = r.axiAddr) :
    sl.beat b = busWords sl.mem (Mem.wordIdx r.addr + b.done.zeroExtend 64) := by
  have haddr : b.addr = 8#64 * Mem.wordIdx r.addr := h.trans (busAddr_eq r.addr)
  rw [beat, busWords, haddr, BitVec.mul_add]

/-! ## Between and during transactions -/

namespace Bus

/-- Nothing is in progress. A state machine may have gone on to its address phase already. -/
structure Rest (b : Bus) (m : ByteMem 64) : Prop where
  ready : b.rw.rwReady = false
  rd : b.slave.rd = none
  wr : b.slave.wr = none
  rState : b.rw.rState ≠ .read
  wState : b.rw.wState = .idle ∨ b.rw.wState = .addr
  len : b.rw.len = 0#8
  mem : b.slave.mem = m

/-- The burst of the read `r` is in progress. -/
structure Reading (b : Bus) (r : RwReq) (m : ByteMem 64) : Prop where
  req : r.rValid = true
  ready : b.rw.rwReady = false
  wr : b.slave.wr = none
  rState : b.rw.rState = .read
  wState : b.rw.wState = .idle ∨ b.rw.wState = .addr
  mem : b.slave.mem = m
  burst : ∃ d, b.slave.rd = some d ∧ d.addr = r.axiAddr ∧ d.len = r.axiLen ∧ d.done = b.rw.len ∧
    (d.done = 0#8 ∨ d.done = 1#8 ∧ r.axiLen = 1#8 ∧
      b.rw.dataRead = r.dataL (busWords m (Mem.wordIdx r.addr)))

/-- The beat that the write `r` leaves, with the data of some cycle in which `Q` held. -/
def Written (Q : RwReq → Prop) (r : RwReq) (m m' : ByteMem 64) : Prop :=
  ∃ q, Q q ∧ m' = m.writeStrb (busAddr r.addr) q.wdata q.strb

/-- The write `r` has been accepted by the slave. -/
structure Writing (Q : RwReq → Prop) (b : Bus) (r : RwReq) (m : ByteMem 64) : Prop where
  req : r.wValid = true
  ready : b.rw.rwReady = false
  rd : b.slave.rd = none
  rState : b.rw.rState ≠ .read
  trans : ∃ w, b.slave.wr = some w ∧ w.addr = r.addr ∧
    (b.rw.wState = .write ∧ w.dataDone = false ∧ b.slave.mem = m ∨
      b.rw.wState = .resp ∧ w.dataDone = true ∧ Written Q r m b.slave.mem)

/-- The cycle in which `r` is answered. -/
structure Done (Q : RwReq → Prop) (b : Bus) (r : RwReq) (m : ByteMem 64) : Prop where
  valid : r.valid = true
  ready : b.rw.rwReady = true
  rd : b.slave.rd = none
  wr : b.slave.wr = none
  rState : b.rw.rState ≠ .read
  wState : b.rw.wState = .idle ∨ b.rw.wState = .addr
  read : r.write = false → b.rw.rState = .idle ∧ b.slave.mem = m ∧ b.rw.dataRead = r.bytes m
  write : r.write = true → b.rw.wState = .idle ∧ Written Q r m b.slave.mem

variable {Q : RwReq → Prop} {b : Bus} {r r' : RwReq} {i : AxiIn} {m : ByteMem 64}

/-! ### One edge at rest -/

namespace Rest

theorem not_rHs (h : Rest b m) : b.rw.rHs r i = false := by
  have hs : (b.rw.rState == .read) = false := by simpa using h.rState
  simp [AxiRw.rHs, AxiRw.out, hs]

theorem not_wHs (h : Rest b m) : b.rw.wHs r i = false := by
  rcases h.wState with hs | hs <;> simp [AxiRw.wHs, AxiRw.out, hs]

theorem not_bHs (h : Rest b m) : b.rw.bHs r i = false := by
  rcases h.wState with hs | hs <;> simp [AxiRw.bHs, AxiRw.out, hs]

theorem step_len (h : Rest b m) : (b.step (r, i)).rw.len = 0#8 := by
  change b.rw.nextLen r i = _
  simp [AxiRw.nextLen, h.not_wHs, h.not_rHs, h.len]

theorem step_ready (h : Rest b m) : (b.step (r, i)).rw.rwReady = false := by
  change b.rw.transDone r i = _
  simp [AxiRw.transDone, AxiRw.rDone, h.not_bHs, h.not_rHs]

theorem step_mem (h : Rest b m) : (b.step (r, i)).slave.mem = m := by
  change (b.slave.step (b.rw.out r) i).mem = _
  simp [Responder.step, h.wr, h.mem]

theorem step_rState (h : Rest b m) (har : b.rw.arHs r i = false) :
    (b.step (r, i)).rw.rState ≠ .read := by
  change b.rw.nextR r i ≠ _
  have hne := h.rState
  unfold AxiRw.nextR
  cases hs : b.rw.rState with
  | idle => split <;> simp
  | addr => split <;> simp [har]
  | read => exact absurd hs hne

theorem step_wState (h : Rest b m) (haw : b.rw.awHs r i = false) :
    (b.step (r, i)).rw.wState = .idle ∨ (b.step (r, i)).rw.wState = .addr := by
  change b.rw.nextW r i = _ ∨ b.rw.nextW r i = _
  unfold AxiRw.nextW
  rcases h.wState with hs | hs <;> rw [hs] <;> split <;> simp [haw]

theorem step_rest (h : Rest b m) (har : b.rw.arHs r i = false) (haw : b.rw.awHs r i = false) :
    Rest (b.step (r, i)) m where
  ready := h.step_ready
  rd := by
    change (b.slave.step (b.rw.out r) i).rd = none
    have hacc : (i.arReady && (b.rw.out r).arValid) = false := har
    simp [Responder.step, hacc, h.rd]
  wr := by
    change (b.slave.step (b.rw.out r) i).wr = none
    have hacc : (i.awReady && (b.rw.out r).awValid) = false := haw
    simp [Responder.step, hacc, h.wr]
  rState := h.step_rState har
  wState := h.step_wState haw
  len := h.step_len
  mem := h.step_mem

theorem step_reading (h : Rest b m) (har : b.rw.arHs r i = true) :
    Reading (b.step (r, i)) r m := by
  have hst : b.rw.rState = .addr ∧ r.rValid = true := by
    simp only [AxiRw.arHs, AxiRw.out, Bool.and_eq_true, beq_iff_eq] at har
    exact har.2
  have hw : r.wValid = false := by
    have hr := hst.2
    simp only [RwReq.rValid, Bool.and_eq_true, Bool.not_eq_true'] at hr
    simp [RwReq.wValid, hr.2]
  have haw : b.rw.awHs r i = false := by simp [AxiRw.awHs, AxiRw.out, hw]
  refine ⟨hst.2, h.step_ready, ?_, ?_, h.step_wState haw, h.step_mem, ?_⟩
  · have hacc : (i.awReady && (b.rw.out r).awValid) = false := haw
    change (b.slave.step (b.rw.out r) i).wr = none
    simp [Responder.step, hacc, h.wr]
  · change b.rw.nextR r i = _
    simp [AxiRw.nextR, hst.1, hst.2, har]
  · have hacc : (i.arReady && (b.rw.out r).arValid) = true := har
    refine ⟨⟨r.axiAddr, if r.sigMem then 2#4 else 1#4, r.axiLen, 0#8⟩, ?_, rfl, rfl, ?_, .inl rfl⟩
    · change (b.slave.step (b.rw.out r) i).rd = _
      rw [Responder.step, hacc, if_pos rfl]
      rfl
    · exact h.step_len.symm

theorem step_writing (h : Rest b m) (haw : b.rw.awHs r i = true) :
    Writing Q (b.step (r, i)) r m := by
  have hst : b.rw.wState = .addr ∧ r.wValid = true := by
    simp only [AxiRw.awHs, AxiRw.out, Bool.and_eq_true, beq_iff_eq] at haw
    exact haw.2
  have hr : r.rValid = false := by
    have hw := hst.2
    simp only [RwReq.wValid, Bool.and_eq_true] at hw
    simp [RwReq.rValid, hw.2]
  have har : b.rw.arHs r i = false := by simp [AxiRw.arHs, AxiRw.out, hr]
  refine ⟨hst.2, h.step_ready, ?_, h.step_rState har, ?_⟩
  · have hacc : (i.arReady && (b.rw.out r).arValid) = false := har
    change (b.slave.step (b.rw.out r) i).rd = none
    simp [Responder.step, hacc, h.rd]
  · have hacc : (i.awReady && (b.rw.out r).awValid) = true := haw
    refine ⟨⟨r.addr, if r.sigMem then 2#4 else 0#4, false⟩, ?_, rfl, .inl ⟨?_, rfl, h.step_mem⟩⟩
    · change (b.slave.step (b.rw.out r) i).wr = _
      rw [Responder.step, hacc, if_pos rfl]
      rfl
    · change b.rw.nextW r i = _
      simp [AxiRw.nextW, hst.1, hst.2, haw]

end Rest

/-! ### One edge during a read -/

namespace Reading

theorem write_eq (h : Reading b r m) : r.write = false := by
  have hr := h.req
  simp only [RwReq.rValid, Bool.and_eq_true, Bool.not_eq_true'] at hr
  exact hr.2

theorem congr (h : Reading b r m) (hr : r.Held r') : Reading b r' m where
  req := hr.rValid.trans h.req
  ready := h.ready
  wr := h.wr
  rState := h.rState
  wState := h.wState
  mem := h.mem
  burst := by
    rw [hr.axiAddr, hr.axiLen, hr.dataL, hr.addr]
    exact h.burst

theorem wValid_eq (h : Reading b r m) : r.wValid = false := by simp [RwReq.wValid, h.write_eq]

theorem step_write (h : Reading b r m) : (b.step (r, i)).slave.wr = none ∧
    (b.step (r, i)).slave.mem = m ∧ (b.step (r, i)).rw.wState = b.rw.wState := by
  have haw : (b.rw.out r).awValid = false := by simp [AxiRw.out, h.wValid_eq]
  refine ⟨?_, ?_, ?_⟩
  · change (b.slave.step (b.rw.out r) i).wr = none
    simp [Responder.step, haw, h.wr]
  · change (b.slave.step (b.rw.out r) i).mem = m
    simp [Responder.step, h.wr, h.mem]
  · change b.rw.nextW r i = _
    simp [AxiRw.nextW, h.wValid_eq]

theorem step_rd (h : Reading b r m) : (b.step (r, i)).slave.rd =
    if b.rw.rHs r i then
      if i.rLast then none else b.slave.rd.map fun d => { d with done := d.done + 1#8 }
    else b.slave.rd := by
  have har : (b.rw.out r).arValid = false := by simp [AxiRw.out, h.rState]
  have hrr : (b.rw.out r).rReady = true := by simp [AxiRw.out, h.rState]
  change (b.slave.step (b.rw.out r) i).rd = _
  simp [Responder.step, har, hrr, AxiRw.rHs]

theorem step_len (h : Reading b r m) : (b.step (r, i)).rw.len =
    if b.rw.len != r.axiLen && b.rw.rHs r i then b.rw.len + 1#8 else b.rw.len := by
  change b.rw.nextLen r i = _
  have hidle : (b.rw.rState == .idle) = false := by simp [h.rState]
  have hw : b.rw.wHs r i = false := by
    rcases h.wState with hs | hs <;> simp [AxiRw.wHs, AxiRw.out, hs]
  simp [AxiRw.nextLen, h.write_eq, hidle, hw]

theorem step_ready (h : Reading b r m) : (b.step (r, i)).rw.rwReady = b.rw.rDone r i := by
  change b.rw.transDone r i = _
  simp [AxiRw.transDone, h.write_eq]

theorem step_rState (h : Reading b r m) :
    (b.step (r, i)).rw.rState = if b.rw.rDone r i then .idle else .read := by
  change b.rw.nextR r i = _
  simp [AxiRw.nextR, h.req, h.rState]

theorem step_wait (h : Reading b r m) (hr : b.rw.rHs r i = false) :
    Reading (b.step (r, i)) r m := by
  have hdone : b.rw.rDone r i = false := by simp [AxiRw.rDone, hr]
  obtain ⟨hwr, hmem, hws⟩ := h.step_write (i := i)
  obtain ⟨d, hd, haddr, hlen, hcount, hfirst⟩ := h.burst
  have hdata : (b.step (r, i)).rw.dataRead = b.rw.dataRead := by
    change b.rw.nextData r i = _
    simp [AxiRw.nextData, hr]
  have hl : (b.step (r, i)).rw.len = b.rw.len := by rw [h.step_len]; simp [hr]
  refine ⟨h.req, by rw [h.step_ready, hdone], hwr, by rw [h.step_rState, hdone]; rfl, ?_, hmem,
    d, ?_, haddr, hlen, by rw [hl, hcount], ?_⟩
  · rw [hws]
    exact h.wState
  · rw [h.step_rd, hr]
    exact hd
  · rw [hdata]
    exact hfirst

theorem beat_eq (h : Reading b r m) (hi : b.slave.Drives i) (hr : b.rw.rHs r i = true)
    {d : ReadBurst} (hd : b.slave.rd = some d) (haddr : d.addr = r.axiAddr) :
    i.rData = busWords m (Mem.wordIdx r.addr + d.done.zeroExtend 64) ∧
      i.rLast = (d.done == d.len) := by
  have hv : i.rValid = true := by
    simp only [AxiRw.rHs, Bool.and_eq_true] at hr
    exact hr.2
  obtain ⟨d', hd', hdata, hlast⟩ := hi.r hv
  rw [hd, Option.some.injEq] at hd'
  subst hd'
  rw [hdata, Responder.beat_eq haddr, h.mem]
  exact ⟨rfl, hlast⟩

theorem step_first (h : Reading b r m) (hi : b.slave.Drives i) (hr : b.rw.rHs r i = true)
    (hl : i.rLast = false) : Reading (b.step (r, i)) r m ∧ b.rw.len = 0#8 ∧
      (b.step (r, i)).rw.len = 1#8 := by
  have hdone : b.rw.rDone r i = false := by simp [AxiRw.rDone, hl]
  obtain ⟨hwr, hmem, hws⟩ := h.step_write (i := i)
  obtain ⟨d, hd, haddr, hlen, hcount, hfirst⟩ := h.burst
  obtain ⟨hdata, hlast⟩ := h.beat_eq hi hr hd haddr
  have hne : d.done ≠ d.len := by simpa [hl] using hlast
  have hd0 : d.done = 0#8 := by
    rcases hfirst with h0 | ⟨h1, hax, -⟩
    · exact h0
    · exact absurd (h1.trans (hax.symm.trans hlen.symm)) hne
  have hax : r.axiLen = 1#8 := by
    have hite := r.axiLen_eq_ite
    split at hite
    · exact hite
    · exact absurd (hd0.trans (hite.symm.trans hlen.symm)) hne
  have htwo : (!r.aligned && r.overstep) = true := by
    by_contra hn
    rw [r.axiLen_eq_ite, if_neg hn] at hax
    exact absurd hax (by decide)
  have hlen0 : b.rw.len = 0#8 := hcount.symm.trans hd0
  have hlen1 : (b.step (r, i)).rw.len = 1#8 := by
    rw [h.step_len, hr, hlen0, hax]
    rfl
  refine ⟨⟨h.req, by rw [h.step_ready, hdone], hwr, by rw [h.step_rState, hdone]; rfl, ?_, hmem,
    { d with done := d.done + 1#8 }, ?_, haddr, hlen, ?_, .inr ⟨by rw [hd0]; rfl, hax, ?_⟩⟩,
    hlen0, hlen1⟩
  · rw [hws]
    exact h.wState
  · rw [h.step_rd, hr, hl, hd]
    rfl
  · rw [hlen1, hd0]
    rfl
  · change b.rw.nextData r i = _
    have hbit : (0#8).getLsbD 0 = false := by decide
    rw [AxiRw.nextData, if_pos hr, if_pos htwo, hlen0, hbit, hdata, hd0]
    simp

theorem step_last (h : Reading b r m) (hi : b.slave.Drives i) (hr : b.rw.rHs r i = true)
    (hl : i.rLast = true) : Done Q (b.step (r, i)) r m := by
  have hdone : b.rw.rDone r i = true := by simp [AxiRw.rDone, hr, hl]
  obtain ⟨hwr, hmem, hws⟩ := h.step_write (i := i)
  obtain ⟨d, hd, haddr, hlen, hcount, hfirst⟩ := h.burst
  obtain ⟨hdata, hlast⟩ := h.beat_eq hi hr hd haddr
  have heq : d.done = r.axiLen := by
    rw [hl, eq_comm, beq_iff_eq] at hlast
    exact hlast.trans hlen
  have hvalid : r.valid = true := by
    have hv := h.req
    simp only [RwReq.rValid, Bool.and_eq_true] at hv
    exact hv.1
  have hst : (b.step (r, i)).rw.rState = .idle := by rw [h.step_rState, hdone]; rfl
  have hbytes : (b.step (r, i)).rw.dataRead = r.bytes m := by
    change b.rw.nextData r i = _
    rw [AxiRw.nextData, if_pos hr, hdata, RwReq.bytes, ← content_busWords]
    rcases hfirst with h0 | ⟨h1, hax, hfst⟩
    · have hax : r.axiLen = 0#8 := heq.symm.trans h0
      have hone : ¬ (!r.aligned && r.overstep) = true := by
        intro hn
        rw [r.axiLen_eq_ite, if_pos hn] at hax
        exact absurd hax (by decide)
      have hzero : (0#8).zeroExtend 64 = 0#64 := by decide
      rw [if_neg hone, if_pos (hcount.symm.trans h0), h0, hzero, BitVec.add_zero]
      exact r.dataL_eq_content _ hax
    · have htwo : (!r.aligned && r.overstep) = true := by
        by_contra hn
        rw [r.axiLen_eq_ite, if_neg hn] at hax
        exact absurd hax (by decide)
      have hbit : (1#8).getLsbD 0 = true := by decide
      have hone : (1#8).zeroExtend 64 = 1#64 := by decide
      rw [if_pos htwo, hcount.symm.trans h1, if_pos hbit, hfst, h1, hone]
      exact r.dataL_or_dataH_eq_content _ (by rw [hax]; decide)
  refine ⟨hvalid, by rw [h.step_ready, hdone], ?_, hwr, by rw [hst]; simp, ?_,
    fun _ => ⟨hst, hmem, hbytes⟩, ?_⟩
  · rw [h.step_rd, hr, hl]
    rfl
  · rw [hws]
    exact h.wState
  · intro hw
    rw [h.write_eq] at hw
    exact absurd hw Bool.false_ne_true

theorem step_beat (h : Reading b r m) (hi : b.slave.Drives i) (hr : b.rw.rHs r i = true) :
    (Reading (b.step (r, i)) r m ∧ b.rw.len = 0#8 ∧ (b.step (r, i)).rw.len = 1#8) ∨
      Done Q (b.step (r, i)) r m := by
  cases hl : i.rLast with
  | false => exact .inl (h.step_first hi hr hl)
  | true => exact .inr (h.step_last hi hr hl)

theorem step (h : Reading b r m) (hi : b.slave.Drives i) :
    Reading (b.step (r, i)) r m ∨ Done Q (b.step (r, i)) r m := by
  cases hr : b.rw.rHs r i with
  | false => exact .inl (h.step_wait hr)
  | true => exact (h.step_beat hi hr).imp_left And.left

end Reading

/-! ### One edge during a write -/

namespace Writing

theorem write_eq (h : Writing Q b r m) : r.write = true := by
  have hr := h.req
  simp only [RwReq.wValid, Bool.and_eq_true] at hr
  exact hr.2

theorem rValid_eq (h : Writing Q b r m) : r.rValid = false := by simp [RwReq.rValid, h.write_eq]

theorem congr (h : Writing Q b r m) (hr : r.Held r') : Writing Q b r' m where
  req := hr.wValid.trans h.req
  ready := h.ready
  rd := h.rd
  rState := h.rState
  trans := by
    unfold Written
    rw [hr.addr]
    exact h.trans

theorem step_rState (h : Writing Q b r m) : (b.step (r, i)).rw.rState ≠ .read := by
  have hs : (b.step (r, i)).rw.rState = b.rw.rState := by
    change b.rw.nextR r i = _
    simp [AxiRw.nextR, h.rValid_eq]
  rw [hs]
  exact h.rState

theorem step_rd (h : Writing Q b r m) : (b.step (r, i)).slave.rd = none := by
  have har : (b.rw.out r).arValid = false := by simp [AxiRw.out, h.rValid_eq]
  have hrr : (b.rw.out r).rReady = false := by simpa [AxiRw.out] using h.rState
  change (b.slave.step (b.rw.out r) i).rd = none
  simp [Responder.step, har, hrr, h.rd]

theorem step_ready (h : Writing Q b r m) : (b.step (r, i)).rw.rwReady = b.rw.bHs r i := by
  change b.rw.transDone r i = _
  simp [AxiRw.transDone, h.write_eq]

theorem step_data (h : Writing Q b r m) (hq : Q r) (hs : b.rw.wState = .write) :
    Writing Q (b.step (r, i)) r m := by
  obtain ⟨w, hw, haddr, ⟨-, hdone, hmem⟩ | ⟨hresp, -⟩⟩ := h.trans
  · have hb : b.rw.bHs r i = false := by simp [AxiRw.bHs, AxiRw.out, hs]
    refine ⟨h.req, by rw [h.step_ready, hb], h.step_rd, h.step_rState, ?_⟩
    cases hr : i.wReady with
    | false =>
      refine ⟨w, ?_, haddr, .inl ⟨?_, hdone, ?_⟩⟩
      · change (b.slave.step (b.rw.out r) i).wr = _
        simp [Responder.step, AxiRw.out, hs, hr, hw]
      · change b.rw.nextW r i = _
        simp [AxiRw.nextW, h.req, hs, AxiRw.wHs, hr]
      · change (b.slave.step (b.rw.out r) i).mem = _
        simp [Responder.step, hw, hr, hmem]
    | true =>
      refine ⟨{ w with dataDone := true }, ?_, haddr, .inr ⟨?_, rfl, r, hq, ?_⟩⟩
      · change (b.slave.step (b.rw.out r) i).wr = _
        simp [Responder.step, AxiRw.out, hs, hr, hw]
      · change b.rw.nextW r i = _
        simp [AxiRw.nextW, h.req, hs, AxiRw.wHs, AxiRw.out, hr]
      · change (b.slave.step (b.rw.out r) i).mem = _
        simp [Responder.step, AxiRw.out, hs, hw, hr, hdone, hmem, haddr]
  · rw [hs] at hresp
    cases hresp

theorem step_resp (h : Writing Q b r m) (hs : b.rw.wState = .resp) :
    Writing Q (b.step (r, i)) r m ∨ Done Q (b.step (r, i)) r m := by
  obtain ⟨w, hw, haddr, ⟨hwrite, -⟩ | ⟨-, hdone, hmem⟩⟩ := h.trans
  · rw [hs] at hwrite
    cases hwrite
  · have hmem' : (b.step (r, i)).slave.mem = b.slave.mem := by
      change (b.slave.step (b.rw.out r) i).mem = _
      simp [Responder.step, hw, hdone]
    cases hv : i.bValid with
    | false =>
      have hb : b.rw.bHs r i = false := by simp [AxiRw.bHs, hv]
      refine .inl ⟨h.req, by rw [h.step_ready, hb], h.step_rd, h.step_rState, w, ?_, haddr,
        .inr ⟨?_, hdone, ?_⟩⟩
      · change (b.slave.step (b.rw.out r) i).wr = _
        simp [Responder.step, AxiRw.out, hs, hv, hw]
      · change b.rw.nextW r i = _
        simp [AxiRw.nextW, h.req, hs, hb]
      · rw [hmem']
        exact hmem
    | true =>
      have hb : b.rw.bHs r i = true := by simp [AxiRw.bHs, AxiRw.out, hs, hv]
      have hidle : (b.step (r, i)).rw.wState = .idle := by
        change b.rw.nextW r i = _
        simp [AxiRw.nextW, h.req, hs, hb]
      have hvalid : r.valid = true := by
        have hr := h.req
        simp only [RwReq.wValid, Bool.and_eq_true] at hr
        exact hr.1
      refine .inr ⟨hvalid, by rw [h.step_ready, hb], h.step_rd, ?_, h.step_rState, .inl hidle,
        ?_, fun _ => ⟨hidle, ?_⟩⟩
      · change (b.slave.step (b.rw.out r) i).wr = _
        simp [Responder.step, AxiRw.out, hs, hv]
      · intro hwr
        rw [h.write_eq] at hwr
        exact absurd hwr.symm Bool.false_ne_true
      · rw [hmem']
        exact hmem

theorem step (h : Writing Q b r m) (hq : Q r) :
    Writing Q (b.step (r, i)) r m ∨ Done Q (b.step (r, i)) r m := by
  obtain ⟨w, -, -, ⟨hs, -⟩ | ⟨hs, -⟩⟩ := h.trans
  · exact .inl (h.step_data hq hs)
  · exact h.step_resp hs

end Writing

/-- The answer is taken, the beat counter is cleared, and the machine is at rest. -/
theorem Done.step (h : Done Q b r m) : Rest (b.step (r, i)) b.slave.mem := by
  have hr : (b.rw.rState == .read) = false := by simpa using h.rState
  have hrhs : b.rw.rHs r i = false := by simp [AxiRw.rHs, AxiRw.out, hr]
  have hw : b.rw.wHs r i = false ∧ b.rw.bHs r i = false := by
    rcases h.wState with hs | hs <;> simp [AxiRw.wHs, AxiRw.bHs, AxiRw.out, hs]
  have haw : (b.rw.out r).awValid = false := by
    cases hwr : r.write with
    | false => simp [AxiRw.out, RwReq.wValid, hwr]
    | true => simp [AxiRw.out, (h.write hwr).1]
  have har : (b.rw.out r).arValid = false := by
    cases hwr : r.write with
    | false => simp [AxiRw.out, (h.read hwr).1]
    | true => simp [AxiRw.out, RwReq.rValid, hwr]
  refine ⟨?_, ?_, ?_, ?_, ?_, ?_, ?_⟩
  · change b.rw.transDone r i = false
    simp [AxiRw.transDone, AxiRw.rDone, hrhs, hw.2]
  · change (b.slave.step (b.rw.out r) i).rd = none
    simp [Responder.step, har, h.rd]
  · change (b.slave.step (b.rw.out r) i).wr = none
    simp [Responder.step, haw, h.wr]
  · change b.rw.nextR r i ≠ .read
    have hne := h.rState
    have harh : b.rw.arHs r i = false := by simp [AxiRw.arHs, har]
    unfold AxiRw.nextR
    cases hs : b.rw.rState with
    | idle => split <;> simp
    | addr => split <;> simp [harh]
    | read => exact absurd hs hne
  · change b.rw.nextW r i = _ ∨ b.rw.nextW r i = _
    have hawh : b.rw.awHs r i = false := by simp [AxiRw.awHs, haw]
    unfold AxiRw.nextW
    rcases h.wState with hs | hs <;> rw [hs] <;> split <;> simp [hawh]
  · change b.rw.nextLen r i = 0#8
    cases hwr : r.write with
    | false => simp [AxiRw.nextLen, hwr, (h.read hwr).1]
    | true => simp [AxiRw.nextLen, hwr, (h.write hwr).1]
  · change (b.slave.step (b.rw.out r) i).mem = _
    simp [Responder.step, h.wr]

end Bus

end Oscpu.Axi
