import Oscpu.Emu.Axi4
import Oscpu.Emu.Cosim
import Oscpu.Lib.Partial

/-!
# The memory of the emulator: `ram.cpp`

The slave that the core is simulated with. The data of a read is taken from the RAM when its address
is accepted; the data of a write is merged with the RAM when its beat arrives, and copied to the RAM
when its response is taken. Where an assertion fails, a number is divided by zero, or something
outside the RAM, `meta->data` or a channel is accessed, the result is `none`.
-/

namespace Oscpu.Emu

open Oscpu.Rtl Oscpu.Axi Oscpu.Lib

def MAX_AXI_DATA_LEN : Nat := 8

/-- The RAM as an array of `uint64_t`. -/
abbrev RamWords := Nat → Word

/-- `memcpy` of `n` bytes to the words from index `start` on. -/
def RamWords.memcpy (ram : RamWords) (start : Nat) (src : Nat → Word) (n : Nat) : RamWords :=
  fun k => if k < start then ram k else copyBytes (n - 8 * (k - start)) (src (k - start)) (ram k)

structure Dramsim3Meta where
  len : BitVec 8
  size : BitVec 8
  offset : BitVec 8
  id : BitVec 8
  data : Nat → Word

/-- What the surroundings contribute in one cycle: the transactions that the memory system finishes,
whether it accepts another one before and after the clock edge, and what uninitialised memory
holds. -/
structure DramEnv where
  callbacks : List (Word × Bool)
  accept : Word → Bool → Bool
  acceptNext : Word → Bool → Bool
  junk : Nat → Word

/-- The memory system takes every request and reports nothing. -/
def DramEnv.ready : DramEnv where
  callbacks := []
  accept _ _ := true
  acceptNext _ _ := true
  junk _ := 0#64

/-- The address of word `i` of a wrapping burst. -/
def wrapAddr (low high address : Nat) : Nat → Nat
  | 0 => if address = high then low else address
  | i + 1 =>
    let next := wrapAddr low high address i + 8
    if next = high then low else next

/-- `transaction_size` of `axi_read_data`. -/
def AddrChannel.transactionSize (ar : AddrChannel) : Nat :=
  2 ^ ar.size.toNat * (ar.len + 1#8).toNat

/-- The index of word `i` of an incrementing burst. -/
def AddrChannel.incrIdx (ar : AddrChannel) (i : Nat) : Nat := ar.addr.toNat % EMU_RAM_SIZE / 8 + i

/-- The index of word `i` of a wrapping burst. -/
def AddrChannel.wrapIdx (ar : AddrChannel) (i : Nat) : Nat :=
  let address := ar.addr.toNat % EMU_RAM_SIZE
  let low := address / ar.transactionSize * ar.transactionSize
  let high := low + ar.transactionSize
  wrapAddr low high address i / 8

/-- The words of a burst fit into `meta->data`, and they lie in the RAM. -/
def AddrChannel.Fits (ar : AddrChannel) (idx : Nat → Nat) : Prop :=
  ar.transactionSize / 8 ≤ MAX_AXI_DATA_LEN ∧
    ∀ i < ar.transactionSize / 8, idx i < EMU_RAM_SIZE / 8

instance (ar : AddrChannel) (idx : Nat → Nat) : Decidable (ar.Fits idx) :=
  inferInstanceAs (Decidable (_ ∧ _))

/-- The words of a burst, as `axi_read_data` finds them in the RAM. -/
def burstWords (ram : RamWords) (ar : AddrChannel) : Option (Nat → Word) :=
  if ar.transactionSize % 8 ≠ 0 then none
  -- axi burst FIXED
  else if ar.burst = 0#8 then none
  -- axi burst INCR
  else if ar.burst = 1#8 then
    if ar.Fits ar.incrIdx then some fun i => ram (ar.incrIdx i) else none
  -- axi burst WRAP, which divides by the size
  else if ar.burst = 2#8 then
    if ar.transactionSize ≠ 0 ∧ ar.Fits ar.wrapIdx then some fun i => ram (ar.wrapIdx i) else none
  else none

/-- `axi_read_data`. -/
def axiReadData (ram : RamWords) (ar : AddrChannel) (junk : Nat → Word) : Option Dramsim3Meta :=
  (burstWords ram ar).map fun words =>
    { len := ar.len + 1#8
      size := BitVec.ofNat 8 (2 ^ ar.size.toNat)
      offset := 0#8
      id := ar.id
      data := fun i => if i < ar.transactionSize / 8 then words i else junk i }

abbrev Request := CoDRAMRequest Dramsim3Meta

abbrev Response := CoDRAMResponse Dramsim3Meta

/-- `dramsim3_request` of a read. -/
def readRequest (ram : RamWords) (axi : AxiChannel) (junk : Nat → Word) : Option Request :=
  (axiReadData ram axi.ar junk).map fun m => ⟨axi.ar.addr, false, m⟩

/-- `dramsim3_request` of a write. -/
def writeRequest (axi : AxiChannel) (junk : Nat → Word) : Request where
  address := axi.aw.addr
  isWrite := true
  metaData :=
    { len := axi.aw.len + 1#8
      size := BitVec.ofNat 8 (2 ^ axi.aw.size.toNat)
      offset := 0#8
      id := axi.aw.id
      data := junk }

namespace Dramsim3Meta

variable (m : Dramsim3Meta)

/-- The index of the word that the next beat is about. -/
def dataStart : Nat := m.offset.toNat * m.size.toNat / 8

/-- `meta->offset == meta->len - 1`, which C evaluates in `int`. -/
def isLast : Bool := m.offset.toNat + 1 == m.len.toNat

/-- The next beat lies in `meta->data`, and a channel has room for it. -/
def beatFits : Bool :=
  decide (8 * m.dataStart + m.size.toNat ≤ 8 * MAX_AXI_DATA_LEN) &&
    decide (m.size.toNat ≤ 8 * AXI_DATA_WIDTH_64)

/-- `meta->offset++`. -/
def advance : Dramsim3Meta := { m with offset := m.offset + 1#8 }

end Dramsim3Meta

/-- The static variables of `ram.cpp`. -/
structure RamSlave (δ : Type*) where
  ram : RamWords
  dram : δ
  waitRespR : Option Response
  waitRespB : Option Response
  waitReqW : Option Request

namespace RamSlave

variable {δ : Type*} [CoDRAMsim3 δ Dramsim3Meta] (s : RamSlave δ) (axi : AxiChannel) (env : DramEnv)

/-! ## `dramsim3_helper_rising` -/

/-- ticks DRAMsim3 -/
def tick : Option (RamSlave δ) :=
  (CoDRAMsim3.tick s.dram env.callbacks).map fun d => { s with dram := d }

/-- read data fire: check the last read request -/
def riseR : Option (RamSlave δ) :=
  if axi.rdataFire then
    s.waitRespR.map fun resp =>
      -- check whether the last rdata response has finished
      if resp.req.metaData.advance.offset = resp.req.metaData.len then
        { s with waitRespR := none }
      else
        { s with
          waitRespR := some { resp with req := resp.req.withMeta resp.req.metaData.advance } }
  else some s

/-- read address fire: accept a new request -/
def riseAr : Option (RamSlave δ) :=
  if axi.raddrFire then
    (readRequest s.ram axi env.junk).map fun req =>
      { s with dram := CoDRAMsim3.addRequest s.dram req }
  else some s

/-- The RAM after the data of a write is flushed to it. -/
def flush (ram : RamWords) (req : Request) : RamWords :=
  ram.memcpy (req.address.toNat % EMU_RAM_SIZE / 8) req.metaData.data
    (req.metaData.len.toNat * req.metaData.size.toNat)

/-- What is copied lies in `meta->data`, and where it goes in the RAM. -/
def flushFits (req : Request) : Bool :=
  let n := req.metaData.len.toNat * req.metaData.size.toNat
  decide (n ≤ 8 * MAX_AXI_DATA_LEN) &&
    decide (8 * (req.address.toNat % EMU_RAM_SIZE / 8) + n ≤ EMU_RAM_SIZE)

/-- the last write transaction is acknowledged -/
def riseB : Option (RamSlave δ) :=
  if axi.wackFire then
    s.waitRespB.bind fun resp =>
      if flushFits resp.req then some { s with ram := flush s.ram resp.req, waitRespB := none }
      else none
  else some s

/-- write address fire: accept a new write request -/
def riseAw : Option (RamSlave δ) :=
  axi.waddrFire.bind fun fire =>
    if fire then
      if s.waitReqW.isNone then some { s with waitReqW := some (writeRequest axi env.junk) }
      else none
    else some s

/-- The index of `src_addr`. -/
def srcIdx (axi : AxiChannel) (m : Dramsim3Meta) : Nat :=
  (axi.aw.addr.toNat % EMU_RAM_SIZE + m.offset.toNat * m.size.toNat) / 8

/-- A beat fits, and if it is merged with the RAM there is a word to merge it with. -/
def takeFits (axi : AxiChannel) (m : Dramsim3Meta) : Bool :=
  m.beatFits && (axi.w.strb == 0xff#8 || decide (srcIdx axi m < EMU_RAM_SIZE / 8))

/-- The request with the data of a beat. -/
def takeBeat (ram : RamWords) (axi : AxiChannel) (req : Request) : Option Request :=
  let m := req.metaData
  if takeFits axi m then
    (axi.getWdata (m.data m.dataStart) (ram (srcIdx axi m)) m.size.toNat).map fun w =>
      req.withMeta { m with data := Function.update m.data m.dataStart w }.advance
  else none

/-- write data fire: for the last write transaction -/
def riseW : Option (RamSlave δ) :=
  if axi.wdataFire then
    s.waitReqW.bind fun req =>
      (takeBeat s.ram axi req).map fun req => { s with waitReqW := some req }
  else some s

/-- The write request with all its data, if the memory system accepts it. -/
def complete : Option Request :=
  s.waitReqW.filter fun req =>
    req.metaData.offset == req.metaData.len &&
      CoDRAMsim3.willAccept s.dram env.accept req.address true

/-- if this is the last beat -/
def submit : RamSlave δ :=
  match s.complete env with
  | none => s
  | some req => { s with dram := CoDRAMsim3.addRequest s.dram req, waitReqW := none }

/-- The handshakes of `dramsim3_helper_rising`. -/
def riseChannels : Option (RamSlave δ) := do
  let s ← s.tick env
  let s ← s.riseR axi
  let s ← s.riseAr axi env
  let s ← s.riseB axi
  let s ← s.riseAw axi env
  s.riseW axi

/-- `dramsim3_helper_rising`. -/
def helperRising : Option (RamSlave δ) := (s.riseChannels axi env).map fun s => s.submit env

/-! ## `dramsim3_helper_falling` -/

/-- if finished, we try the next rdata response -/
def fetchR : RamSlave δ :=
  if s.waitRespR.isNone then
    match CoDRAMsim3.checkReadResponse s.dram with
    | none => s
    | some (resp, d) => { s with dram := d, waitRespR := some resp }
  else s

/-- if finished, we try the next write response -/
def fetchB : RamSlave δ :=
  if s.waitRespB.isNone then
    match CoDRAMsim3.checkWriteResponse s.dram with
    | none => s
    | some (resp, d) => { s with dram := d, waitRespB := some resp }
  else s

/-- if there's some data response, put it onto axi bus -/
def putR : AxiChannel :=
  match s.waitRespR with
  | none => axi
  | some resp =>
    let m := resp.req.metaData
    axi.putRdata (m.data m.dataStart) m.size.toNat m.isLast m.id

/-- RADDR: check whether the read request can be accepted -/
def acceptAr : AxiChannel :=
  match axi.getRaddr with
  | some raddr =>
    if CoDRAMsim3.willAccept s.dram env.acceptNext raddr false then axi.acceptRaddr else axi
  | none => axi

/-- WREQ: check whether the write request can be accepted -/
def acceptAw : AxiChannel :=
  match s.waitReqW, axi.getWaddr with
  | none, some waddr =>
    if CoDRAMsim3.willAccept s.dram env.acceptNext waddr true then axi.acceptWaddr.acceptWdata
    else axi
  | _, _ => axi

/-- WDATA: check whether the write data can be accepted -/
def acceptW : AxiChannel :=
  match s.waitReqW with
  | some req =>
    if CoDRAMsim3.willAccept s.dram env.acceptNext req.address true ∧
        req.metaData.offset ≠ req.metaData.len then axi.acceptWdata
    else axi
  | none => axi

/-- if there's some write response, put it onto axi bus -/
def putB : AxiChannel :=
  match s.waitRespB with
  | none => axi
  | some resp => axi.putWack resp.req.metaData.id

/-- default branch to avoid wrong handshake -/
def quiet : AxiChannel :=
  { axi with
    aw.ready := false
    w.ready := false
    b.valid := false
    ar.ready := false
    r.valid := false }

/-- The beat on the bus is copied within `meta->data` and the channel. -/
def putFits : Bool := s.waitRespR.all fun resp => resp.req.metaData.beatFits

/-- What `dramsim3_helper_falling` does with the slave and the channels. -/
def falling : RamSlave δ × AxiChannel :=
  let s := s.fetchR
  let axi := s.putR (quiet axi)
  let axi := s.acceptAr axi env
  let axi := s.acceptAw axi env
  let axi := s.acceptW axi env
  let s := s.fetchB
  (s, s.putB axi)

/-- `dramsim3_helper_falling`. -/
def helperFalling : Option (RamSlave δ × AxiChannel) :=
  if s.fetchR.putFits then some (s.falling axi env) else none

/-- The static variables before the first cycle. -/
def init (ram : RamWords) (dram : δ) : RamSlave δ := ⟨ram, dram, none, none, none⟩

end RamSlave

end Oscpu.Emu
