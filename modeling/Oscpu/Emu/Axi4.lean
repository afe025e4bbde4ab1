import Oscpu.Axi.System

/-!
# The AXI channels of the emulator: `axi4.h` and `axi4.cpp`

The C++ side of the bus. `ready` of the request channels and `valid` of the response channels are
set by the memory model, everything else is copied from the core. A beat is one 64-bit word here, as
the bus of the core has no more, and a size has the three bits of the port.
-/

namespace Oscpu.Emu

open Oscpu.Rtl Oscpu.Axi

def AXI_DATA_WIDTH_64 : Nat := 4

/-- `axi_aw_channel` and `axi_ar_channel`. -/
structure AddrChannel where
  ready : Bool
  valid : Bool
  addr : Word
  id : BitVec 8
  len : BitVec 8
  size : BitVec 3
  burst : BitVec 8

/-- `axi_w_channel`. -/
structure WChannel where
  ready : Bool
  valid : Bool
  data : Word
  strb : BitVec 8
  last : Bool

/-- `axi_b_channel`. -/
structure BChannel where
  ready : Bool
  valid : Bool
  resp : BitVec 8
  id : BitVec 8

/-- `axi_r_channel`. -/
structure RChannel where
  ready : Bool
  valid : Bool
  resp : BitVec 8
  data : Word
  last : Bool
  id : BitVec 8

structure AxiChannel where
  aw : AddrChannel
  w : WChannel
  b : BChannel
  ar : AddrChannel
  r : RChannel

/-- `memcpy` of `n` bytes within one word: the lowest bytes of `src` over those of `dest`. -/
def copyBytes (n : Nat) (src dest : Word) : Word :=
  let m := BitVec.ofNat 64 (2 ^ (8 * n) - 1)
  (dest &&& ~~~m) ||| (src &&& m)

theorem copyBytes_eq {n : Nat} (hn : 8 ≤ n) (src dest : Word) : copyBytes n src dest = src := by
  have hm (k : Nat) (hk : k < 64) : (BitVec.ofNat 64 (2 ^ (8 * n) - 1)).getLsbD k = true := by
    rw [BitVec.getLsbD_ofNat, Nat.testBit_two_pow_sub_one]
    simp only [hk, decide_true, Bool.true_and, decide_eq_true_eq]
    omega
  apply BitVec.eq_of_getLsbD_eq
  intro k hk
  simp only [copyBytes, BitVec.getLsbD_or, BitVec.getLsbD_and, BitVec.getLsbD_not, hm k hk]
  simp

theorem copyBytes_zero (src dest : Word) : copyBytes 0 src dest = dest := by
  have hm : BitVec.ofNat 64 (2 ^ (8 * 0) - 1) = 0#64 := rfl
  rw [copyBytes, hm, BitVec.not_zero, BitVec.and_allOnes, BitVec.and_zero, BitVec.or_zero]

namespace AxiChannel

variable (axi : AxiChannel)

/-- `axi_get_raddr`. -/
def getRaddr : Option Word := if axi.ar.valid then some axi.ar.addr else none

/-- `axi_accept_raddr`. -/
def acceptRaddr : AxiChannel := { axi with ar.ready := true }

/-- `axi_check_raddr_fire`. -/
def raddrFire : Bool := axi.ar.valid && axi.ar.ready

/-- `axi_put_rdata`. -/
def putRdata (src : Word) (n : Nat) (last : Bool) (id : BitVec 8) : AxiChannel :=
  { axi with
    r.data := copyBytes n src axi.r.data
    r.valid := true
    r.last := last
    r.id := id }

/-- `axi_check_rdata_fire`. -/
def rdataFire : Bool := axi.r.ready && axi.r.valid

/-- `axi_get_waddr`. -/
def getWaddr : Option Word := if axi.aw.valid then some axi.aw.addr else none

/-- `axi_accept_waddr`. -/
def acceptWaddr : AxiChannel := { axi with aw.ready := true }

/-- The assertion of `axi_check_waddr_fire`. -/
def waddrOk : Bool :=
  axi.aw.burst == 1#8 || (axi.aw.burst == 2#8 && axi.aw.addr &&& 0x3f#64 == 0#64)

/-- `axi_check_waddr_fire`. -/
def waddrFire : Option Bool :=
  if axi.aw.valid && axi.aw.ready then
    if axi.waddrOk then some true else none
  else some false

/-- `axi_accept_wdata`. -/
def acceptWdata : AxiChannel := { axi with w.ready := true }

/-- `axi_check_wdata_fire`. -/
def wdataFire : Bool := axi.w.valid && axi.w.ready

/-- `axi_get_wdata`: the new value of `dest`. The bytes that the strobe leaves out are those of
`src`. -/
def getWdata (dest src : Word) (n : Nat) : Option Word :=
  if axi.w.strb == 0xff#8 then some (copyBytes n axi.w.data dest)
  else if n ≤ 8 then
    some (copyBytes n ((src &&& ~~~strbMask axi.w.strb) ||| (axi.w.data &&& strbMask axi.w.strb))
      dest)
  else none

/-- `axi_put_wack`. -/
def putWack (id : BitVec 8) : AxiChannel := { axi with b.valid := true, b.id := id }

/-- `axi_check_wack_fire`. -/
def wackFire : Bool := axi.b.valid && axi.b.ready

end AxiChannel

/-- What a master drives: the request channels without `ready`, and `ready` of the others. -/
structure MasterOut where
  awValid : Bool
  awAddr : Word
  awId : BitVec 8
  awLen : BitVec 8
  awSize : BitVec 3
  awBurst : BitVec 8
  wValid : Bool
  wData : Word
  wStrb : BitVec 8
  wLast : Bool
  bReady : Bool
  arValid : Bool
  arAddr : Word
  arId : BitVec 8
  arLen : BitVec 8
  arSize : BitVec 3
  arBurst : BitVec 8
  rReady : Bool

/-- A master that asks for one burst of words after the other and takes what it is given. -/
def MasterOut.reader (burst len : BitVec 8) : MasterOut where
  awValid := false
  awAddr := 0#64
  awId := 0#8
  awLen := 0#8
  awSize := 3#3
  awBurst := 1#8
  wValid := false
  wData := 0#64
  wStrb := 0xff#8
  wLast := true
  bReady := true
  arValid := true
  arAddr := 0x100#64
  arId := 2#8
  arLen := len
  arSize := 3#3
  arBurst := burst
  rReady := true

/-- A master that writes the same half word again and again. -/
def MasterOut.writer : MasterOut :=
  { reader 1#8 0#8 with
    awValid := true
    awAddr := 0x100#64
    awId := 2#8
    wValid := true
    wData := 0x123456789abcdef0#64
    wStrb := 0x0f#8
    arValid := false }

/-- The channels with other outputs of the master. -/
def AxiChannel.copyFrom (axi : AxiChannel) (o : MasterOut) : AxiChannel where
  aw := ⟨axi.aw.ready, o.awValid, o.awAddr, o.awId, o.awLen, o.awSize, o.awBurst⟩
  w := ⟨axi.w.ready, o.wValid, o.wData, o.wStrb, o.wLast⟩
  b := { axi.b with ready := o.bReady }
  ar := ⟨axi.ar.ready, o.arValid, o.arAddr, o.arId, o.arLen, o.arSize, o.arBurst⟩
  r := { axi.r with ready := o.rReady }

/-- The channels before anything has been driven, with the inputs of the core at zero. -/
def AxiChannel.start (o : MasterOut) : AxiChannel where
  aw := ⟨false, o.awValid, o.awAddr, o.awId, o.awLen, o.awSize, o.awBurst⟩
  w := ⟨false, o.wValid, o.wData, o.wStrb, o.wLast⟩
  b := ⟨o.bReady, false, 0#8, 0#8⟩
  ar := ⟨false, o.arValid, o.arAddr, o.arId, o.arLen, o.arSize, o.arBurst⟩
  r := ⟨o.rReady, false, 0#8, 0#64, false, 0#8⟩

end Oscpu.Emu
