import Oscpu.Axi.Units

/-!
# The bus master `axi_rw`

Two state machines that step only while the request they serve is presented, a beat counter, and
the lane masks computed from the address presented in the cycle of the beat.
-/

namespace Oscpu.Axi

open Oscpu.Rtl

inductive WState where
  | idle | addr | write | resp
  deriving DecidableEq, Repr

inductive RState where
  | idle | addr | read
  deriving DecidableEq, Repr

/-- The inputs from the slave in one cycle. -/
structure AxiIn where
  arReady : Bool
  rValid : Bool
  rData : Word
  rLast : Bool
  rId : BitVec 4
  rResp : BitVec 2
  awReady : Bool
  wReady : Bool
  bValid : Bool
  bId : BitVec 4
  bResp : BitVec 2

/-- The outputs to the slave in one cycle. -/
structure AxiOut where
  arValid : Bool
  arAddr : Word
  arId : BitVec 4
  arLen : BitVec 8
  arSize : BitVec 3
  rReady : Bool
  awValid : Bool
  awAddr : Word
  awId : BitVec 4
  awLen : BitVec 8
  awSize : BitVec 3
  wValid : Bool
  wData : Word
  wStrb : BitVec 8
  wLast : Bool
  bReady : Bool

/-- The request on the `rw_*` ports. -/
structure RwReq where
  valid : Bool
  /-- `rw_req_i`: `REQ_WRITE` is true. -/
  write : Bool
  addr : Word
  size : BitVec 2
  /-- `axi_sig_mem`. -/
  sigMem : Bool
  wdata : Word
  strb : BitVec 8

/-- The registers of `axi_rw`. -/
structure AxiRw where
  wState : WState
  rState : RState
  len : BitVec 8
  rwReady : Bool
  rwResp : BitVec 2
  dataRead : Word

namespace RwReq

variable (r : RwReq)

/-- `w_valid`. -/
def wValid : Bool := r.valid && r.write

/-- `r_valid`. -/
def rValid : Bool := r.valid && !r.write

/-- `aligned`; a transfer never spans more than one bus word by itself (`BLOCK_TRANS` is 0). -/
def aligned : Bool := r.addr.extractLsb' 0 3 == 0#3

/-- `addr_end`. -/
def addrEnd : BitVec 4 :=
  let op2 : BitVec 4 :=
    if r.size = SIZE_B then 0#4 else if r.size = SIZE_H then 1#4
    else if r.size = SIZE_W then 3#4 else 7#4
  (r.addr.extractLsb' 0 3).zeroExtend 4 + op2

/-- `overstep`. -/
def overstep : Bool := r.addrEnd.getLsbD 3

/-- `axi_len`. -/
def axiLen : BitVec 8 := if r.aligned then 0#8 else (BitVec.ofBool r.overstep).zeroExtend 8

/-- `axi_addr`. -/
def axiAddr : Word := r.addr.extractLsb' 3 61 ++ 0#3

/-- `aligned_offset_l`. -/
def offsetL : BitVec 6 := (r.addr.extractLsb' 0 3).zeroExtend 6 <<< 3

/-- `aligned_offset_h`, in 6 bits. -/
def offsetH : BitVec 6 := (64#7 - r.offsetL.zeroExtend 7).extractLsb' 0 6

/-- `mask`. -/
def mask : BitVec 128 :=
  (if r.size = SIZE_B then 0xff#128 else if r.size = SIZE_H then 0xffff#128
    else if r.size = SIZE_W then 0xffffffff#128 else 0xffffffffffffffff#128) <<< r.offsetL.toNat

/-- `axi_r_data_l`. -/
def dataL (rData : Word) : Word := (rData &&& r.mask.extractLsb' 0 64) >>> r.offsetL.toNat

/-- `axi_r_data_h`. -/
def dataH (rData : Word) : Word := (rData &&& r.mask.extractLsb' 64 64) <<< r.offsetH.toNat

end RwReq

namespace AxiRw

variable (a : AxiRw) (r : RwReq) (i : AxiIn)

/-- The channel outputs. They depend on the registers and the request only. -/
def out : AxiOut where
  arValid := (a.rState == .addr) && r.rValid
  arAddr := r.axiAddr
  arId := if r.sigMem then 2#4 else 1#4
  arLen := r.axiLen
  arSize := 3#3
  rReady := a.rState == .read
  awValid := (a.wState == .addr) && r.wValid
  awAddr := r.addr
  awId := if r.sigMem then 2#4 else 0#4
  awLen := r.axiLen
  awSize := 3#3
  wValid := a.wState == .write
  wData := r.wdata
  wStrb := r.strb
  wLast := true
  bReady := a.wState == .resp

/-- `aw_hs`. -/
def awHs : Bool := i.awReady && (a.out r).awValid

/-- `w_hs`, which is `w_done`: `axi_w_last_o` is tied high. -/
def wHs : Bool := i.wReady && (a.out r).wValid

/-- `b_hs`. -/
def bHs : Bool := (a.out r).bReady && i.bValid

/-- `ar_hs`. -/
def arHs : Bool := i.arReady && (a.out r).arValid

/-- `r_hs`. -/
def rHs : Bool := (a.out r).rReady && i.rValid

/-- `r_done`. -/
def rDone : Bool := a.rHs r i && i.rLast

/-- `trans_done`. -/
def transDone : Bool := if r.write then a.bHs r i else a.rDone r i

/-- The write state machine. -/
def nextW : WState :=
  if r.wValid then
    match a.wState with
    | .idle => .addr
    | .addr => if a.awHs r i then .write else .addr
    | .write => if a.wHs r i then .resp else .write
    | .resp => if a.bHs r i then .idle else .resp
  else a.wState

/-- The read state machine. -/
def nextR : RState :=
  if r.rValid then
    match a.rState with
    | .idle => .addr
    | .addr => if a.arHs r i then .read else .addr
    | .read => if a.rDone r i then .idle else .read
  else a.rState

/-- The beat counter `len`. -/
def nextLen : BitVec 8 :=
  if (r.write && a.wState == .idle) || (!r.write && a.rState == .idle) then 0#8
  else if a.len != r.axiLen && (a.wHs r i || a.rHs r i) then a.len + 1#8
  else a.len

/-- `data_read_o`. -/
def nextData : Word :=
  if a.rHs r i then
    if !r.aligned && r.overstep then
      if a.len.getLsbD 0 then a.dataRead ||| r.dataH i.rData else r.dataL i.rData
    else if a.len = 0#8 then r.dataL i.rData else a.dataRead
  else a.dataRead

/-- `rw_resp_nxt`, a one-bit wire. -/
def respNxt : BitVec 1 := (if r.write then i.bResp else i.rResp).extractLsb' 0 1

/-- The registers after a clock edge. -/
def step (reset : Bool) : AxiRw where
  wState := if reset then .idle else a.nextW r i
  rState := if reset then .idle else a.nextR r i
  len := if reset then 0#8 else a.nextLen r i
  rwReady := if reset then false else a.transDone r i
  rwResp :=
    if reset then 0#2 else if a.transDone r i then (respNxt r i).zeroExtend 2 else a.rwResp
  dataRead := if reset then 0#64 else a.nextData r i

end AxiRw

end Oscpu.Axi
