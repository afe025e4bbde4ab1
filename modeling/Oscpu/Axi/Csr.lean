import Oscpu.Rtl.Reg

/-!
# The control and status registers: `csr.sv` and `clint.sv`
-/

namespace Oscpu.Axi

open Oscpu.Rtl

/-- The registers of `csr`. `keep` has no reset. -/
structure Csr where
  keep : Bool
  mstatus : Word
  mie : Word
  mtvec : Word
  mepc : Word
  mcause : Word
  mip : Word
  mscratch : Word

/-- What `csr` sees of the instruction in write-back, and of the one in EX. -/
structure CsrIn where
  wdata : Word
  csrW : BitVec 12
  csrWen : Bool
  exceptEn : Bool
  exceptCode : Word
  /-- `csr_exaddr`, wired to the pc in EX. -/
  exaddr : Word
  /-- `csr_wbaddr`. -/
  wbaddr : Word
  mret : Bool
  mtimeInt : Bool
  wbIns : Ins
  wbReady : Bool

def CSR_MSTATUS : BitVec 12 := 0x300#12
def CSR_MIE : BitVec 12 := 0x304#12
def CSR_MTVEC : BitVec 12 := 0x305#12
def CSR_MSCRATCH : BitVec 12 := 0x340#12
def CSR_MEPC : BitVec 12 := 0x341#12
def CSR_MCAUSE : BitVec 12 := 0x342#12
def CSR_MIP : BitVec 12 := 0x344#12

namespace Csr

variable (c : Csr) (i : CsrIn)

/-- `ecall`. -/
def ecall : Bool := i.wbReady && i.exceptEn

/-- `interrupt_en`. -/
def interruptEn : Bool := i.wbReady && (c.mie.getLsbD 7 && i.wbIns != 0#32)

/-- `time_int`. -/
def timeInt : Bool := i.mtimeInt && c.mstatus.getLsbD 3 && c.mie.getLsbD 7 && i.wbIns != 0#32

/-- `flush`. -/
def flush : Bool := ecall i || (c.interruptEn i && c.timeInt i) || i.mret

/-- The condition under which `mepc` and `mcause` record a timer interrupt. -/
def timeTrap : Bool := i.mtimeInt && c.mstatus.getLsbD 3 && c.interruptEn i

/-- `{mstatus[63:13], 2'b11, 3'b0, mstatus[3], 3'b0, 1'b0, 3'b0}`. -/
def mstatusTrap (m : Word) : Word :=
  m.extractLsb' 13 51 ++ 0b11#2 ++ 0#3 ++ m.extractLsb' 3 1 ++ 0#3 ++ 0#1 ++ 0#3

/-- `{mstatus[63:13], 2'b00, 3'b0, 1'b1, 3'b0, mstatus[7], 3'b0}`. -/
def mstatusMret (m : Word) : Word :=
  m.extractLsb' 13 51 ++ 0b00#2 ++ 0#3 ++ 1#1 ++ 0#3 ++ m.extractLsb' 7 1 ++ 0#3

/-- `{csr_wdata[16:15] == 2'b11 || csr_wdata[14:13] == 2'b11, csr_wdata[62:0]}`. -/
def mstatusWrite (w : Word) : Word :=
  BitVec.ofBool (w.extractLsb' 15 2 == 0b11#2 || w.extractLsb' 13 2 == 0b11#2) ++
    w.extractLsb' 0 63

/-- `{addr[63:2], 2'b0}`. -/
def alignPc (a : Word) : Word := a.extractLsb' 2 62 ++ 0#2

/-- A write of the register `n` by the instruction in write-back. -/
def writes (n : BitVec 12) : Bool := i.csrWen && i.csrW == n

/-- The registers after a clock edge. -/
def step (rst : Bool) : Csr where
  keep := if c.flush i then true else if c.keep && i.wbReady then false else c.keep
  mstatus :=
    if rst then 0x1808#64
    else if c.mstatus.getLsbD 3 && (i.exceptEn || i.mtimeInt && c.interruptEn i) then
      mstatusTrap c.mstatus
    else if writes i CSR_MSTATUS && !c.timeInt i && i.wbReady then mstatusWrite i.wdata
    else if i.mret then mstatusMret c.mstatus
    else c.mstatus
  mtvec := if rst then 0#64 else if writes i CSR_MTVEC then i.wdata else c.mtvec
  mepc :=
    if rst then 0#64
    else if c.timeTrap i then alignPc i.wbaddr
    else if i.exceptEn then alignPc i.exaddr
    else if writes i CSR_MEPC then i.wdata
    else c.mepc
  mcause :=
    if rst then 0#64
    else if c.timeTrap i then 0x8000000000000007#64
    else if i.exceptEn then i.exceptCode
    else if writes i CSR_MCAUSE then i.wdata
    else c.mcause
  mie := if rst then 0#64 else if writes i CSR_MIE && i.wbReady then i.wdata else c.mie
  mip :=
    if rst then 0#64
    else if writes i CSR_MIP then i.wdata
    else c.mip &&& ~~~(1#64 <<< 11)
  mscratch := if rst then 0#64 else if writes i CSR_MSCRATCH then i.wdata else c.mscratch

/-- `csr_data`, the read multiplexer. -/
def read (csrR : BitVec 12) : Word :=
  if csrR = CSR_MSTATUS then c.mstatus
  else if csrR = CSR_MIE then c.mie
  else if csrR = CSR_MTVEC then c.mtvec
  else if csrR = CSR_MEPC then c.mepc
  else if csrR = CSR_MCAUSE then c.mcause
  else if csrR = CSR_MIP then c.mip
  else 0#64

/-- `mtvec_pc`. -/
def mtvecPc : Word :=
  let base := alignPc c.mtvec
  if c.mtvec.extractLsb' 0 2 = 0#2 then base
  else if !c.mcause.getLsbD 63 then (base + (c.mcause.extractLsb' 0 63).zeroExtend 64) >>> 2
  else base

end Csr

/-- The registers of `clint`. -/
structure Clint where
  mtime : Word
  mtimecmp : Word

namespace Clint

variable (c : Clint)

/-- `mtime_int`. -/
def mtimeInt : Bool := c.mtimecmp ≤ c.mtime

/-- The registers after a clock edge. -/
def step (rst mtimeEn mtimecmpEn : Bool) (wdata : Word) : Clint where
  mtime := if rst then 0#64 else if mtimeEn then wdata else c.mtime + 1#64
  mtimecmp := if rst then 0#64 else if mtimecmpEn then wdata else c.mtimecmp

end Clint

end Oscpu.Axi
