import Oscpu.Nemu.Decode
import Oscpu.Nemu.Paddr

/-!
# CSRs, traps and privileged instructions: `priv.c`, `intr.c` and `priv/system.c`

The CSRs are one array; `sstatus`, `sie`, `sip`, `fflags` and `frm` are views of others. Writes of the
CSRs of the floating point unit are left out.
-/

namespace Oscpu.Nemu

open Oscpu.Rtl

/-! ## The CSRs -/

namespace CsrId

def mstatus : BitVec 12 := 0x300#12
def medeleg : BitVec 12 := 0x302#12
def mideleg : BitVec 12 := 0x303#12
def mie : BitVec 12 := 0x304#12
def mtvec : BitVec 12 := 0x305#12
def mscratch : BitVec 12 := 0x340#12
def mepc : BitVec 12 := 0x341#12
def mcause : BitVec 12 := 0x342#12
def mtval : BitVec 12 := 0x343#12
def mip : BitVec 12 := 0x344#12
def sstatus : BitVec 12 := 0x100#12
def sie : BitVec 12 := 0x104#12
def stvec : BitVec 12 := 0x105#12
def sscratch : BitVec 12 := 0x140#12
def sepc : BitVec 12 := 0x141#12
def scause : BitVec 12 := 0x142#12
def stval : BitVec 12 := 0x143#12
def sip : BitVec 12 := 0x144#12
def satp : BitVec 12 := 0x180#12
def fflags : BitVec 12 := 0x001#12
def frm : BitVec 12 := 0x002#12
def fcsr : BitVec 12 := 0x003#12

end CsrId

/-- `CSRS` of `csr.h`. -/
def CSRS : List (BitVec 12) :=
  [CsrId.mstatus, 0x301#12, CsrId.medeleg, CsrId.mideleg, CsrId.mie, CsrId.mtvec, 0x306#12,
    CsrId.mscratch, CsrId.mepc, CsrId.mcause, CsrId.mtval, CsrId.mip, 0x3a0#12, 0x3b0#12, 0x3b1#12,
    0x3b2#12, 0x3b3#12, 0xf14#12, CsrId.sstatus, CsrId.sie, CsrId.stvec, 0x106#12, CsrId.sscratch,
    CsrId.sepc, CsrId.scause, CsrId.stval, CsrId.sip, CsrId.satp, CsrId.fflags, CsrId.frm, CsrId.fcsr]

def SSTATUS_WMASK : Word := 0xc6122#64
def SSTATUS_RMASK : Word := SSTATUS_WMASK ||| 0x18000#64 ||| 1#64 <<< 63 ||| 3#64 <<< 32
def FFLAGS_MASK : Word := 0x1f#64
def FRM_MASK : Word := 0x07#64
def FCSR_MASK : Word := 0xff#64

def maskBitset (old mask new : Word) : Word := old &&& ~~~mask ||| new &&& mask

/-- `x` with this value in a field of `w` bits: an assignment to a member of a union. -/
def putField {w : Nat} (x : Word) (lo : Nat) (v : BitVec w) : Word :=
  maskBitset x ((BitVec.allOnes w).zeroExtend 64 <<< lo) (v.zeroExtend 64 <<< lo)

namespace State

variable (n : State)

def csr (id : BitVec 12) : Word := n.csrArray id

def setCsr (id : BitVec 12) (v : Word) : State :=
  { n with csrArray := Function.update n.csrArray id v }

/-- `mode < MODE_M` and such. -/
def modeLt (a b : Word) : Bool := decide (a.toNat < b.toNat)

/-- `update_mmu_state_internal`; none if the assertion on `satp` fails. -/
def mmuTranslates (ifetch : Bool) : Option Bool :=
  let mstatus := n.csr CsrId.mstatus
  let mode :=
    if mstatus.getLsbD 17 && !ifetch then (mstatus.extractLsb' 11 2).zeroExtend 64 else n.mode
  let satpMode := (n.csr CsrId.satp).extractLsb' 60 4
  if modeLt mode MODE_M then
    if satpMode == 0#4 then some false
    else if satpMode == 8#4 then some true
    else none
  else some false

def updateMmuState : Exec State :=
  match n.mmuTranslates true, n.mmuTranslates false with
  | some f, some d => .ok { n with ifetchMmuState := f, dataMmuState := d }
  | _, _ => .error .fault

def updateMstatusSd : State :=
  let mstatus := n.csr CsrId.mstatus
  n.setCsr CsrId.mstatus
    (putField mstatus 63 (BitVec.ofBool (mstatus.extractLsb' 13 2 == 3#2)))

/-- `csr_read`, with what it does to `mstatus`. -/
def csrRead (src : BitVec 12) : Word × State :=
  let n := if src == CsrId.mstatus || src == CsrId.sstatus then n.updateMstatusSd else n
  let v :=
    if src == CsrId.sstatus then n.csr CsrId.mstatus &&& SSTATUS_RMASK
    else if src == CsrId.sie then n.csr CsrId.mie &&& (0x222#64 &&& n.csr CsrId.mideleg)
    else if src == CsrId.sip then n.csr CsrId.mip &&& (0x222#64 &&& n.csr CsrId.mideleg)
    else if src == CsrId.fcsr then n.csr CsrId.fcsr &&& FCSR_MASK
    else if src == CsrId.fflags then n.csr CsrId.fcsr &&& FFLAGS_MASK
    else if src == CsrId.frm then n.csr CsrId.fcsr >>> 5 &&& FRM_MASK
    else n.csr src
  (v, n)

def csrWrite (dest : BitVec 12) (src : Word) : Exec State :=
  if dest == CsrId.fflags || dest == CsrId.frm || dest == CsrId.fcsr then .error .unmodelled
  else
    let n :=
      if dest == CsrId.sstatus then
        n.setCsr CsrId.mstatus (maskBitset (n.csr CsrId.mstatus) SSTATUS_WMASK src)
      else if dest == CsrId.sie then
        n.setCsr CsrId.mie
          (maskBitset (n.csr CsrId.mie) (0x222#64 &&& n.csr CsrId.mideleg) src)
      else if dest == CsrId.sip then
        n.setCsr CsrId.mip
          (maskBitset (n.csr CsrId.mip) (0x222#64 &&& n.csr CsrId.mideleg) src)
      else if dest == CsrId.medeleg then n.setCsr dest (src &&& 0xf3ff#64)
      else if dest == CsrId.mideleg then n.setCsr dest (src &&& 0x222#64)
      else n.setCsr dest src
    let n := if dest == CsrId.sstatus || dest == CsrId.mstatus then n.updateMstatusSd else n
    if dest == CsrId.mstatus || dest == CsrId.satp then n.updateMmuState else .ok n

/-- Bits 9 and 8 of the address are the lowest mode. -/
def csrIsLegal (addr : BitVec 12) : Bool :=
  CSRS.contains addr && !modeLt n.mode ((addr.extractLsb' 8 2).zeroExtend 64)

/-- `csrrw`: the old value goes to `dest` before the value of `src` is written. -/
def csrrw (dest src : Option Reg) (csrid : BitVec 12) : Exec State :=
  if !n.csrIsLegal csrid then .error (.exception EX_II n)
  else
    let tmp := src.elim 0#64 n.get
    let n := dest.elim n fun d => let (v, n) := n.csrRead csrid; n.set d v
    if src.isSome then n.csrWrite csrid tmp else .ok n

/-! ## Traps -/

/-- Page faults and misaligned accesses keep `mtval` and `stval`. -/
def setsTval (no : Word) : Bool :=
  no == 12#64 || no == 13#64 || no == 15#64 || no == 4#64 || no == 6#64

/-- `raise_intr`: the trap vector. -/
def raiseIntr (no epc : Word) : Exec (Word × State) := do
  let deleg := if no.getLsbD 63 then n.csr CsrId.mideleg else n.csr CsrId.medeleg
  let mstatus := n.csr CsrId.mstatus
  if deleg.getLsbD (no &&& 0xf#64).toNat && modeLt n.mode MODE_M then
    let n := (n.setCsr CsrId.scause no).setCsr CsrId.sepc epc
    let mstatus := putField mstatus 8 (n.mode.setWidth 1)
    let mstatus := putField mstatus 5 (mstatus.extractLsb' 1 1)
    let n := n.setCsr CsrId.mstatus (putField mstatus 1 0#1)
    let n := if setsTval no then n else n.setCsr CsrId.stval 0#64
    let n ← updateMmuState { n with mode := MODE_S }
    return (n.csr CsrId.stvec, n)
  else
    let n := (n.setCsr CsrId.mcause no).setCsr CsrId.mepc epc
    let mstatus := putField mstatus 11 (n.mode.setWidth 2)
    let mstatus := putField mstatus 7 (mstatus.extractLsb' 3 1)
    let n := n.setCsr CsrId.mstatus (putField mstatus 3 0#1)
    let n := if setsTval no then n else n.setCsr CsrId.mtval 0#64
    let n ← updateMmuState { n with mode := MODE_M }
    return (n.csr CsrId.mtvec, n)

/-- `priv_instr`. Flushing the TLB or the trace cache does nothing to this interpreter. -/
def privInstr (op : BitVec 12) : Exec (Word × State) := do
  let mstatus := n.csr CsrId.mstatus
  if op == 0x102#12 then
    -- sret
    let mstatus := putField mstatus 1 (mstatus.extractLsb' 5 1)
    let mstatus := putField mstatus 5 1#1
    let mode := (mstatus.extractLsb' 8 1).zeroExtend 64
    let n := n.setCsr CsrId.mstatus (putField mstatus 8 0#1)
    return (n.csr CsrId.sepc, { n with mode := mode })
  else if op == 0x302#12 then
    -- mret
    let mstatus := putField mstatus 3 (mstatus.extractLsb' 7 1)
    let mstatus := putField mstatus 7 1#1
    let mode := (mstatus.extractLsb' 11 2).zeroExtend 64
    let n := n.setCsr CsrId.mstatus (putField mstatus 11 0#2)
    let n ← updateMmuState { n with mode := mode }
    return (n.csr CsrId.mepc, n)
  else if op == 0x120#12 || op == 0x105#12 then
    -- sfence.vma and wfi
    return (0#64, n)
  else throw .fault

/-! ## `rtl_sys_slow_path` -/

/-- `rtl_trap`. -/
def rtlTrap (retPc no : Word) : Exec State := do
  let n := n.rtlLi .t0 retPc
  let (ret, n) ← n.raiseIntr no (n.get .t0)
  return rtlJr .t0 (n.set .t0 ret)

/-- A system instruction. The results of CSR instructions reach their register last. -/
def system : Exec State := do
  let id := n.s.src2.imm.setWidth 12
  let funct3 := n.s.funct3
  if funct3 == 0#3 then
    let n ←
      if id == 0#12 then do
        let n ← n.rtlTrap n.s.pc (8#64 + n.mode)
        pure (rtlMv .s0 .t0 n)
      else do
        let (ret, n) ← n.privInstr id
        pure (n.set .s0 ret)
    return if id != 0x120#12 && id != 0x105#12 then rtlJr .s0 n else n
  else
    let n ← n.csrrw (some .s0) none id
    let n := if funct3.getLsbD 2 then rtlLi .s1 (n.s.rs1.zeroExtend 64) n else rtlMv .s1 n.dsrc1 n
    let op := funct3.extractLsb' 0 2
    let n :=
      if op == 2#2 then rtlOr .s1 .s0 .s1 n
      else if op == 3#2 then rtlAnd .s1 .s0 .s1 (rtlNot .s1 .s1 n)
      else n
    let n ← n.csrrw none (some .s1) id
    return rtlMv n.ddest .s0 n

end State

end Oscpu.Nemu
