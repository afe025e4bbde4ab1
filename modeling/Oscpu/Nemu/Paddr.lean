import Oscpu.Nemu.Rtl

/-!
# The memory of NEMU: `paddr.c`, `host.h` and `vaddr.c`

A physical address has 32 bits: the upper half of a virtual one is cut off. What is outside of the
memory raises an exception, for the library has no devices. Every store leaves an entry in a queue,
which difftest compares with the stores of the core. The translation of addresses is left out.
-/

namespace Oscpu.Nemu

open Oscpu.Rtl Oscpu.Lib

abbrev Paddr := BitVec 32

def CONFIG_MBASE : Paddr := 0x80000000#32
def CONFIG_MSIZE : Paddr := 0x10000000#32

/-- Both are powers of two. -/
def inPmem (addr : Paddr) : Bool := addr &&& ~~~(CONFIG_MSIZE - 1#32) == CONFIG_MBASE

/-- The bytes are those of the memory: nothing is mapped behind it. -/
def mapped (addr : Paddr) (len : Nat) : Bool :=
  decide (addr.toNat + len ≤ CONFIG_MBASE.toNat + CONFIG_MSIZE.toNat)

/-- Illegal instruction. -/
def EX_II : Word := 2#64

namespace State

variable (n : State)

def pmemRead (addr : Paddr) (len : Nat) : Exec Word :=
  if mapped addr len then .ok (n.pmem.load 64 addr len) else .error .fault

/-- The entry of the queue is written first. -/
def pmemWrite (addr : Paddr) (len : Nat) (data : Word) : Exec State :=
  let q := n.storeQueue.push n.amo (addr.zeroExtend 64) data len
  if mapped addr len then .ok { n with storeQueue := q, pmem := n.pmem.store addr len data }
  else .error .fault

def paddrRead (addr : Paddr) (len : Nat) : Exec Word :=
  if inPmem addr then n.pmemRead addr len else .error (.exception EX_II n)

def paddrWrite (addr : Paddr) (len : Nat) (data : Word) : Exec State :=
  if inPmem addr then n.pmemWrite addr len data else .error (.exception EX_II n)

/-- `vm_enable` of `isa_mmu_check`, for a fetch. -/
def vmEnable : Bool :=
  decide (n.mode.toNat < MODE_M.toNat) && (n.csrArray 0x180#12).extractLsb' 60 4 == 8#4

def vaddrIfetch (addr : Word) (len : Nat) : Exec Word :=
  if n.vmEnable || n.ifetchMmuState then .error .unmodelled
  else n.paddrRead (addr.setWidth 32) len

/-- With `MMU_DIRECT`. -/
def vaddrRead (addr : Word) (len : Nat) : Exec Word := n.paddrRead (addr.setWidth 32) len

def vaddrWrite (addr : Word) (len : Nat) (data : Word) : Exec State :=
  n.paddrWrite (addr.setWidth 32) len data

/-! ## Loads and stores: `rtl-basic.h` -/

def rtlLm (dest addr : Reg) (offset : Word) (len : Nat) : Exec State := do
  let val ← n.vaddrRead (n.get addr + offset) len
  return n.set dest val

def rtlSm (src1 addr : Reg) (offset : Word) (len : Nat) : Exec State :=
  n.vaddrWrite (n.get addr + offset) len (n.get src1)

def rtlLms (dest addr : Reg) (offset : Word) (len : Nat) : Exec State := do
  let val ← n.vaddrRead (n.get addr + offset) len
  return n.set dest
    (if len = 4 then (val.setWidth 32).signExtend 64
    else if len = 1 then (val.setWidth 8).signExtend 64
    else if len = 2 then (val.setWidth 16).signExtend 64
    else val)

end State

end Oscpu.Nemu
