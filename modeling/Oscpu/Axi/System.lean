import Oscpu.Axi.SimTop
import Oscpu.Lib.Run

/-!
# The core and an AXI slave

The slave serves one read burst and one write at a time from a memory of 64-bit words, echoes ids
and holds `RID` and `BID` until its next response. Its timing is free: every cycle's inputs to the
core are a parameter, and `Slave.Drives` says which ones the slave can produce in its state.
-/

namespace Oscpu.Axi

open Oscpu.Rtl Oscpu.Lib

/-- An accepted read burst that still owes beats. -/
structure ReadBurst where
  addr : Word
  id : BitVec 4
  len : BitVec 8
  /-- The number of beats delivered so far. -/
  done : BitVec 8

/-- An accepted write that still owes its data handshake or its response. -/
structure WriteTrans where
  addr : Word
  id : BitVec 4
  dataDone : Bool

/-- The 64-bit words of the memory, by address divided by eight. -/
abbrev Mem := Word → Word

def Mem.wordIdx (addr : Word) : Word := addr >>> 3

/-- The byte lanes that a strobe selects. -/
def strbMask (strb : BitVec 8) : Word :=
  let lane (k : Nat) : BitVec 8 := if strb.getLsbD k then 0xff#8 else 0#8
  lane 7 ++ lane 6 ++ lane 5 ++ lane 4 ++ lane 3 ++ lane 2 ++ lane 1 ++ lane 0

/-- A write beat: the strobed bytes of the addressed word. -/
def Mem.write (m : Mem) (addr data : Word) (strb : BitVec 8) : Mem :=
  fun k => if k = wordIdx addr then (m k &&& ~~~strbMask strb) ||| (data &&& strbMask strb) else m k

structure Slave where
  mem : Mem
  rd : Option ReadBurst
  wr : Option WriteTrans
  /-- The level of `RID` while `RVALID` is low. -/
  rid : BitVec 4
  /-- The level of `BID` while `BVALID` is low. -/
  bid : BitVec 4

namespace Slave

variable (sl : Slave)

/-- The beat that the burst owes next. -/
def beat (b : ReadBurst) : Word := sl.mem (Mem.wordIdx b.addr + b.done.zeroExtend 64)

/-- The inputs of the core that the slave can produce: a read response is the next beat of the
burst in progress, a write response answers a write whose data has arrived, and ids hold between
responses. When the ready and valid signals rise is not restricted. -/
structure Drives (i : AxiIn) : Prop where
  r : i.rValid = true → ∃ b, sl.rd = some b ∧ i.rData = sl.beat b ∧ i.rLast = (b.done == b.len) ∧
    i.rId = b.id
  rHold : i.rValid = false → i.rId = sl.rid
  b : i.bValid = true → ∃ w, sl.wr = some w ∧ w.dataDone = true ∧ i.bId = w.id
  bHold : i.bValid = false → i.bId = sl.bid

/-- The choices of a slave in one cycle: what is ready, and which response it gives if it owes one. -/
structure Timing where
  ar : Bool
  r : Bool
  aw : Bool
  w : Bool
  b : Bool

/-- The inputs that a slave with these choices produces. -/
def drive (c : Timing) : AxiIn where
  arReady := c.ar
  rValid := c.r && sl.rd.isSome
  rData := (sl.rd.map sl.beat).getD 0#64
  rLast := (sl.rd.map fun b => b.done == b.len).getD false
  rId := if c.r then (sl.rd.map ReadBurst.id).getD sl.rid else sl.rid
  rResp := 0#2
  awReady := c.aw
  wReady := c.w
  bValid := c.b && (sl.wr.map WriteTrans.dataDone).getD false
  bId :=
    if c.b && (sl.wr.map WriteTrans.dataDone).getD false then
      (sl.wr.map WriteTrans.id).getD sl.bid
    else sl.bid
  bResp := 0#2

theorem drives_drive (c : Timing) : sl.Drives (sl.drive c) := by
  refine ⟨?_, ?_, ?_, ?_⟩
  · intro hr
    cases hrd : sl.rd with
    | none => simp [drive, hrd] at hr
    | some b =>
      have hc : c.r = true := by simpa [drive, hrd] using hr
      exact ⟨b, rfl, by simp [drive, hrd], by simp [drive, hrd], by simp [drive, hrd, hc]⟩
  · intro hr
    cases hrd : sl.rd with
    | none => simp [drive, hrd]
    | some b =>
      have hc : c.r = false := by simpa [drive, hrd] using hr
      simp [drive, hc]
  · intro hb
    cases hwr : sl.wr with
    | none => simp [drive, hwr] at hb
    | some w =>
      have hc : c.b = true ∧ w.dataDone = true := by simpa [drive, hwr] using hb
      exact ⟨w, rfl, hc.2, by simp [drive, hwr, hc]⟩
  · intro hb
    have hc : (c.b && (sl.wr.map WriteTrans.dataDone).getD false) = false := hb
    simp [drive, hc]

/-- The slave after a clock edge at which the core drives `o`. -/
def step (o : AxiOut) (i : AxiIn) : Slave where
  mem :=
    match sl.wr with
    | some w =>
      if i.wReady && o.wValid && !w.dataDone then sl.mem.write w.addr o.wData o.wStrb else sl.mem
    | none => sl.mem
  rd :=
    if i.arReady && o.arValid then some ⟨o.arAddr, o.arId, o.arLen, 0#8⟩
    else if i.rValid && o.rReady then
      if i.rLast then none else sl.rd.map fun b => { b with done := b.done + 1#8 }
    else sl.rd
  wr :=
    if i.awReady && o.awValid then some ⟨o.awAddr, o.awId, false⟩
    else if i.bValid && o.bReady then none
    else if i.wReady && o.wValid then sl.wr.map fun w => { w with dataDone := true }
    else sl.wr
  rid := i.rId
  bid := i.bId

end Slave

/-- The core in its environment. -/
structure System where
  core : Core
  slave : Slave

namespace System

/-- One clock edge after the release of reset. -/
def step (y : System) (i : AxiIn) : System where
  core := y.core.step false i
  slave := y.slave.step y.core.out i

/-- The inputs that the slave of `y` can produce. -/
def Ok (y : System) (i : AxiIn) : Prop := y.slave.Drives i

/-- The system after `n` cycles of a slave that makes the choices `c`. -/
def driven (y : System) (c : Nat → Slave.Timing) : Nat → System
  | 0 => y
  | n + 1 => (driven y c n).step ((driven y c n).slave.drive (c n))

/-- The input stream of `driven`. -/
def inputs (y : System) (c : Nat → Slave.Timing) (n : Nat) : AxiIn :=
  (driven y c n).slave.drive (c n)

theorem run_inputs (y : System) (c : Nat → Slave.Timing) (n : Nat) :
    run step y (inputs y c) n = driven y c n := by
  induction n with
  | zero => rfl
  | succ n ih => rw [run_succ, ih]; rfl

theorem admits_inputs (y : System) (c : Nat → Slave.Timing) (n : Nat) :
    Admits step Ok y (inputs y c) n := by
  intro k _
  rw [run_inputs]
  exact Slave.drives_drive _ _

end System

end Oscpu.Axi
