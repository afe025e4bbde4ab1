import Oscpu.Axi.Reset
import Oscpu.Emu.WriteTraffic

/-!
# The emulator of `cpu_axi_diff`: `single_cycle` of `emu.cpp`

The core and the memory of `ram.cpp` take turns: the memory looks at the handshakes of the coming
clock edge, the core takes the edge, and the memory answers what the core drives then. What the core
drives depends on its registers alone, so it is the same before the edge.
-/

namespace Oscpu.Emu

open Oscpu.Rtl Oscpu.Axi Oscpu.Lib

variable {δ : Type*}

/-- `axi_copy_from_dut_ptr`, with the address as the memory model sees it: relative to the RAM. -/
def masterOut (o : AxiOut) : MasterOut where
  awValid := o.awValid
  awAddr := o.awAddr - 0x80000000#64
  awId := o.awId.zeroExtend 8
  awLen := o.awLen
  awSize := o.awSize
  awBurst := 1#8
  wValid := o.wValid
  wData := o.wData
  wStrb := o.wStrb
  wLast := o.wLast
  bReady := o.bReady
  arValid := o.arValid
  arAddr := o.arAddr - 0x80000000#64
  arId := o.arId.zeroExtend 8
  arLen := o.arLen
  arSize := o.arSize
  arBurst := 1#8
  rReady := o.rReady

/-- `axi_set_dut_ptr`: the inputs of the core. -/
def axiIn (axi : AxiChannel) : AxiIn where
  arReady := axi.ar.ready
  rValid := axi.r.valid
  rData := axi.r.data
  rLast := axi.r.last
  rId := axi.r.id.setWidth 4
  rResp := axi.r.resp.setWidth 2
  awReady := axi.aw.ready
  wReady := axi.w.ready
  bValid := axi.b.valid
  bId := axi.b.id.setWidth 4
  bResp := axi.b.resp.setWidth 2

/-- What the master drives on the channels. -/
def AxiChannel.master (axi : AxiChannel) : MasterOut where
  awValid := axi.aw.valid
  awAddr := axi.aw.addr
  awId := axi.aw.id
  awLen := axi.aw.len
  awSize := axi.aw.size
  awBurst := axi.aw.burst
  wValid := axi.w.valid
  wData := axi.w.data
  wStrb := axi.w.strb
  wLast := axi.w.last
  bReady := axi.b.ready
  arValid := axi.ar.valid
  arAddr := axi.ar.addr
  arId := axi.ar.id
  arLen := axi.ar.len
  arSize := axi.ar.size
  arBurst := axi.ar.burst
  rReady := axi.r.ready

/-- The emulator of one core. -/
structure Emulator (δ : Type*) where
  core : Core
  bench : Bench δ

namespace Emulator

/-- The inputs of the core at the next clock edge. -/
def inputs (e : Emulator δ) : AxiIn := axiIn e.bench.axi

/-- The core after the next clock edge. -/
def nextCore (e : Emulator δ) : Core := e.core.step false e.inputs

/-- After reset, with the constructor's memory. -/
def start (core : Core) (ram : RamWords) (dram : δ) : Emulator δ where
  core := core
  bench := Bench.start ram dram (masterOut core.out)

/-- A program at the start of the RAM, behind a DRAM model with a fixed latency. -/
def boot (latency : Nat) (words : List Word) : Emulator (SimpleCoDRAMsim3 Dramsim3Meta) :=
  start (System.boot true (fun _ => 0#64) 0#4 0#4 fun _ => 0#64).core (fun k => words.getD k 0#64)
    (SimpleCoDRAMsim3.init latency)

variable [CoDRAMsim3 δ Dramsim3Meta] (e : Emulator δ)

/-- `single_cycle`. -/
def step (env : DramEnv) : Option (Emulator δ) :=
  (e.bench.cycle (env, masterOut e.nextCore.out)).map fun b => ⟨e.nextCore, b⟩

/-- The inputs of the core along a run. -/
def inputsAt (env : Nat → DramEnv) (k : Nat) : AxiIn :=
  match run (lift step) (some e) env k with
  | some e' => e'.inputs
  | none => axiIn (AxiChannel.start (masterOut e.core.out))

variable {e} {e' : Emulator δ} {env : Nat → DramEnv} {n : Nat}

theorem step_eq_some {v : DramEnv} (h : e.step v = some e') :
    e'.core = e.nextCore ∧
      e.bench.cycle (v, masterOut e'.core.out) = some e'.bench := by
  obtain ⟨b, hb, rfl⟩ := Option.map_eq_some_iff.1 h
  exact ⟨rfl, hb⟩

theorem inputsAt_eq (h : Reaches step e env n e') : e.inputsAt env n = e'.inputs := by
  have hrun : run (lift step) (some e) env n = some e' := h
  rw [inputsAt, hrun]

end Emulator

end Oscpu.Emu
