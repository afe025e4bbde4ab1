import Mathlib.Data.Fintype.Pi
import Oscpu.Rtl.Config

/-!
# Differential testing: `difftest.cpp`

The simulated core reports what it commits through the functions of `interface.cpp`; once a cycle
`Difftest::step` lets the reference do the same and compares the registers. This is the class for
one core: what it does for several cores is left out, and so is what it prints.
-/

namespace Oscpu.Harness

open Oscpu.Rtl

/-- The address of the first instruction that is checked. -/
def FIRST_INST_ADDRESS : Word := 0x80000000#64

abbrev DIFFTEST_COMMIT_WIDTH : Nat := 6

abbrev DIFFTEST_STORE_WIDTH : Nat := 2

abbrev DIFFTEST_NR_REG : Nat := 83

instance : NeZero DIFFTEST_COMMIT_WIDTH := ⟨by decide⟩

/-- `regs` and `csr` of `difftest_core_state_t`: 32 registers, 32 of the floating point unit,
`this_pc` and 18 CSRs. -/
abbrev DiffRegs := Fin DIFFTEST_NR_REG → Word

/-- The place of `this_pc`. -/
def THIS_PC : Fin DIFFTEST_NR_REG := 64

/-! ## The reports -/

structure TrapEvent where
  valid : Bool
  code : BitVec 8
  pc : Word
  cycleCnt : Word
  instrCnt : Word

structure ArchEvent where
  interrupt : BitVec 32
  exception : BitVec 32
  exceptionPC : Word
  exceptionInst : Ins

structure InstrCommit where
  valid : Bool
  pc : Word
  inst : Ins
  skip : Bool
  isRVC : Bool
  scFailed : Bool
  wen : Bool
  wdest : BitVec 8
  wdata : Word

structure StoreEvent where
  valid : Bool
  addr : Word
  data : Word
  mask : BitVec 8

/-- The arguments of `v_difftest_CSRState`, in the order of `arch_csr_state_t`. -/
structure CSRState where
  mstatus : Word
  mcause : Word
  mepc : Word
  sstatus : Word
  scause : Word
  sepc : Word
  satp : Word
  mip : Word
  mie : Word
  mscratch : Word
  sscratch : Word
  mideleg : Word
  medeleg : Word
  mtval : Word
  stval : Word
  mtvec : Word
  stvec : Word
  priviledgeMode : BitVec 8

def CSRState.words (c : CSRState) : List Word :=
  [c.mstatus, c.mcause, c.mepc, c.sstatus, c.scause, c.sepc, c.satp, c.mip, c.mie, c.mscratch,
    c.sscratch, c.mideleg, c.medeleg, c.mtval, c.stval, c.mtvec, c.stvec,
    c.priviledgeMode.zeroExtend 64]

/-- `difftest_core_state_t`. -/
structure CoreState where
  trap : TrapEvent
  event : ArchEvent
  commit : Fin DIFFTEST_COMMIT_WIDTH → InstrCommit
  regs : DiffRegs
  store : Fin DIFFTEST_STORE_WIDTH → StoreEvent

/-! ## What the core calls: `interface.cpp` -/

inductive Call where
  | trapEvent (t : TrapEvent)
  | archEvent (e : ArchEvent)
  | instrCommit (index : Fin DIFFTEST_COMMIT_WIDTH) (c : InstrCommit)
  | csrState (c : CSRState)
  | archIntRegState (gpr : RegId → Word)
  | archFpRegState (fpr : RegId → Word)
  | storeEvent (index : Fin DIFFTEST_STORE_WIDTH) (s : StoreEvent)

/-- A packet of a commit that is not valid keeps its contents. -/
def InstrCommit.onto (c old : InstrCommit) : InstrCommit :=
  if c.valid then c else { old with valid := false }

def StoreEvent.onto (e old : StoreEvent) : StoreEvent :=
  if e.valid then e else { old with valid := false }

def DiffRegs.withGpr (regs : DiffRegs) (gpr : RegId → Word) : DiffRegs :=
  fun k => if k < 32 then gpr (BitVec.ofNat 5 k) else regs k

def DiffRegs.withFpr (regs : DiffRegs) (fpr : RegId → Word) : DiffRegs :=
  fun k => if 32 ≤ k ∧ k < 64 then fpr (BitVec.ofNat 5 k) else regs k

/-- `this_pc` is left alone. -/
def DiffRegs.withCSR (regs : DiffRegs) (c : CSRState) : DiffRegs :=
  fun k => if k ≤ THIS_PC then regs k else c.words.getD (k - 65) 0#64

def CoreState.receive (s : CoreState) : Call → CoreState
  | .trapEvent t => { s with trap := t }
  | .archEvent e => { s with event := e }
  | .instrCommit i c => { s with commit := Function.update s.commit i (c.onto (s.commit i)) }
  | .csrState c => { s with regs := s.regs.withCSR c }
  | .archIntRegState g => { s with regs := s.regs.withGpr g }
  | .archFpRegState f => { s with regs := s.regs.withFpr f }
  | .storeEvent i e => { s with store := Function.update s.store i (e.onto (s.store i)) }

/-! ## The modules that call them: `difftest.v` -/

/-- The call is made in the cycles with a commit only. -/
def difftestInstrCommit (index : Fin DIFFTEST_COMMIT_WIDTH) (c : InstrCommit) : List Call :=
  if c.valid then [.instrCommit index c] else []

/-- The port for the code has three bits. -/
def difftestTrapEvent (valid : Bool) (code : BitVec 3) (pc cycleCnt instrCnt : Word) : List Call :=
  [.trapEvent ⟨valid, code.zeroExtend 8, pc, cycleCnt, instrCnt⟩]

def difftestArchEvent (e : ArchEvent) : List Call := [.archEvent e]

/-- The port for the mode has two bits. -/
def difftestCSRState (c : CSRState) : List Call :=
  [.csrState { c with priviledgeMode := (c.priviledgeMode.setWidth 2).zeroExtend 8 }]

def difftestArchIntRegState (gpr : RegId → Word) : List Call := [.archIntRegState gpr]

def difftestArchFpRegState (fpr : RegId → Word) : List Call := [.archFpRegState fpr]

/-! ## The reference: `nemuproxy.h` -/

structure SyncState where
  lrscValid : Word
  lrscAddr : Word

structure ExecutionGuide where
  exceptionNo : Word
  mtval : Word
  stval : Word

/-- What difftest calls of the reference. Nothing is known of it here. -/
class NemuProxy (ρ : Type*) where
  /-- `memcpy` to the reference. -/
  memcpy : Word → List (BitVec 8) → ρ → ρ
  /-- `regcpy` from the reference. -/
  getRegs : ρ → DiffRegs
  /-- `regcpy` to the reference. -/
  setRegs : DiffRegs → ρ → ρ
  uarchstatusCpy : SyncState → ρ → ρ
  /-- Whether the reference's next store differs from this one. -/
  storeCommit : Word → Word → BitVec 8 → ρ → Bool × ρ
  exec : ρ → ρ
  guidedExec : ExecutionGuide → ρ → ρ
  raiseIntr : Word → ρ → ρ

/-! ## The class `Difftest` -/

def firstCommitLimit : Nat := 5000

def stuckLimit : Nat := 5000

structure Difftest (ρ : Type*) where
  dut : CoreState
  /-- `ref.regs` and `ref.csr`. -/
  refRegs : DiffRegs
  proxy : ρ
  /-- The program, as the reference is given it. -/
  image : List (BitVec 8)
  numCommit : Nat
  hasCommit : Bool
  progress : Bool
  ticks : Nat
  lastCommit : Nat
  nemuThisPc : Word

namespace Difftest

variable {ρ : Type*} [NemuProxy ρ] (d : Difftest ρ)

def receive (c : Call) : Difftest ρ := { d with dut := d.dut.receive c }

/-- `difftest_state`: the code of a trap; -1 as long as there is none. -/
def state : Int := if d.dut.trap.valid then d.dut.trap.code.toNat else -1

def checkTimeout : Bool × Difftest ρ :=
  if !d.hasCommit && decide (d.lastCommit + firstCommitLimit < d.ticks) then (true, d)
  else if d.hasCommit && decide (d.lastCommit + stuckLimit < d.ticks) then
    -- one more instruction, for the messages
    (true, { d with proxy := NemuProxy.exec d.proxy })
  else (false, d)

def doFirstInstrCommit : Difftest ρ :=
  if !d.hasCommit && (d.dut.commit 0).valid && (d.dut.commit 0).pc == FIRST_INST_ADDRESS then
    { d with
      hasCommit := true
      nemuThisPc := d.dut.regs THIS_PC
      proxy := NemuProxy.setRegs d.dut.regs (NemuProxy.memcpy 0x80000000#64 d.image d.proxy) }
  else d

def doStoreCheck : List (Fin DIFFTEST_STORE_WIDTH) → Difftest ρ → Bool × Difftest ρ
  | [], d => (false, d)
  | i :: is, d =>
    let s := d.dut.store i
    if !s.valid then (false, d)
    else
      let (differs, proxy) := NemuProxy.storeCommit s.addr s.data s.mask d.proxy
      let d := { d with proxy := proxy }
      if differs then (true, d)
      else
        let store := Function.update d.dut.store i { s with valid := false }
        doStoreCheck is { d with dut := { d.dut with store := store } }

def doInterrupt : Difftest ρ :=
  let no := d.dut.event.interrupt.zeroExtend 64 ||| 1#64 <<< 63
  { d with proxy := NemuProxy.raiseIntr no d.proxy, progress := true }

def doException : Difftest ρ :=
  let no := d.dut.event.exception
  if no == 12#32 || no == 13#32 || no == 15#32 then
    let guide := ⟨no.zeroExtend 64, d.dut.regs 78, d.dut.regs 79⟩
    { d with proxy := NemuProxy.guidedExec guide d.proxy, progress := true }
  else { d with proxy := NemuProxy.exec d.proxy, progress := true }

/-- `ref_regs_ptr[i] = v`; a place beyond the registers is not looked at. -/
def putReg (regs : DiffRegs) (i : BitVec 8) (v : Word) : DiffRegs :=
  fun k => if k.val = i.toNat then v else regs k

/-- The registers behind an instruction that the reference is not to execute. -/
def skipped (c : InstrCommit) (regs : DiffRegs) : DiffRegs :=
  let next := Function.update regs THIS_PC (regs THIS_PC + if c.isRVC then 2#64 else 4#64)
  if c.wen && c.wdest != 0#8 then putReg next c.wdest c.wdata else next

def doInstrCommit (c : InstrCommit) : Difftest ρ :=
  let d := { d with progress := true, lastCommit := d.ticks }
  let d :=
    if c.scFailed then { d with proxy := NemuProxy.uarchstatusCpy ⟨0#64, 0#64⟩ d.proxy } else d
  if c.skip then
    let regs := skipped c (NemuProxy.getRegs d.proxy)
    { d with refRegs := regs, proxy := NemuProxy.setRegs regs d.proxy }
  else { d with proxy := NemuProxy.exec d.proxy }

/-- The loop over the commits of this cycle, up to the first that is not valid. -/
def commitLoop : List (Fin DIFFTEST_COMMIT_WIDTH) → Difftest ρ → Difftest ρ
  | [], d => d
  | i :: is, d =>
    let c := d.dut.commit i
    if c.valid then
      let d := d.doInstrCommit c
      let commit := Function.update d.dut.commit i { c with valid := false }
      commitLoop is { d with dut := { d.dut with commit := commit }, numCommit := d.numCommit + 1 }
    else d

def setThisPc (pc : Word) : Difftest ρ :=
  { d with dut := { d.dut with regs := Function.update d.dut.regs THIS_PC pc } }

/-- Interrupts come first, and the commits are not looked at then. -/
def advance : Difftest ρ :=
  if d.dut.event.interrupt ≠ 0#32 then (d.setThisPc d.dut.event.exceptionPC).doInterrupt
  else if d.dut.event.exception ≠ 0#32 then (d.setThisPc d.dut.event.exceptionPC).doException
  else commitLoop (List.finRange _) d

/-- The comparison: `this_pc` of the reference is where it was the last time. -/
def compare : Bool × Difftest ρ :=
  let regs := NemuProxy.getRegs d.proxy
  let d :=
    { d with
      refRegs := Function.update regs THIS_PC d.nemuThisPc
      nemuThisPc := regs THIS_PC }
  (decide (d.dut.regs ≠ d.refRegs), d)

/-- The first lines of `step`. -/
def opened : Difftest ρ :=
  { d with progress := false, ticks := d.ticks + 1 }.setThisPc (d.dut.commit 0).pc

/-- `Difftest::step`. The result is whether the run is to stop. -/
def step : Bool × Difftest ρ :=
  let (late, d) := d.opened.checkTimeout
  if late then (true, d) else
  let (differs, d) := d.doFirstInstrCommit.doStoreCheck (List.finRange _)
  if differs then (true, d) else
  if !d.hasCommit then (false, d) else
  let d := { d with numCommit := 0 }.advance
  if !d.progress then (false, d) else d.compare

/-- The calls of a cycle, and the check. -/
def tick (cs : List Call) : Option (Difftest ρ) :=
  let (stop, d) := (cs.foldl receive d).step
  if stop then none else some d

/-- Before the first cycle. -/
structure Fresh (d : Difftest ρ) : Prop where
  hasCommit : d.hasCommit = false
  ticks : d.ticks = 0
  lastCommit : d.lastCommit = 0
  instrCnt : d.dut.trap.instrCnt = 0#64
  commit : ∀ i, (d.dut.commit i).valid = false
  store : ∀ i, (d.dut.store i).valid = false

/-! ### When it does nothing -/

theorem doStoreCheck_of_quiet (is : List (Fin DIFFTEST_STORE_WIDTH))
    (h : ∀ i, (d.dut.store i).valid = false) : d.doStoreCheck is = (false, d) := by
  cases is with
  | nil => rfl
  | cons i is => simp [doStoreCheck, h i]

/-- A run is stopped for being stuck, before the first commit as after it. -/
theorem checkTimeout_fst :
    d.checkTimeout.1 = decide (d.lastCommit + stuckLimit < d.ticks) := by
  unfold checkTimeout firstCommitLimit stuckLimit
  cases d.hasCommit <;> simp <;> split <;> simp_all

theorem checkTimeout_of_not_late (h : d.checkTimeout.1 = false) : d.checkTimeout = (false, d) := by
  unfold checkTimeout at h ⊢
  split
  · simp_all
  · split <;> simp_all

theorem step_of_late (h : d.opened.checkTimeout.1 = true) :
    d.step = (true, d.opened.checkTimeout.2) := by
  unfold step
  split
  rename_i late e he
  rw [he] at h ⊢
  exact if_pos h

/-- A step of a core that reports no stores. -/
theorem step_of_quiet (h : d.opened.checkTimeout.1 = false)
    (hs : ∀ i, (d.dut.store i).valid = false) :
    d.step =
      let d := d.opened.doFirstInstrCommit
      if !d.hasCommit then (false, d)
      else
        let d := { d with numCommit := 0 }.advance
        if !d.progress then (false, d) else d.compare := by
  have hstore (i : Fin DIFFTEST_STORE_WIDTH) :
      (d.opened.doFirstInstrCommit.dut.store i).valid = false := by
    unfold doFirstInstrCommit
    split <;> exact hs i
  unfold step
  rw [checkTimeout_of_not_late _ h]
  simp only [Bool.false_eq_true, if_false, doStoreCheck_of_quiet _ _ hstore]

end Difftest

end Oscpu.Harness
