import Oscpu.Axi.System
import Oscpu.Rtl.Reset

/-!
# Reset of `cpu_axi_diff`

Four edges under reset bring every register with a reset to its reset value: two fill the
synchroniser, the third clears the core, the fourth clears `delay` of `bru`, whose next value is
decoded from the cleared IF/ID. `keep`, the register file and the latches keep what they hold.
-/

namespace Oscpu.Axi

open Oscpu.Rtl Oscpu.Lib

/-- The registers of `axi_rw` under reset. -/
def AxiRw.zero : AxiRw := ⟨.idle, .idle, 0#8, false, 0#2, 0#64⟩

/-- Every register with a reset holds its reset value. -/
structure Core.AfterReset (s : Core) : Prop where
  ifuPc : s.ifuPc = PC_START
  ifId : s.ifId = ⟨false, IfId.zero⟩
  idEx : s.idEx = ⟨false, IdEx.zero⟩
  exLs : s.exLs = ⟨false, ExLs.zero⟩
  lsWb : s.lsWb = ⟨false, LsWb.zero⟩
  bruPc : s.bru.pc = PC_START
  delay : s.bru.delay = false
  tarO : s.bru.tarO = PC_START
  csr : s.csr = ⟨s.csr.keep, 0x1808#64, 0#64, 0#64, 0#64, 0#64, 0#64, 0#64⟩
  clint : s.clint = ⟨0#64, 0#64⟩
  rw : s.rw = AxiRw.zero

theorem jump_zero (rs1 rs2 : Word) : jump 0#32 rs1 rs2 = false := by
  have hop : oBrch 0#32 = false ∧ oJal 0#32 = false ∧ oJalr 0#32 = false := by decide
  simp [jump, hop]

/-- **Reset.** Whatever the registers hold, four edges under reset leave the state after reset. -/
theorem Core.afterReset_of_reset (s : Core) (is : Nat → AxiIn) :
    (run (fun s i => Core.step s true i) s is 4).AfterReset := by
  simp only [run_succ, run_zero]
  generalize hs2 : Core.step (Core.step s true (is 0)) true (is 1) = s2
  have hr2 : s2.rstR2 = true := by rw [← hs2]; rfl
  generalize hs3 : Core.step s2 true (is 2) = s3
  have hr3 : s3.rstR2 = true := by rw [← hs3, ← hs2]; rfl
  have hid : s3.ifId.data = IfId.zero := by
    rw [← hs3]
    simp [Core.step, hr2, stlReg]
  have hjump : s3.jump (is 3) = false := by
    rw [Core.jump, hid]
    exact jump_zero _ _
  refine ⟨?_, ?_, ?_, ?_, ?_, ?_, ?_, ?_, ?_, ?_, ?_⟩ <;>
    simp [Core.step, hr3, Core.nextIfuPc, Stage.nextValid, stlReg, Core.bruStep, hjump, Csr.step,
      Clint.step, AxiRw.step, AxiRw.zero]

/-- The core after reset with a slave that has no transaction open. -/
structure System.AfterReset (y : System) : Prop where
  core : y.core.AfterReset
  rd : y.slave.rd = none
  wr : y.slave.wr = none

/-- A state that some compliant slave behaviour reaches after reset. -/
def System.Reachable (y : System) : Prop :=
  ∃ (y₀ : System) (is : Nat → AxiIn) (n : Nat), y₀.AfterReset ∧
    Admits System.step System.Ok y₀ is n ∧ run System.step y₀ is n = y

/-- A system after reset, with everything that reset leaves alone at zero but `keep`, the register
file, the levels of `RID` and `BID` and the memory. -/
def System.boot (keep : Bool) (rf : Regs) (rid bid : BitVec 4) (mem : Mem) : System where
  core :=
    { rstR1 := true
      rstR2 := true
      ifuPc := PC_START
      ifId := ⟨false, IfId.zero⟩
      idEx := ⟨false, IdEx.zero⟩
      exLs := ⟨false, ExLs.zero⟩
      lsWb := ⟨false, LsWb.zero⟩
      bru := ⟨PC_START, false, 0#64, PC_START⟩
      rf := rf
      csr := ⟨keep, 0x1808#64, 0#64, 0#64, 0#64, 0#64, 0#64, 0#64⟩
      clint := ⟨0#64, 0#64⟩
      serialValid := false
      csrrci := 0#64
      wdataQ := 0#64
      wmaskQ := 0#8
      rw := AxiRw.zero }
  slave := ⟨mem, none, none, rid, bid⟩

theorem System.afterReset_boot (keep : Bool) (rf : Regs) (rid bid : BitVec 4) (mem : Mem) :
    (boot keep rf rid bid mem).AfterReset :=
  ⟨⟨rfl, rfl, rfl, rfl, rfl, rfl, rfl, rfl, rfl, rfl, rfl⟩, rfl, rfl⟩

/-- The memory that holds these words from `PC_START` on, and zeros. -/
def Mem.image (ws : List Word) : Mem := fun k =>
  ws.getD (k - Mem.wordIdx PC_START).toNat 0#64

theorem System.reachable_driven {y : System} (h : y.AfterReset) (c : Nat → Slave.Timing) (n : Nat) :
    (driven y c n).Reachable :=
  ⟨y, inputs y c, n, h, admits_inputs y c n, run_inputs y c n⟩

end Oscpu.Axi
