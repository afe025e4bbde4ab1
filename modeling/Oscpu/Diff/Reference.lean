import Oscpu.Diff.Units
import Oscpu.Lib.Forward
import Oscpu.Lib.Run

/-!
# The reference machine of `cpu_diff`

One instruction at a time on a register file and a RAM, through the functions of the units: what
the pipeline is for. Nothing here knows about cycles.
-/

namespace Oscpu.Diff

open Oscpu.Rtl Oscpu.Lib

/-- The state between two instructions. -/
structure Arch where
  pc : Word
  regs : Regs
  ram : Ram

/-- A write of the RAM: the index, the mask and the data under the mask. -/
abbrev RamWrite := Word × Word × Word

namespace Arch

variable (a : Arch)

/-- The instruction at the pc. -/
def ins : Ins := ifu a.ram a.pc

def rs1 : Word := a.regs.read (oRs1id a.ins)

def rs2 : Word := a.regs.read (oRs2id a.ins)

def rdid : RegId := oRdid a.ins

def rdwen : Bool := oRdwen a.ins

def lden : Bool := oLsuLden a.ins

def sten : Bool := oLsuSten a.ins

/-- The result of the ALU, which is the address of a load or store. -/
def exres : Word := exu a.pc a.rs1 a.rs2 (oImm a.ins) (iduSrcSel a.ins) (iduExopt a.ins)

/-- What a load returns. -/
def lsres : Word := lsuRegld true (func3 a.ins) a.exres (a.ram (ramIdx a.exres)) 0#64

/-- The value for `rd`. -/
def rd : Word := wbu a.exres a.lsres a.lden

def wmask : Word := lsuWmask (func3 a.ins) a.exres

def wdata : Word := lsuWdata true (func3 a.ins) a.rs2 0#64

/-- One instruction. -/
def step : Arch where
  pc := if jump a.ins a.rs1 a.rs2 then jumpPc a.ins a.pc a.rs1 else a.pc + 4#64
  regs := a.regs.write a.rdwen a.rdid a.rd
  ram := Ram.write a.ram a.sten (ramIdx a.exres) a.wdata a.wmask

/-- The write of the register file by one instruction. -/
def rfWrite : Write RegId Word := if a.rdwen then some (a.rdid, a.rd) else none

/-- The RAM writes of one instruction. -/
def ramWrites : List RamWrite :=
  if a.sten then [(ramIdx a.exres, a.wmask, a.wdata &&& a.wmask)] else []

/-- The state before instruction `k` of the execution from `a`. -/
def exec (k : Nat) : Arch := step^[k] a

@[simp] theorem exec_zero : a.exec 0 = a := rfl

theorem exec_succ (k : Nat) : a.exec (k + 1) = (a.exec k).step := by
  simp only [exec, Function.iterate_succ_apply']

/-- The execution never changes a word before it executes it. -/
def CodeStable : Prop := ∀ i j, i ≤ j → ifu (a.exec i).ram (a.exec j).pc = (a.exec j).ins

/-- Instruction `k` is a load whose register is both the address and the data of the store that
follows it. -/
def LoadStoreSame (k : Nat) : Prop :=
  (a.exec k).lden = true ∧ (a.exec k).rdwen = true ∧ (a.exec (k + 1)).sten = true ∧
    oRs1id (a.exec (k + 1)).ins = (a.exec k).rdid ∧ oRs2id (a.exec (k + 1)).ins = (a.exec k).rdid

instance (k : Nat) : Decidable (a.LoadStoreSame k) := inferInstanceAs (Decidable (_ ∧ _))

theorem rdid_ne_zero {a : Arch} (h : a.rdwen = true) : a.rdid ≠ 0#5 := oRdwen_ne_zero h

/-- Reading the registers after an instruction is reading through its write. -/
theorem read_step : a.step.regs.read = commit a.regs.read a.rfWrite := by
  funext r
  simp only [step, Regs.read_write, rfWrite]
  cases hw : a.rdwen with
  | false => simp
  | true =>
    by_cases hr : r = 0#5
    · simp [hr, commit_some_apply, rdid_ne_zero hw]
    · simp [hr, commit_some_apply]

end Arch

end Oscpu.Diff
