import Mathlib.Data.BitVec

/-!
# The integer instructions of RV64IM

The instruction words, by the fields that fix them, and the value each writes to its register or
the condition under which it branches, as the instruction set defines them. `a` and `b` are the
contents of `rs1` and `rs2`.
-/

namespace Oscpu.Lib.Rv64

section

variable (ins : BitVec 32)

def immI : BitVec 64 := (ins.extractLsb' 20 12).signExtend 64

def immS : BitVec 64 := (ins.extractLsb' 25 7 ++ ins.extractLsb' 7 5).signExtend 64

def immU : BitVec 64 := (ins.extractLsb' 12 20 ++ 0#12).signExtend 64

def immB : BitVec 64 :=
  (ins.extractLsb' 31 1 ++ ins.extractLsb' 7 1 ++ ins.extractLsb' 25 6 ++ ins.extractLsb' 8 4 ++
    0#1).signExtend 64

def immJ : BitVec 64 :=
  (ins.extractLsb' 31 1 ++ ins.extractLsb' 12 8 ++ ins.extractLsb' 20 1 ++ ins.extractLsb' 21 10 ++
    0#1).signExtend 64

/-- The shift amount of `slli`, `srli` and `srai`. -/
def shamt : Nat := (ins.extractLsb' 20 6).toNat

/-- The shift amount of the `W` forms. -/
def shamtW : Nat := (ins.extractLsb' 20 5).toNat

/-- The register `rs1`. -/
def rs1 : BitVec 5 := ins.extractLsb' 15 5

/-- The register `rs2`. -/
def rs2 : BitVec 5 := ins.extractLsb' 20 5

/-- The register `rd`. -/
def rd : BitVec 5 := ins.extractLsb' 7 5

end

/-! ## Encodings -/

/-- The function bits at the top of a word: `funct6` where a shift amount of 6 bits follows. -/
inductive Funct where
  | none
  | six (f : BitVec 6)
  | seven (f : BitVec 7)

/-- The fields that make a word one instruction. -/
structure Format where
  opcode : BitVec 7
  funct3 : Option (BitVec 3)
  funct : Funct

def Funct.Matches (ins : BitVec 32) : Funct → Prop
  | .none => True
  | .six f => ins.extractLsb' 26 6 = f
  | .seven f => ins.extractLsb' 25 7 = f

def Format.Matches (f : Format) (ins : BitVec 32) : Prop :=
  ins.extractLsb' 0 7 = f.opcode ∧ (∀ x ∈ f.funct3, ins.extractLsb' 12 3 = x) ∧ f.funct.Matches ins

@[simp] theorem Funct.matches_none (ins : BitVec 32) : Funct.none.Matches ins := trivial

instance (ins : BitVec 32) (f : Funct) : Decidable (f.Matches ins) :=
  match f with
  | .none => inferInstanceAs (Decidable True)
  | .six f => inferInstanceAs (Decidable (ins.extractLsb' 26 6 = f))
  | .seven f => inferInstanceAs (Decidable (ins.extractLsb' 25 7 = f))

instance (f : Format) (ins : BitVec 32) : Decidable (f.Matches ins) :=
  inferInstanceAs (Decidable (_ ∧ _ ∧ _))

/-- `OP` and `OP-32`, whose `funct7` tells the instructions of one `funct3` apart. -/
@[simp] def op (f3 : BitVec 3) (f7 : BitVec 7) : Format := ⟨0b0110011#7, some f3, .seven f7⟩
@[simp] def op32 (f3 : BitVec 3) (f7 : BitVec 7) : Format := ⟨0b0111011#7, some f3, .seven f7⟩

/-- `OP-IMM`, with an immediate of 12 bits or a shift amount of 6. -/
@[simp] def opImm (f3 : BitVec 3) : Format := ⟨0b0010011#7, some f3, .none⟩
@[simp] def opShift (f3 : BitVec 3) (f6 : BitVec 6) : Format := ⟨0b0010011#7, some f3, .six f6⟩

/-- `OP-IMM-32`, with an immediate of 12 bits or a shift amount of 5. -/
@[simp] def opImm32 (f3 : BitVec 3) : Format := ⟨0b0011011#7, some f3, .none⟩
@[simp] def opShift32 (f3 : BitVec 3) (f7 : BitVec 7) : Format := ⟨0b0011011#7, some f3, .seven f7⟩

@[simp] def branchFormat (f3 : BitVec 3) : Format := ⟨0b1100011#7, some f3, .none⟩

@[simp] def jalFormat : Format := ⟨0b1101111#7, none, .none⟩

@[simp] def jalrFormat : Format := ⟨0b1100111#7, some 0b000#3, .none⟩

/-! ## Computation without comparison, multiplication or division -/

inductive IntOp where
  | add | sub | sll | srl | sra | xor | or | and
  | addi | slli | srli | srai | xori | ori | andi
  | addw | subw | sllw | srlw | sraw
  | addiw | slliw | srliw | sraiw
  | lui | auipc | jal | jalr
  deriving DecidableEq, Repr

/-- A result of 32 bits, sign-extended. -/
def sextW (x : BitVec 32) : BitVec 64 := x.signExtend 64

namespace IntOp

@[simp] def format : IntOp → Format
  | add => op 0b000#3 0b0000000#7
  | sub => op 0b000#3 0b0100000#7
  | sll => op 0b001#3 0b0000000#7
  | srl => op 0b101#3 0b0000000#7
  | sra => op 0b101#3 0b0100000#7
  | xor => op 0b100#3 0b0000000#7
  | or => op 0b110#3 0b0000000#7
  | and => op 0b111#3 0b0000000#7
  | addi => opImm 0b000#3
  | slli => opShift 0b001#3 0b000000#6
  | srli => opShift 0b101#3 0b000000#6
  | srai => opShift 0b101#3 0b010000#6
  | xori => opImm 0b100#3
  | ori => opImm 0b110#3
  | andi => opImm 0b111#3
  | addw => op32 0b000#3 0b0000000#7
  | subw => op32 0b000#3 0b0100000#7
  | sllw => op32 0b001#3 0b0000000#7
  | srlw => op32 0b101#3 0b0000000#7
  | sraw => op32 0b101#3 0b0100000#7
  | addiw => opImm32 0b000#3
  | slliw => opShift32 0b001#3 0b0000000#7
  | srliw => opShift32 0b101#3 0b0000000#7
  | sraiw => opShift32 0b101#3 0b0100000#7
  | lui => ⟨0b0110111#7, none, .none⟩
  | auipc => ⟨0b0010111#7, none, .none⟩
  | jal => jalFormat
  | jalr => jalrFormat

def value (ins : BitVec 32) (pc a b : BitVec 64) : IntOp → BitVec 64
  | add => a + b
  | sub => a - b
  | sll => a <<< (b.toNat % 64)
  | srl => a >>> (b.toNat % 64)
  | sra => a.sshiftRight (b.toNat % 64)
  | xor => a ^^^ b
  | or => a ||| b
  | and => a &&& b
  | addi => a + immI ins
  | slli => a <<< shamt ins
  | srli => a >>> shamt ins
  | srai => a.sshiftRight (shamt ins)
  | xori => a ^^^ immI ins
  | ori => a ||| immI ins
  | andi => a &&& immI ins
  | addw => sextW (a.setWidth 32 + b.setWidth 32)
  | subw => sextW (a.setWidth 32 - b.setWidth 32)
  | sllw => sextW (a.setWidth 32 <<< (b.toNat % 32))
  | srlw => sextW (a.setWidth 32 >>> (b.toNat % 32))
  | sraw => sextW ((a.setWidth 32).sshiftRight (b.toNat % 32))
  | addiw => sextW (a.setWidth 32 + (immI ins).setWidth 32)
  | slliw => sextW (a.setWidth 32 <<< shamtW ins)
  | srliw => sextW (a.setWidth 32 >>> shamtW ins)
  | sraiw => sextW ((a.setWidth 32).sshiftRight (shamtW ins))
  | lui => immU ins
  | auipc => pc + immU ins
  | jal | jalr => pc + 4#64

end IntOp

/-! ## Comparison -/

/-- The orders that instructions compare by. -/
inductive Order where
  | signed | unsigned
  deriving DecidableEq, Repr

def Order.Less (a b : BitVec 64) : Order → Prop
  | signed => a.toInt < b.toInt
  | unsigned => a.toNat < b.toNat

instance (o : Order) (a b : BitVec 64) : Decidable (o.Less a b) :=
  match o with
  | .signed => inferInstanceAs (Decidable (a.toInt < b.toInt))
  | .unsigned => inferInstanceAs (Decidable (a.toNat < b.toNat))

/-- The instructions that write the outcome of a comparison. -/
inductive SetOp where
  | slt | sltu | slti | sltiu
  deriving DecidableEq, Repr

namespace SetOp

@[simp] def format : SetOp → Format
  | slt => op 0b010#3 0b0000000#7
  | sltu => op 0b011#3 0b0000000#7
  | slti => opImm 0b010#3
  | sltiu => opImm 0b011#3

def order : SetOp → Order
  | slt | slti => .signed
  | sltu | sltiu => .unsigned

/-- The second operand. -/
def operand (ins : BitVec 32) (b : BitVec 64) : SetOp → BitVec 64
  | slt | sltu => b
  | slti | sltiu => immI ins

def value (ins : BitVec 32) (a b : BitVec 64) (o : SetOp) : BitVec 64 :=
  if o.order.Less a (o.operand ins b) then 1#64 else 0#64

end SetOp

inductive BranchOp where
  | beq | bne | blt | bge | bltu | bgeu
  deriving DecidableEq, Repr

namespace BranchOp

@[simp] def format : BranchOp → Format
  | beq => branchFormat 0b000#3
  | bne => branchFormat 0b001#3
  | blt => branchFormat 0b100#3
  | bge => branchFormat 0b101#3
  | bltu => branchFormat 0b110#3
  | bgeu => branchFormat 0b111#3

/-- The condition of the branch. -/
def Holds (a b : BitVec 64) : BranchOp → Prop
  | beq => a = b
  | bne => a ≠ b
  | blt => a.toInt < b.toInt
  | bge => b.toInt ≤ a.toInt
  | bltu => a.toNat < b.toNat
  | bgeu => b.toNat ≤ a.toNat

instance (a b : BitVec 64) (o : BranchOp) : Decidable (o.Holds a b) := by
  cases o <;> unfold Holds <;> infer_instance

/-- The branch compares signed values. -/
def signed : BranchOp → Bool
  | blt | bge => true
  | beq | bne | bltu | bgeu => false

end BranchOp

/-- The instructions that jump, a branch when it is taken. -/
inductive JumpOp where
  | jal | jalr
  | branch (o : BranchOp)
  deriving DecidableEq, Repr

namespace JumpOp

@[simp] def format : JumpOp → Format
  | jal => jalFormat
  | jalr => jalrFormat
  | branch o => o.format

/-- The target, for `jalr` with bit 0 cleared. -/
def target (ins : BitVec 32) (pc a : BitVec 64) : JumpOp → BitVec 64
  | jal => pc + immJ ins
  | jalr => (a + immI ins) &&& ~~~1#64
  | branch _ => pc + immB ins

end JumpOp

/-! ## Multiplication -/

inductive MulOp where
  | mul | mulh | mulhsu | mulhu
  deriving DecidableEq, Repr

namespace MulOp

@[simp] def format : MulOp → Format
  | mul => op 0b000#3 0b0000001#7
  | mulh => op 0b001#3 0b0000001#7
  | mulhsu => op 0b010#3 0b0000001#7
  | mulhu => op 0b011#3 0b0000001#7

/-- The product that `mulh`, `mulhsu` and `mulhu` return the upper half of. -/
def product (a b : BitVec 64) : MulOp → Int
  | mul | mulh => a.toInt * b.toInt
  | mulhsu => a.toInt * b.toNat
  | mulhu => a.toNat * b.toNat

/-- The half of the 128-bit product that the instruction returns. -/
def value (a b : BitVec 64) (o : MulOp) : BitVec 64 :=
  (BitVec.ofInt 128 (o.product a b)).extractLsb' (if o = mul then 0 else 64) 64

end MulOp

/-! ## Division -/

/-- The quotient of the signed readings, rounded toward zero; the division of the least number by
`-1` wraps around to it. -/
def quotS {w : Nat} (x y : BitVec w) : BitVec w :=
  if y = 0#w then BitVec.allOnes w else BitVec.ofInt w (x.toInt.tdiv y.toInt)

/-- The remainder with the sign of the dividend. -/
def remS {w : Nat} (x y : BitVec w) : BitVec w :=
  if y = 0#w then x else BitVec.ofInt w (x.toInt.tmod y.toInt)

def quotU {w : Nat} (x y : BitVec w) : BitVec w :=
  if y = 0#w then BitVec.allOnes w else BitVec.ofNat w (x.toNat / y.toNat)

def remU {w : Nat} (x y : BitVec w) : BitVec w :=
  if y = 0#w then x else BitVec.ofNat w (x.toNat % y.toNat)

inductive DivOp where
  | div | divu | rem | remu | divw | divuw | remw | remuw
  deriving DecidableEq, Repr

namespace DivOp

@[simp] def format : DivOp → Format
  | div => op 0b100#3 0b0000001#7
  | divu => op 0b101#3 0b0000001#7
  | rem => op 0b110#3 0b0000001#7
  | remu => op 0b111#3 0b0000001#7
  | divw => op32 0b100#3 0b0000001#7
  | divuw => op32 0b101#3 0b0000001#7
  | remw => op32 0b110#3 0b0000001#7
  | remuw => op32 0b111#3 0b0000001#7

def value (a b : BitVec 64) : DivOp → BitVec 64
  | div => quotS a b
  | divu => quotU a b
  | rem => remS a b
  | remu => remU a b
  | divw => sextW (quotS (a.setWidth 32) (b.setWidth 32))
  | divuw => sextW (quotU (a.setWidth 32) (b.setWidth 32))
  | remw => sextW (remS (a.setWidth 32) (b.setWidth 32))
  | remuw => sextW (remU (a.setWidth 32) (b.setWidth 32))

end DivOp

end Oscpu.Lib.Rv64
