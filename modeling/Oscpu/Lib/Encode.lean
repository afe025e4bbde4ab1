import Oscpu.Lib.Rv64
import Oscpu.Lib.Signed

/-!
# Encoding of the instruction formats

The six formats, the operands that an instruction of each can carry, and the word that holds them.
An immediate is an integer; the operands of a format carry the proof that it has one of the values
that the format can represent.
-/

namespace Oscpu.Lib

/-! ## Slices of an integer -/

theorem setWidth_ofInt {n m : Nat} (h : m ≤ n) (x : Int) :
    (BitVec.ofInt n x).setWidth m = BitVec.ofInt m x := by
  have hn : ((2 ^ n : Nat) : Int) ∣ ((BitVec.ofInt n x).toNat : Int) - x := by
    rw [← ofInt_eq_ofInt_iff, BitVec.ofInt_natCast, BitVec.ofNat_toNat, BitVec.setWidth_eq]
  have hm : ((2 ^ m : Nat) : Int) ∣ ((2 ^ n : Nat) : Int) :=
    Int.natCast_dvd_natCast.2 (Nat.pow_dvd_pow 2 h)
  have heq := ofInt_eq_ofInt_iff.2 (hm.trans hn)
  rw [← heq, BitVec.ofInt_natCast, BitVec.ofNat_toNat]

theorem extract_low_ofInt {n k : Nat} {x : Int} (hx : ((2 ^ k : Nat) : Int) ∣ x) (hk : k ≤ n) :
    (BitVec.ofInt n x).extractLsb' 0 k = 0#k := by
  have hzero : BitVec.ofInt k x = BitVec.ofInt k 0 := ofInt_eq_ofInt_iff.2 (by simpa using hx)
  rw [← BitVec.setWidth_eq_extractLsb' hk, setWidth_ofInt hk, hzero]
  simp

/-- A multiple of `2 ^ k` is the sign extension of its bits from `k` up, as far as its sign. -/
theorem signExtend_extract_append {k n m : Nat} {x : Int} (hx : ((2 ^ k : Nat) : Int) ∣ x)
    (hlo : -(2 ^ (k + n)) ≤ x) (hhi : x < 2 ^ (k + n)) (hm : k + n < m) :
    ((BitVec.ofInt m x).extractLsb' k (n + 1) ++ 0#k).signExtend m = BitVec.ofInt m x := by
  have happ : (BitVec.ofInt m x).extractLsb' k (n + 1) ++ 0#k = BitVec.ofInt (n + 1 + k) x := by
    rw [← extract_low_ofInt hx (by omega : k ≤ m),
      BitVec.extractLsb'_append_extractLsb'_eq_extractLsb' (by omega),
      ← BitVec.setWidth_eq_extractLsb' (by omega), setWidth_ofInt (by omega)]
  have hle : (2 : Int) ^ (k + n) ≤ 2 ^ (m - 1) := by
    exact_mod_cast Nat.pow_le_pow_right (by omega) (by omega)
  have hw : n + 1 + k - 1 = k + n := by omega
  rw [happ]
  apply BitVec.eq_of_toInt_eq
  rw [BitVec.toInt_signExtend_of_le (by omega),
    BitVec.toInt_ofInt_eq_self (by omega) (by rw [hw]; omega) (by rw [hw]; omega),
    BitVec.toInt_ofInt_eq_self (by omega) (by omega) (by omega)]

namespace Rv64

/-! ## The formats -/

inductive Layout where
  | r | i | s | b | u | j
  deriving DecidableEq, Repr

namespace Layout

def hasRd : Layout → Bool
  | r | i | u | j => true
  | s | b => false

def hasRs1 : Layout → Bool
  | r | i | s | b => true
  | u | j => false

def hasRs2 : Layout → Bool
  | r | s | b => true
  | i | u | j => false

/-- The immediates of a format; an `R` instruction has none. -/
def Representable (x : Int) : Layout → Prop
  | r => x = 0
  | i | s => -2 ^ 11 ≤ x ∧ x < 2 ^ 11
  | b => -2 ^ 12 ≤ x ∧ x < 2 ^ 12 ∧ 2 ∣ x
  | u => -2 ^ 31 ≤ x ∧ x < 2 ^ 31 ∧ 2 ^ 12 ∣ x
  | j => -2 ^ 20 ≤ x ∧ x < 2 ^ 20 ∧ 2 ∣ x

end Layout

/-- The word with `x` from bit `lo` up and zeros around it. -/
def field (lo : Nat) {w : Nat} (x : BitVec w) : BitVec 32 := x.setWidth 32 <<< lo

section

variable {lo start len w : Nat} {x : BitVec w}

@[simp] theorem extract_field_self (h : lo + w ≤ 32) : (field lo x).extractLsb' lo w = x := by
  apply BitVec.eq_of_getLsbD_eq
  intro i hi
  simp [field, hi, show lo + i < 32 by omega]

@[simp] theorem extract_field_of_le (h : start + len ≤ lo) :
    (field lo x).extractLsb' start len = BitVec.ofNat len 0 := by
  apply BitVec.eq_of_getLsbD_eq
  intro i hi
  simp [field, show start + i < lo by omega]

@[simp] theorem extract_field_of_ge (h : lo + w ≤ start) :
    (field lo x).extractLsb' start len = BitVec.ofNat len 0 := by
  apply BitVec.eq_of_getLsbD_eq
  intro i hi
  have hout : x.getLsbD (start + i - lo) = false := BitVec.getLsbD_of_ge _ _ (by omega)
  simp [field, hout]

end

/-- The operands of an instruction. Those that its format lacks do not reach the word. -/
structure Operands (l : Layout) where
  rd : BitVec 5
  rs1 : BitVec 5
  rs2 : BitVec 5
  funct3 : BitVec 3
  funct7 : BitVec 7
  imm : Int
  representable : l.Representable imm

namespace Operands

/-- The immediate as 64 bits. -/
def bits {l : Layout} (f : Operands l) : BitVec 64 := BitVec.ofInt 64 f.imm

def encode {l : Layout} (opcode : BitVec 7) (f : Operands l) : BitVec 32 :=
  match l with
  | .r =>
    field 25 f.funct7 ||| field 20 f.rs2 ||| field 15 f.rs1 ||| field 12 f.funct3 |||
      field 7 f.rd ||| field 0 opcode
  | .i =>
    field 20 (f.bits.extractLsb' 0 12) ||| field 15 f.rs1 ||| field 12 f.funct3 |||
      field 7 f.rd ||| field 0 opcode
  | .s =>
    field 25 (f.bits.extractLsb' 5 7) ||| field 20 f.rs2 ||| field 15 f.rs1 |||
      field 12 f.funct3 ||| field 7 (f.bits.extractLsb' 0 5) ||| field 0 opcode
  | .b =>
    field 31 (f.bits.extractLsb' 12 1) ||| field 25 (f.bits.extractLsb' 5 6) ||| field 20 f.rs2 |||
      field 15 f.rs1 ||| field 12 f.funct3 ||| field 8 (f.bits.extractLsb' 1 4) |||
      field 7 (f.bits.extractLsb' 11 1) ||| field 0 opcode
  | .u => field 12 (f.bits.extractLsb' 12 20) ||| field 7 f.rd ||| field 0 opcode
  | .j =>
    field 31 (f.bits.extractLsb' 20 1) ||| field 21 (f.bits.extractLsb' 1 10) |||
      field 20 (f.bits.extractLsb' 11 1) ||| field 12 (f.bits.extractLsb' 12 8) |||
      field 7 f.rd ||| field 0 opcode

/-! ## The fields of an encoded word -/

section

variable {l : Layout} (op : BitVec 7) (f : Operands l)

theorem opcode_encode : (f.encode op).extractLsb' 0 7 = op := by
  cases l <;> simp (disch := omega) [encode, BitVec.extractLsb'_or]

theorem rd_encode (h : l.hasRd) : Rv64.rd (f.encode op) = f.rd := by
  cases l with
  | r | i | u | j => simp (disch := omega) [Rv64.rd, encode, BitVec.extractLsb'_or]
  | s | b => simp [Layout.hasRd] at h

theorem rs1_encode (h : l.hasRs1) : Rv64.rs1 (f.encode op) = f.rs1 := by
  cases l with
  | r | i | s | b => simp (disch := omega) [Rv64.rs1, encode, BitVec.extractLsb'_or]
  | u | j => simp [Layout.hasRs1] at h

theorem rs2_encode (h : l.hasRs2) : Rv64.rs2 (f.encode op) = f.rs2 := by
  cases l with
  | r | s | b => simp (disch := omega) [Rv64.rs2, encode, BitVec.extractLsb'_or]
  | i | u | j => simp [Layout.hasRs2] at h

end

/-! ## The immediate of an encoded word

The slices that a format reads its immediate from, in their order, are its bits from the lowest
that can be set up to its sign. -/

section

variable (op : BitVec 7)

theorem immI_encode (f : Operands .i) : immI (f.encode op) = f.bits := by
  have hbits : (f.encode op).extractLsb' 20 12 = f.bits.extractLsb' 0 12 := by
    simp (disch := omega) [encode, BitVec.extractLsb'_or]
  obtain ⟨hlo, hhi⟩ := f.representable
  rw [immI, hbits]
  simpa [bits] using
    signExtend_extract_append (k := 0) (n := 11) (m := 64) (by simp) hlo hhi (by omega)

theorem immS_encode (f : Operands .s) : immS (f.encode op) = f.bits := by
  have hhigh : (f.encode op).extractLsb' 25 7 = f.bits.extractLsb' 5 7 := by
    simp (disch := omega) [encode, BitVec.extractLsb'_or]
  have hlow : (f.encode op).extractLsb' 7 5 = f.bits.extractLsb' 0 5 := by
    simp (disch := omega) [encode, BitVec.extractLsb'_or]
  have hbits : (f.encode op).extractLsb' 25 7 ++ (f.encode op).extractLsb' 7 5 =
      f.bits.extractLsb' 0 12 := by
    rw [hhigh, hlow, BitVec.extractLsb'_append_extractLsb'_eq_extractLsb']
    rfl
  obtain ⟨hlo, hhi⟩ := f.representable
  rw [immS, hbits]
  simpa [bits] using
    signExtend_extract_append (k := 0) (n := 11) (m := 64) (by simp) hlo hhi (by omega)

theorem immB_encode (f : Operands .b) : immB (f.encode op) = f.bits := by
  have h12 : (f.encode op).extractLsb' 31 1 = f.bits.extractLsb' 12 1 := by
    simp (disch := omega) [encode, BitVec.extractLsb'_or]
  have h11 : (f.encode op).extractLsb' 7 1 = f.bits.extractLsb' 11 1 := by
    simp (disch := omega) [encode, BitVec.extractLsb'_or]
  have h5 : (f.encode op).extractLsb' 25 6 = f.bits.extractLsb' 5 6 := by
    simp (disch := omega) [encode, BitVec.extractLsb'_or]
  have h1 : (f.encode op).extractLsb' 8 4 = f.bits.extractLsb' 1 4 := by
    simp (disch := omega) [encode, BitVec.extractLsb'_or]
  have hbits : (f.encode op).extractLsb' 31 1 ++ (f.encode op).extractLsb' 7 1 ++
      (f.encode op).extractLsb' 25 6 ++ (f.encode op).extractLsb' 8 4 =
      f.bits.extractLsb' 1 12 := by
    rw [h12, h11, h5, h1, BitVec.extractLsb'_append_extractLsb'_eq_extractLsb',
      BitVec.extractLsb'_append_extractLsb'_eq_extractLsb',
      BitVec.extractLsb'_append_extractLsb'_eq_extractLsb']
    all_goals rfl
  obtain ⟨hlo, hhi, heven⟩ := f.representable
  rw [immB, hbits]
  exact signExtend_extract_append (k := 1) (n := 11) (m := 64) heven hlo hhi (by omega)

theorem immU_encode (f : Operands .u) : immU (f.encode op) = f.bits := by
  have hbits : (f.encode op).extractLsb' 12 20 = f.bits.extractLsb' 12 20 := by
    simp (disch := omega) [encode, BitVec.extractLsb'_or]
  obtain ⟨hlo, hhi, hlow⟩ := f.representable
  rw [immU, hbits]
  exact signExtend_extract_append (k := 12) (n := 19) (m := 64) hlow hlo hhi (by omega)

theorem immJ_encode (f : Operands .j) : immJ (f.encode op) = f.bits := by
  have h20 : (f.encode op).extractLsb' 31 1 = f.bits.extractLsb' 20 1 := by
    simp (disch := omega) [encode, BitVec.extractLsb'_or]
  have h12 : (f.encode op).extractLsb' 12 8 = f.bits.extractLsb' 12 8 := by
    simp (disch := omega) [encode, BitVec.extractLsb'_or]
  have h11 : (f.encode op).extractLsb' 20 1 = f.bits.extractLsb' 11 1 := by
    simp (disch := omega) [encode, BitVec.extractLsb'_or]
  have h1 : (f.encode op).extractLsb' 21 10 = f.bits.extractLsb' 1 10 := by
    simp (disch := omega) [encode, BitVec.extractLsb'_or]
  have hbits : (f.encode op).extractLsb' 31 1 ++ (f.encode op).extractLsb' 12 8 ++
      (f.encode op).extractLsb' 20 1 ++ (f.encode op).extractLsb' 21 10 =
      f.bits.extractLsb' 1 20 := by
    rw [h20, h12, h11, h1, BitVec.extractLsb'_append_extractLsb'_eq_extractLsb',
      BitVec.extractLsb'_append_extractLsb'_eq_extractLsb',
      BitVec.extractLsb'_append_extractLsb'_eq_extractLsb']
    all_goals rfl
  obtain ⟨hlo, hhi, heven⟩ := f.representable
  rw [immJ, hbits]
  exact signExtend_extract_append (k := 1) (n := 19) (m := 64) heven hlo hhi (by omega)

end

end Operands

/-! ## The opcodes -/

/-- The opcodes of RV64IM without the fences. -/
inductive Major where
  | op | op32 | opImm | opImm32 | load | jalr | system | store | branch | lui | auipc | jal
  deriving DecidableEq, Repr

namespace Major

def code : Major → BitVec 7
  | op => 0b0110011#7
  | op32 => 0b0111011#7
  | opImm => 0b0010011#7
  | opImm32 => 0b0011011#7
  | load => 0b0000011#7
  | jalr => 0b1100111#7
  | system => 0b1110011#7
  | store => 0b0100011#7
  | branch => 0b1100011#7
  | lui => 0b0110111#7
  | auipc => 0b0010111#7
  | jal => 0b1101111#7

def layout : Major → Layout
  | op | op32 => .r
  | opImm | opImm32 | load | jalr | system => .i
  | store => .s
  | branch => .b
  | lui | auipc => .u
  | jal => .j

end Major

end Rv64

end Oscpu.Lib
