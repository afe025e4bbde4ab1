import Mathlib.Data.BitVec

/-!
# Widths and encodings of `config.sv`

Both cores include the same tables: the opcodes, the `func3` fields, the operand selection and the
operations of the ALU. `EXU_CSRRW` exists in `cpu_axi_diff` only.
-/

namespace Oscpu.Rtl

/-- `CPU_WIDTH` bits. -/
abbrev Word := BitVec 64

/-- `INS_WIDTH` bits. -/
abbrev Ins := BitVec 32

/-- `REG_ADDRW` bits. -/
abbrev RegId := BitVec 5

def PC_START : Word := 0x80000000#64

/-- Bytes of the RAM that the emulator gives to either core, by `config.h`. -/
def EMU_RAM_SIZE : Nat := 256 * 1024 * 1024

/-! ## opcode -> ins type -/

def TYPE_R : BitVec 7 := 0b0110011#7
def TYPE_R_W : BitVec 7 := 0b0111011#7
def TYPE_S : BitVec 7 := 0b0100011#7
def TYPE_B : BitVec 7 := 0b1100011#7
def TYPE_I : BitVec 7 := 0b0010011#7
def TYPE_I_W : BitVec 7 := 0b0011011#7
def TYPE_I_LOAD : BitVec 7 := 0b0000011#7
def TYPE_I_JALR : BitVec 7 := 0b1100111#7
/-- `TYPE_I_EBRK` in `cpu_diff`. -/
def TYPE_CSR : BitVec 7 := 0b1110011#7
def TYPE_U_LUI : BitVec 7 := 0b0110111#7
def TYPE_U_AUIPC : BitVec 7 := 0b0010111#7
def TYPE_J : BitVec 7 := 0b1101111#7

/-! ## function3 -/

def FUNC3_ADD_SUB_MUL : BitVec 3 := 0b000#3
def FUNC3_SLL_MULH : BitVec 3 := 0b001#3
def FUNC3_SLT_MULHSU : BitVec 3 := 0b010#3
def FUNC3_XOR_DIV : BitVec 3 := 0b100#3
def FUNC3_SRL_SRA_DIVU : BitVec 3 := 0b101#3
def FUNC3_OR_REM : BitVec 3 := 0b110#3
def FUNC3_AND_REMU : BitVec 3 := 0b111#3

def FUNC3_BEQ : BitVec 3 := 0b000#3
def FUNC3_BNE : BitVec 3 := 0b001#3
def FUNC3_BLT : BitVec 3 := 0b100#3
def FUNC3_BGE : BitVec 3 := 0b101#3
def FUNC3_BLTU : BitVec 3 := 0b110#3
def FUNC3_BGEU : BitVec 3 := 0b111#3

def FUNC3_LB_SB : BitVec 3 := 0b000#3
def FUNC3_LH_SH : BitVec 3 := 0b001#3
def FUNC3_LW_SW : BitVec 3 := 0b010#3
def FUNC3_LD_SD : BitVec 3 := 0b011#3
def FUNC3_LBU : BitVec 3 := 0b100#3
def FUNC3_LHU : BitVec 3 := 0b101#3
def FUNC3_LWU : BitVec 3 := 0b110#3

def FUNC3_CSRRW : BitVec 3 := 0b001#3
def FUNC3_CSRRS : BitVec 3 := 0b010#3
def FUNC3_CSRRC : BitVec 3 := 0b011#3
def FUNC3_CSRRWI : BitVec 3 := 0b101#3
def FUNC3_CSRRSI : BitVec 3 := 0b110#3
def FUNC3_CSRRCI : BitVec 3 := 0b111#3

/-! ## EXU source selection -/

def EXU_SEL_REG : BitVec 2 := 0b00#2
def EXU_SEL_IMM : BitVec 2 := 0b01#2
def EXU_SEL_PC4 : BitVec 2 := 0b10#2
def EXU_SEL_PCI : BitVec 2 := 0b11#2

/-! ## EXU operator -/

def EXU_ADD : BitVec 6 := 0x1#6
def EXU_SUB : BitVec 6 := 0x2#6
def EXU_ADDW : BitVec 6 := 0x3#6
def EXU_SUBW : BitVec 6 := 0x4#6
def EXU_AND : BitVec 6 := 0x5#6
def EXU_OR : BitVec 6 := 0x6#6
def EXU_XOR : BitVec 6 := 0x7#6
def EXU_SLL : BitVec 6 := 0x8#6
def EXU_SRL : BitVec 6 := 0x9#6
def EXU_SRA : BitVec 6 := 0x10#6
def EXU_SLLW : BitVec 6 := 0x11#6
def EXU_SRLW : BitVec 6 := 0x12#6
def EXU_SRAW : BitVec 6 := 0x13#6
def EXU_MUL : BitVec 6 := 0x14#6
def EXU_MULH : BitVec 6 := 0x15#6
def EXU_MULHSU : BitVec 6 := 0x16#6
def EXU_MULHU : BitVec 6 := 0x17#6
def EXU_DIV : BitVec 6 := 0x18#6
def EXU_DIVU : BitVec 6 := 0x19#6
def EXU_REM : BitVec 6 := 0x20#6
def EXU_REMU : BitVec 6 := 0x21#6
def EXU_MULW : BitVec 6 := 0x22#6
def EXU_DIVW : BitVec 6 := 0x23#6
def EXU_DIVUW : BitVec 6 := 0x24#6
def EXU_REMW : BitVec 6 := 0x25#6
def EXU_REMUW : BitVec 6 := 0x26#6
def EXU_SLT : BitVec 6 := 0x27#6
def EXU_SLTU : BitVec 6 := 0x28#6
def EXU_CSRRW : BitVec 6 := 0x29#6

end Oscpu.Rtl
