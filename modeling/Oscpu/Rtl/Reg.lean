import Oscpu.Rtl.Config

/-!
# Registers: `stl_reg` and `regfile`
-/

namespace Oscpu.Rtl

/-- `stl_reg` on one of its events, a rising clock edge or a falling edge of `i_rst_n`: the block
tests `i_rst_n` as an active-high reset on both. -/
def stlReg {α : Type*} (resetVal : α) (rst wen : Bool) (din dout : α) : α :=
  if rst then resetVal else if wen then din else dout

@[simp] theorem stlReg_hold {α : Type*} (r d q : α) : stlReg r false false d q = q := rfl

@[simp] theorem stlReg_load {α : Type*} (r d q : α) : stlReg r false true d q = d := rfl

/-- What holds of the reset value, the input and the old value holds after an event. -/
theorem stlReg_of {α : Type*} {p : α → Prop} {r d q : α} (hr : p r) (hd : p d) (hq : p q)
    (rst wen : Bool) : p (stlReg r rst wen d q) := by
  unfold stlReg
  split_ifs
  · exact hr
  · exact hd
  · exact hq

/-- The array `rf` of `regfile`. Entry 0 is driven to zero and the others have no reset. -/
abbrev Regs := RegId → Word

/-- A read port: `rf[i_raddr]`, with `rf[0]` assigned 0. -/
def Regs.read (rf : Regs) (a : RegId) : Word := if a = 0#5 then 0#64 else rf a

/-- The write port at a clock edge; there is no flip-flop for entry 0. -/
def Regs.write (rf : Regs) (wen : Bool) (waddr : RegId) (wdata : Word) : Regs :=
  fun a => if wen && waddr == a && !(a == 0#5) then wdata else rf a

/-- `o_regs`: the registers with the write of this cycle in place. -/
def Regs.oRegs (rf : Regs) (wen : Bool) (waddr : RegId) (wdata : Word) (j : RegId) : Word :=
  if wen && waddr == j && !(j == 0#5) then wdata else rf.read j

@[simp] theorem Regs.read_zero (rf : Regs) : rf.read 0#5 = 0#64 := by simp [Regs.read]

@[simp] theorem Regs.write_false (rf : Regs) (a : RegId) (v : Word) : rf.write false a v = rf := by
  funext b
  simp [Regs.write]

theorem Regs.read_write (rf : Regs) (wen : Bool) (w : RegId) (v : Word) (a : RegId) :
    (rf.write wen w v).read a = if wen && w == a && !(a == 0#5) then v else rf.read a := by
  unfold Regs.read Regs.write
  by_cases ha : a = 0#5
  · simp [ha]
  · simp [ha]

theorem Regs.write_congr (rf : Regs) {wen wen' : Bool} {k k' : RegId} {v v' : Word}
    (h : (if wen then some (k, v) else none) = if wen' then some (k', v') else none) :
    rf.write wen k v = rf.write wen' k' v' := by
  cases wen <;> cases wen' <;> simp_all

end Oscpu.Rtl
