import Oscpu.Axi.Redirect

/-!
# Trap vectors

`mtvec_pc` is right in direct mode. In vectored mode it tests the interrupt bit of `mcause` the
wrong way round and shifts the sum of base and cause instead of the cause alone, and `mcause` is
what it was before the trap unless an `ecall` waits in write-back. So an exception goes to the base
if the last cause is an interrupt, and the timer interrupt to its vector by coincidence only.
-/

namespace Oscpu.Axi

open Oscpu.Rtl Oscpu.Lib

/-- `mtvec[1:0]`. -/
def Csr.mtvecMode (mtvec : Word) : BitVec 2 := mtvec.extractLsb' 0 2

/-- Where a trap goes: all to the base in mode 0, interrupts behind it by their cause in mode 1. The
timer interrupt has cause 7. -/
def trapVector (mtvec : Word) (timer : Bool) : Word :=
  if Csr.mtvecMode mtvec = 1#2 ∧ timer = true then Csr.alignPc mtvec + 4#64 * 7#64
  else Csr.alignPc mtvec

/-- The numbers that a shift by two takes to `t`. -/
theorem ushiftRight_two_eq_iff (x t : Word) :
    x >>> 2 = t ↔ t.toNat < 2 ^ 62 ∧ (x - 4#64 * t).toNat < 4 := by
  have hx := x.isLt
  have ht := t.isLt
  rw [← BitVec.toNat_inj, BitVec.toNat_ushiftRight, Nat.shiftRight_eq_div_pow, BitVec.toNat_sub,
    BitVec.toNat_mul]
  simp
  omega

/-- Direct mode, or vectored mode and either an exception after an interrupt or a value of `mcause`
for which the upper 62 bits of its sum with the base happen to be the vector. -/
def Csr.vectorOk (c : Csr) (timer : Bool) : Prop :=
  mtvecMode c.mtvec = 0#2 ∨ c.mcause.getLsbD 63 = true ∧ timer = false ∨
    c.mcause.getLsbD 63 = false ∧ (trapVector c.mtvec timer).toNat < 2 ^ 62 ∧
      (c.mcause - (3#64 * alignPc c.mtvec + if timer then 112#64 else 0#64)).toNat < 4

instance (c : Csr) (timer : Bool) : Decidable (c.vectorOk timer) :=
  inferInstanceAs (Decidable (_ ∨ _ ∧ _ ∨ _ ∧ _ ∧ _))

namespace Csr

variable {c : Csr} {timer : Bool}

theorem mtvecPc_of_direct (h : mtvecMode c.mtvec = 0#2) : c.mtvecPc = trapVector c.mtvec timer := by
  have hpc : c.mtvecPc = alignPc c.mtvec := by
    unfold mtvecMode at h
    simp [mtvecPc, h]
  have hmode : ¬ (mtvecMode c.mtvec = 1#2 ∧ timer = true) := by
    rw [h]
    simp
  rw [hpc, trapVector, if_neg hmode]

theorem cause_eq (h : c.mcause.getLsbD 63 = false) :
    (c.mcause.extractLsb' 0 63).zeroExtend 64 = c.mcause := by
  apply BitVec.eq_of_getLsbD_eq
  intro k hk
  rw [BitVec.getLsbD_setWidth, BitVec.getLsbD_extractLsb', Nat.zero_add]
  by_cases hlt : k < 63
  · simp [hlt, hk]
  · obtain rfl : k = 63 := by omega
    rw [h, Bool.and_false, Bool.and_false]

/-- Four times the vector, less the base. -/
theorem four_vector_sub (hmode : mtvecMode c.mtvec = 1#2) :
    4#64 * trapVector c.mtvec timer - alignPc c.mtvec =
      3#64 * alignPc c.mtvec + if timer then 112#64 else 0#64 := by
  unfold trapVector
  rw [hmode]
  generalize alignPc c.mtvec = base
  cases timer <;> simp <;> bv_omega

theorem mtvecPc_of_vectored (hmode : mtvecMode c.mtvec = 1#2) :
    c.mtvecPc = trapVector c.mtvec timer ↔ c.vectorOk timer := by
  have hne : mtvecMode c.mtvec ≠ 0#2 := by
    rw [hmode]
    decide
  have hpc : c.mtvecPc =
      if c.mcause.getLsbD 63 then alignPc c.mtvec
      else (alignPc c.mtvec + (c.mcause.extractLsb' 0 63).zeroExtend 64) >>> 2 := by
    unfold mtvecMode at hne
    unfold mtvecPc
    cases c.mcause.getLsbD 63 <;> simp [hne]
  rw [hpc, vectorOk, or_iff_right hne]
  cases h63 : c.mcause.getLsbD 63 with
  | true =>
    rw [if_pos rfl, trapVector, hmode]
    generalize alignPc c.mtvec = base
    cases timer <;> simp
  | false =>
    have hsub : alignPc c.mtvec + c.mcause - 4#64 * trapVector c.mtvec timer =
        c.mcause - (4#64 * trapVector c.mtvec timer - alignPc c.mtvec) := by
      bv_omega
    rw [cause_eq h63, if_neg Bool.false_ne_true, ushiftRight_two_eq_iff, hsub,
      four_vector_sub hmode]
    simp

/-- `mtvec_pc` is the trap vector exactly under this condition. -/
theorem mtvecPc_iff (hmode : mtvecMode c.mtvec = 0#2 ∨ mtvecMode c.mtvec = 1#2) :
    c.mtvecPc = trapVector c.mtvec timer ↔ c.vectorOk timer := by
  rcases hmode with h0 | h1
  · exact iff_of_true (mtvecPc_of_direct h0) (.inl h0)
  · exact mtvecPc_of_vectored h1

end Csr

theorem loadsMtvec_of_trap {y : System} {i : AxiIn}
    (ht : (y.ecallTaken i || y.timerTaken i) = true) : y.loadsMtvec i = true := by
  have hflush : y.core.flush i =
      (y.ecallTaken i || y.timerTaken i || (y.core.csrIn i).mret) := rfl
  rw [System.loadsMtvec, hflush, ht]
  rw [System.timerTaken, Bool.or_eq_true, Bool.and_eq_true] at ht
  rcases ht with he | hti
  · change (true && (y.ecallTaken i || _)) = true
    rw [he]
    rfl
  · rw [hti.2]
    simp

/-- **Trap vectors.** With `mtvec` in one of its two modes, a trap is sent to its vector exactly
under the condition `vectorOk`. It is the timer interrupt if `csr` records it as that. -/
theorem trap_vector_iff {y : System} {i : AxiIn}
    (hmode : Csr.mtvecMode y.core.csr.mtvec = 0#2 ∨ Csr.mtvecMode y.core.csr.mtvec = 1#2)
    (ht : (y.ecallTaken i || y.timerTaken i) = true) :
    (y.step i).core.bru.pc = trapVector y.core.csr.mtvec (y.timerTaken i) ↔
      y.core.csr.vectorOk (y.timerTaken i) := by
  rw [System.step_bru_of_loadsMtvec (loadsMtvec_of_trap ht)]
  exact Csr.mtvecPc_iff hmode

/-- `csrrw x0, mtvec, x6` with `mtvec` in `x6`, and a second instruction. -/
def mtvecProgram (mtvec : Word) (ins : Ins) : System :=
  System.boot false (fun a => if a = 6#5 then mtvec else 0x80#64) 0#4 0#4
    (Mem.image [ins ++ 0x30531073#32, 0x1300000013#64])

/-- In direct mode an `ecall` goes to the base, here 0x80000100. -/
theorem trap_vector_iff_direct :
    let y := System.driven (mtvecProgram 0x80000100#64 0x73#32) slowReads 32
    let i := y.slave.drive (slowReads 32)
    y.ecallTaken i = true ∧ trapVector y.core.csr.mtvec (y.timerTaken i) = 0x80000100#64 ∧
      (y.step i).core.bru.pc = trapVector y.core.csr.mtvec (y.timerTaken i) :=
  ⟨by decide +kernel, by decide +kernel,
    (trap_vector_iff (by decide +kernel) (by decide +kernel)).2 (by decide +kernel)⟩

/-- With the base 0x80000100 in mode 1 an `ecall` and a timer interrupt, enabled by
`csrrw x0, mie, x5`, go astray. -/
theorem trap_vector_iff_fails :
    let y := System.driven (mtvecProgram 0x80000101#64 0x73#32) slowReads 32
    let i := y.slave.drive (slowReads 32)
    let z := System.driven (mtvecProgram 0x80000101#64 0x30429073#32) slowReads 40
    let j := z.slave.drive (slowReads 40)
    (y.Reachable ∧ y.Ok i ∧ y.ecallTaken i = true ∧ y.timerTaken i = false ∧
      trapVector y.core.csr.mtvec false = 0x80000100#64 ∧
        (y.step i).core.bru.pc = 0x20000042#64) ∧
    z.Reachable ∧ z.Ok j ∧ z.timerTaken j = true ∧
      trapVector z.core.csr.mtvec true = 0x8000011c#64 ∧
        (z.step j).core.bru.pc = 0x20000040#64 :=
  ⟨⟨System.reachable_driven (System.afterReset_boot _ _ _ _ _) _ _, Slave.drives_drive _ _,
    by decide +kernel, by decide +kernel, by decide +kernel, by decide +kernel⟩,
    System.reachable_driven (System.afterReset_boot _ _ _ _ _) _ _, Slave.drives_drive _ _,
    by decide +kernel, by decide +kernel, by decide +kernel⟩

end Oscpu.Axi
