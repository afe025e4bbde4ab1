import Oscpu.Axi.Redirect

/-!
# The interrupt enable across a trap

An `ecall` updates `mstatus` as soon as it is in write-back, and the guard of the update, that
interrupts are enabled, keeps it from being repeated while the `ecall` waits. With interrupts
disabled the guard keeps it from being made at all: what the `mret` restores then is the bit that
an earlier trap has saved.
-/

namespace Oscpu.Axi

open Oscpu.Rtl Oscpu.Lib

/-- The registers of `csr` after some cycles. -/
def Csr.after (c : Csr) (is : Nat → CsrIn) : Nat → Csr := run (fun c i => c.step i false) c is

/-- The registers in the system are those of `csr` on its own with the inputs it has there. -/
theorem System.csr_run (y : System) (is : Nat → AxiIn) (k : Nat) :
    (run System.step y is k).core.csr =
      y.core.csr.after (fun j => (run System.step y is j).core.csrIn (is j)) k := by
  induction k with
  | zero => rfl
  | succ k ih =>
    rw [Csr.after, run_succ, run_succ, ← Csr.after, ← ih]
    rfl

/-- An `mret` is in write-back for one cycle, for it flushes. -/
theorem System.mret_once {y : System} {i : AxiIn} (i' : AxiIn)
    (h : (y.core.csrIn i).mret = true) : ((y.step i).core.csrIn i').mret = false := by
  have hfl : y.core.flush i = true := by
    change Csr.flush _ _ = true
    simp [Csr.flush, h]
  change (y.step i).core.lsWb.data.mret = false
  rw [Occ.step_lsWb_of_flush hfl]
  rfl

/-- An `ecall` is in write-back up to cycle `n`, whether that is ready or not, the next `mret` in
cycle `m`, and nothing writes `mstatus` in between. -/
structure EcallMret (is : Nat → CsrIn) (n m : Nat) : Prop where
  lt : n < m
  ecall : ∀ k, k ≤ n → (is k).exceptEn = true
  noMret : ∀ k, k < m → (is k).mret = false
  mret : (is m).mret = true
  noWrite : ∀ k, k ≤ m → Csr.writes (is k) CSR_MSTATUS = false

namespace Csr

section

variable {c : Csr} {i : CsrIn}

theorem step_mstatus_of_ecall (he : i.exceptEn = true) (hm : i.mret = false)
    (hw : writes i CSR_MSTATUS = false) :
    (c.step i false).mstatus = if c.mstatus.getLsbD 3 then mstatusTrap c.mstatus else c.mstatus := by
  simp [step, he, hm, hw]

theorem step_mstatus_of_disabled (h : c.mstatus.getLsbD 3 = false)
    (hw : writes i CSR_MSTATUS = false) :
    (c.step i false).mstatus = if i.mret then mstatusMret c.mstatus else c.mstatus := by
  simp only [step, h, hw, Bool.false_and, Bool.false_eq_true, if_false]

end

/-- `mstatus` while the `ecall` is handled. -/
def entered (c : Csr) : Word :=
  if c.mstatus.getLsbD 3 then mstatusTrap c.mstatus else c.mstatus

theorem getLsbD_entered (c : Csr) : c.entered.getLsbD 3 = false := by
  unfold entered
  split_ifs with h
  · exact getLsbD_mstatusTrap _
  · exact Bool.eq_false_iff.2 h

theorem after_of_ecallMret {c : Csr} {is : Nat → CsrIn} {n m : Nat} (h : EcallMret is n m) {k : Nat}
    (hk : 1 ≤ k) : k ≤ m → (c.after is k).mstatus = c.entered := by
  induction k, hk using Nat.le_induction with
  | base =>
    exact fun hm => step_mstatus_of_ecall (h.ecall 0 (Nat.zero_le n)) (h.noMret 0 hm)
      (h.noWrite 0 (Nat.zero_le m))
  | succ k hk ih =>
    intro hm
    have hlast := ih (Nat.le_of_succ_le hm)
    have hoff : (c.after is k).mstatus.getLsbD 3 = false := by rw [hlast, getLsbD_entered]
    have hstep := step_mstatus_of_disabled hoff (h.noWrite k (Nat.le_of_succ_le hm))
    rw [h.noMret k hm, if_neg Bool.false_ne_true] at hstep
    exact hstep.trans hlast

theorem after_mret {c : Csr} {is : Nat → CsrIn} {n m : Nat} (h : EcallMret is n m) :
    (c.after is (m + 1)).mstatus = mstatusMret c.entered := by
  have hm : 1 ≤ m := Nat.one_le_iff_ne_zero.2 (Nat.ne_zero_of_lt h.lt)
  have hlast := after_of_ecallMret (c := c) h hm le_rfl
  have hoff : (c.after is m).mstatus.getLsbD 3 = false := by rw [hlast, getLsbD_entered]
  have hstep := step_mstatus_of_disabled hoff (h.noWrite m le_rfl)
  rw [h.mret, if_pos rfl, hlast] at hstep
  exact hstep

/-! ## The bits of `mstatus` -/

section

variable (w : Word)

theorem getLsbD_mstatusTrap_mpie : (mstatusTrap w).getLsbD 7 = w.getLsbD 3 := by
  unfold mstatusTrap
  simp only [BitVec.getLsbD_append, BitVec.getLsbD_extractLsb', Nat.reduceLT, Nat.reduceSub,
    if_true, if_false]
  rfl

theorem extractLsb'_mstatusTrap_mpp : (mstatusTrap w).extractLsb' 11 2 = 3#2 := by
  have hmpp : (mstatusTrap w).getLsbD 11 = true ∧ (mstatusTrap w).getLsbD 12 = true := by
    unfold mstatusTrap
    simp only [BitVec.getLsbD_append, Nat.reduceLT, Nat.reduceSub, if_true, if_false]
    decide
  apply BitVec.eq_of_getLsbD_eq
  intro k hk
  obtain rfl | rfl : k = 0 ∨ k = 1 := by omega
  · exact (BitVec.getLsbD_extractLsb' _ _ _ _).trans (by rw [hmpp.1]; rfl)
  · exact (BitVec.getLsbD_extractLsb' _ _ _ _).trans (by rw [hmpp.2]; rfl)

theorem getLsbD_mstatusMret_mie : (mstatusMret w).getLsbD 3 = w.getLsbD 7 := by
  unfold mstatusMret
  simp only [BitVec.getLsbD_append, BitVec.getLsbD_extractLsb', Nat.reduceLT, Nat.reduceSub,
    if_true, if_false]
  rfl

theorem getLsbD_mstatusMret_mpie : (mstatusMret w).getLsbD 7 = true := by
  unfold mstatusMret
  simp only [BitVec.getLsbD_append, Nat.reduceLT, Nat.reduceSub, if_true, if_false]
  rfl

end

end Csr

/-- An `ecall` up to cycle `n` saves the interrupt enable and leaves interrupts disabled in machine
mode, and the `mret` of cycle `m` restores it. -/
structure Csr.Restores (c : Csr) (is : Nat → CsrIn) (n m : Nat) : Prop where
  mpie : (c.after is (n + 1)).mstatus.getLsbD 7 = c.mstatus.getLsbD 3
  mie : (c.after is (n + 1)).mstatus.getLsbD 3 = false
  mpp : (c.after is (n + 1)).mstatus.extractLsb' 11 2 = 3#2
  restored : (c.after is (m + 1)).mstatus.getLsbD 3 = c.mstatus.getLsbD 3
  enabled : (c.after is (m + 1)).mstatus.getLsbD 7 = true

/-- **The interrupt enable across a trap.** -/
theorem restores_iff (c : Csr) {is : Nat → CsrIn} {n m : Nat} (h : EcallMret is n m) :
    c.Restores is n m ↔ c.mstatus.getLsbD 3 = true ∨
      c.mstatus.getLsbD 7 = false ∧ c.mstatus.extractLsb' 11 2 = 3#2 := by
  have hentered := Csr.after_of_ecallMret (c := c) h (Nat.le_add_left 1 n) h.lt
  have hreturned := Csr.after_mret (c := c) h
  cases hm : c.mstatus.getLsbD 3 with
  | true =>
    have he : c.entered = Csr.mstatusTrap c.mstatus := if_pos hm
    rw [he] at hentered hreturned
    refine iff_of_true ⟨?_, ?_, ?_, ?_, ?_⟩ (.inl rfl)
    · rw [hentered, Csr.getLsbD_mstatusTrap_mpie]
    · rw [hentered, getLsbD_mstatusTrap]
    · rw [hentered, Csr.extractLsb'_mstatusTrap_mpp]
    · rw [hreturned, Csr.getLsbD_mstatusMret_mie, Csr.getLsbD_mstatusTrap_mpie]
    · rw [hreturned, Csr.getLsbD_mstatusMret_mpie]
  | false =>
    have he : c.entered = c.mstatus := if_neg (Bool.eq_false_iff.1 hm)
    rw [he] at hentered hreturned
    constructor
    · intro hr
      have hmpie := hr.mpie
      have hmpp := hr.mpp
      rw [hentered] at hmpie hmpp
      exact .inr ⟨hmpie.trans hm, hmpp⟩
    · rintro (habs | ⟨hmpie, hmpp⟩)
      · exact absurd habs Bool.false_ne_true
      · refine ⟨?_, ?_, ?_, ?_, ?_⟩
        · rw [hentered, hmpie, hm]
        · rw [hentered, hm]
        · rw [hentered, hmpp]
        · rw [hreturned, Csr.getLsbD_mstatusMret_mie, hmpie, hm]
        · rw [hreturned, Csr.getLsbD_mstatusMret_mpie]

/-- The inputs of an instruction in write-back that does nothing to `csr`. -/
def CsrIn.idle : CsrIn := ⟨0#64, 0#12, false, false, 0#64, 0#64, 0#64, false, false, 0x13#32, true⟩

/-- An `ecall` that waits for two cycles, and its `mret` at the end of the handler. -/
def trapInputs (k : Nat) : CsrIn :=
  if k ≤ 2 then { CsrIn.idle with exceptEn := true, exceptCode := 11#64, wbReady := k == 2 }
  else { CsrIn.idle with mret := k == 5, csrW := 0x302#12 }

theorem ecallMret_trapInputs : EcallMret trapInputs 2 5 := by
  refine ⟨by decide, ?_, ?_, by decide, ?_⟩
  · intro k hk
    simp [trapInputs, hk]
  · intro k hk
    unfold trapInputs
    have hne : (k == 5) = false := beq_eq_false_iff_ne.2 (by omega)
    split_ifs <;> simp [CsrIn.idle, hne]
  · intro k hk
    unfold trapInputs
    split_ifs <;> simp [Csr.writes, CsrIn.idle]

/-- The registers after reset. -/
def Csr.zero : Csr := ⟨false, 0x1808#64, 0#64, 0#64, 0#64, 0#64, 0#64, 0#64⟩

theorem restores_reset : Csr.zero.Restores trapInputs 2 5 :=
  (restores_iff Csr.zero ecallMret_trapInputs).2 (.inl (by decide))

/-- `csrrw x0, mstatus, x1` with a value whose `MPIE` is set and whose `MIE` is not. -/
def disableIn : CsrIn := { CsrIn.idle with wdata := 0x1880#64, csrW := CSR_MSTATUS, csrWen := true }

/-- After it the `mret` enables interrupts that were disabled. -/
theorem restores_fails :
    let c := Csr.zero.step disableIn false
    EcallMret trapInputs 2 5 ∧ c.mstatus = 0x1880#64 ∧
      (c.after trapInputs 3).mstatus = 0x1880#64 ∧ (c.after trapInputs 6).mstatus = 0x88#64 ∧
        ¬ c.Restores trapInputs 2 5 := by
  intro c
  exact ⟨ecallMret_trapInputs, by decide, by decide, by decide,
    fun h => absurd h.restored (by decide)⟩

end Oscpu.Axi
