import Oscpu.Axi.CsrValues

/-!
# What a CSR instruction does

A CSR instruction is followed from ID to the cycle in which it retires: `idu` decodes it, `exu`
reads the register and merges the operand, `csr` writes the register and `wbu` chooses the value for
`rd`. The theorem compares the two results with the instruction's meaning, for every instruction,
register, operand and old value, and says exactly when they agree. The old value and the operand are
those behind all older instructions; `exu` may read others.
-/

namespace Oscpu.Axi

open Oscpu.Rtl Oscpu.Lib

/-! ## The meaning -/

/-- The bits that an instruction decides: bit 63 of `mstatus` and bit 11 of `mip` are fixed. -/
def csrBits (n : BitVec 12) : Word :=
  if n = CSR_MSTATUS then ~~~(1#64 <<< 63) else if n = CSR_MIP then ~~~(1#64 <<< 11)
  else BitVec.allOnes 64

inductive CsrOp where
  | rw | rs | rc
  deriving DecidableEq, Repr

/-- The operation of a CSR instruction and whether its operand is the immediate. -/
def csrOp (ins : Ins) : Option (CsrOp × Bool) :=
  let f3 := func3 ins
  if !isCsr ins then none
  else if f3 = FUNC3_CSRRW then some (.rw, false)
  else if f3 = FUNC3_CSRRWI then some (.rw, true)
  else if f3 = FUNC3_CSRRS then some (.rs, false)
  else if f3 = FUNC3_CSRRSI then some (.rs, true)
  else if f3 = FUNC3_CSRRC then some (.rc, false)
  else if f3 = FUNC3_CSRRCI then some (.rc, true)
  else none

/-- What the register should receive. -/
def CsrOp.result (op : CsrOp) (old operand : Word) : Word :=
  match op with
  | .rw => operand
  | .rs => old ||| operand
  | .rc => old &&& ~~~operand

/-! ## Decoding -/

section

variable {ins : Ins} {op : CsrOp} {imm : Bool}

theorem isCsr_of_csrOp (h : csrOp ins = some (op, imm)) : isCsr ins = true := by
  unfold csrOp at h
  cases hc : isCsr ins with
  | true => rfl
  | false => simp [hc] at h

/-- The six `func3` values, by operation. -/
def CsrOp.func3 : CsrOp → Bool → BitVec 3
  | .rw, false => FUNC3_CSRRW
  | .rw, true => FUNC3_CSRRWI
  | .rs, false => FUNC3_CSRRS
  | .rs, true => FUNC3_CSRRSI
  | .rc, false => FUNC3_CSRRC
  | .rc, true => FUNC3_CSRRCI

/-- The one bit that `idu` sets. -/
def CsrOp.choose : CsrOp → BitVec 3
  | .rw => 0b100#3
  | .rs => 0b010#3
  | .rc => 0b001#3

theorem func3_of_csrOp (h : csrOp ins = some (op, imm)) : func3 ins = op.func3 imm := by
  unfold csrOp at h
  simp only [isCsr_of_csrOp h, Bool.not_true, Bool.false_eq_true, if_false] at h
  split_ifs at h with h1 h2 h3 h4 h5 h6 <;> cases h <;> assumption

theorem csrChoose_of_csrOp (h : csrOp ins = some (op, imm)) :
    csrChoose ins = op.choose := by
  unfold csrChoose
  rw [isCsr_of_csrOp h, func3_of_csrOp h]
  cases op <;> cases imm <;> rfl

theorem csrWdata_of_csrOp (h : csrOp ins = some (op, imm)) (rf : Regs) :
    csrWdata ins (rf.read (oRs1id ins)) = csrOperand rf ins imm := by
  have hop : opcode ins = TYPE_CSR := by simpa [isCsr] using isCsr_of_csrOp h
  have hrs1 : oRs1id ins = rs1id ins := by simp [oRs1id, hop]
  unfold csrWdata csrOperand
  rw [isCsr_of_csrOp h, func3_of_csrOp h, hrs1]
  cases op <;> cases imm <;> rfl

theorem oRdid_of_csrOp (h : csrOp ins = some (op, imm)) : oRdid ins = rdid ins := by
  have hop : opcode ins = TYPE_CSR := by simpa [isCsr] using isCsr_of_csrOp h
  simp [oRdid, hop]

theorem oRdwen_of_csrOp (h : csrOp ins = some (op, imm)) : oRdwen ins = false := by
  have hop : opcode ins = TYPE_CSR := by simpa [isCsr] using isCsr_of_csrOp h
  simp [oRdwen, hop, TYPE_CSR, TYPE_R, TYPE_R_W, TYPE_I, TYPE_I_W, TYPE_I_LOAD, TYPE_I_JALR,
    TYPE_U_LUI, TYPE_U_AUIPC, TYPE_J]

end

/-! ## What the path computes -/

/-- `csr` does not read `mscratch`. -/
theorem read_eq (c : Csr) {n : BitVec 12} (hn : writableCsr n = true) :
    c.read n = if n = CSR_MSCRATCH then 0#64 else c.value n := by
  rcases writable_cases hn with (((((rfl | rfl) | rfl) | rfl) | rfl) | rfl) | rfl <;> rfl

theorem mstatusWrite_and (w : Word) :
    Csr.mstatusWrite w &&& csrBits CSR_MSTATUS = w &&& csrBits CSR_MSTATUS := by
  apply BitVec.eq_of_getLsbD_eq
  intro k hk
  have hbits : ∀ k < 64, (csrBits CSR_MSTATUS).getLsbD k = decide (k < 63) := by decide
  simp only [Csr.mstatusWrite, BitVec.getLsbD_and, BitVec.getLsbD_append,
    BitVec.getLsbD_extractLsb', hbits k hk]
  by_cases h : k < 63 <;> simp [h]

theorem written_and (n : BitVec 12) (w : Word) :
    Csr.written n w &&& csrBits n = w &&& csrBits n := by
  unfold Csr.written
  split_ifs with h
  · rw [h]
    exact mstatusWrite_and w
  · rfl

/-- The merge of `exu` for the clearing instructions, as masks. -/
theorem clearMerge_eq (a b : Word) :
    a.extractLsb' 5 59 ++ b.extractLsb' 0 5 = (a &&& ~~~31#64) ||| (b &&& 31#64) := by
  have h31 : ∀ k < 64, (31#64).getLsbD k = decide (k < 5) := by decide
  apply BitVec.eq_of_getLsbD_eq
  intro k hk
  simp only [BitVec.getLsbD_append, BitVec.getLsbD_extractLsb', BitVec.getLsbD_or,
    BitVec.getLsbD_and, BitVec.getLsbD_not, h31 k hk]
  by_cases h : k < 5
  · simp [h]
  · have h5 : 5 + (k - 5) = k := by omega
    have h59 : k - 5 < 59 := by omega
    simp [h, h5, h59, hk]

/-- A merge of the high bits of `a` with the low bits of `b` agrees with `e` on the bits of `m`. -/
theorem merge_and_eq_iff {a b e m : Word} (hm : m &&& 31#64 = 31#64) :
    ((a &&& ~~~31#64) ||| (b &&& 31#64)) &&& m = e &&& m ↔
      (a ^^^ e) &&& m &&& ~~~31#64 = 0#64 ∧ (b ^^^ e) &&& 31#64 = 0#64 := by
  have h31 : ∀ k < 64, (31#64).getLsbD k = decide (k < 5) := by decide
  have hlow (k : Nat) (hk : k < 64) (h5 : k < 5) : m.getLsbD k = true := by
    have hbit := congrArg (fun x : Word => x.getLsbD k) hm
    simpa [h31 k hk, h5] using hbit
  rw [BitVec.eq_of_getLsbD_eq_iff, BitVec.eq_of_getLsbD_eq_iff, BitVec.eq_of_getLsbD_eq_iff,
    ← forall₂_and]
  apply forall₂_congr
  intro k hk
  simp only [BitVec.getLsbD_or, BitVec.getLsbD_and, BitVec.getLsbD_not, BitVec.getLsbD_xor,
    h31 k hk, BitVec.getLsbD_zero, hk]
  -- bit by bit
  have h5 := hlow k hk
  generalize m.getLsbD k = v at h5 ⊢
  generalize a.getLsbD k = x
  generalize b.getLsbD k = z
  generalize e.getLsbD k = w
  by_cases h : k < 5
  · rw [h5 h]
    revert x z w
    simp [h]
  · revert v x z w
    simp [h]

theorem or_eq_or_iff {a b : Word} : b = a ||| b ↔ a &&& ~~~b = 0#64 := by
  rw [BitVec.eq_of_getLsbD_eq_iff, BitVec.eq_of_getLsbD_eq_iff]
  apply forall₂_congr
  intro k hk
  simp only [BitVec.getLsbD_or, BitVec.getLsbD_and, BitVec.getLsbD_not, BitVec.getLsbD_zero, hk]
  cases a.getLsbD k <;> cases b.getLsbD k <;> decide

theorem xor_and_not (a b : Word) : a ^^^ (a &&& ~~~b) = a &&& b := by
  apply BitVec.eq_of_getLsbD_eq
  intro k hk
  simp only [BitVec.getLsbD_and, BitVec.getLsbD_not, BitVec.getLsbD_xor, hk]
  cases a.getLsbD k <;> cases b.getLsbD k <;> rfl

theorem and_eq_and_iff {a b m : Word} : a &&& m = b &&& m ↔ (a ^^^ b) &&& m = 0#64 := by
  rw [BitVec.eq_of_getLsbD_eq_iff, BitVec.eq_of_getLsbD_eq_iff]
  apply forall₂_congr
  intro k hk
  simp only [BitVec.getLsbD_and, BitVec.getLsbD_xor, BitVec.getLsbD_zero]
  cases a.getLsbD k <;> cases b.getLsbD k <;> cases m.getLsbD k <;> decide

theorem not_trap_of_writable {ins : Ins} (hn : writableCsr (csrId ins) = true) :
    isEcall ins = false := by
  have h0 : csrId ins ≠ 0b000000000000#12 := fun h => by rw [h] at hn; revert hn; decide
  simp [isEcall, h0]

/-! ## From ID to write-back -/

/-- What write-back holds of an instruction that `exu` executed over these registers. -/
structure Carries (w : LsWb) (ins : Ins) (c : Csr) (rf : Regs) (csrrci : Word) : Prop where
  csr : w.csr = csrId ins
  csrWen : w.csrWen = csrWen (csrChoose ins)
  csrDataRes : w.csrDataRes = csrDataRes (csrChoose ins) (c.read (csrId ins))
    (csrWdata ins (rf.read (oRs1id ins))) csrrci
  csrToRf : w.csrToRf = csrToRf (csrChoose ins)
  csrData : w.csrData = c.read (csrId ins)
  rdid : w.rdid = oRdid ins
  rdwen : w.rdwen = oRdwen ins
  exceptEn : w.exceptEn = isEcall ins

namespace Occ

variable {y : System} {i : AxiIn}

theorem wait_in_mem (h : Occ y) (is : Nat → AxiIn) {n : Nat}
    (hok : Admits System.step System.Ok y is n) (hv : y.core.exLs.valid = true)
    (hfl : ∀ k < n, (run System.step y is k).core.flush (is k) = false)
    (hr : ∀ k < n, (run System.step y is k).core.memReady (is k) = false) :
    Occ (run System.step y is n) ∧ (run System.step y is n).core.exLs = y.core.exLs := by
  induction n with
  | zero => exact ⟨h, rfl⟩
  | succ n ih =>
    obtain ⟨ho, hls⟩ := ih (hok.mono (Nat.le_succ n)) (fun k hk => hfl k (by omega))
      fun k hk => hr k (by omega)
    have hvn : (run System.step y is n).core.exLs.valid = true := hls ▸ hv
    have hstay : (run System.step y is n).core.exReady (is n) = false := by
      simp [Core.exReady, Stage.ready, hvn, Core.memExReady, hr n (Nat.lt_succ_self n)]
    rw [run_succ]
    exact ⟨ho.step hok.last,
      (ho.step_exLs_of_hold hvn hstay (hfl n (Nat.lt_succ_self n))).trans hls⟩

theorem exLs_of_id {is : Nat → AxiIn} (h : Occ y) (hok : Admits System.step System.Ok y is 2)
    (hv : y.core.ifId.valid = true)
    (hfl : ∀ k < 2, (run System.step y is k).core.flush (is k) = false) :
    let x := run System.step y is 1
    let z := run System.step y is 2
    Occ z ∧ z.core.exLs.valid = true ∧ z.core.exLs.data = x.core.toExLs (is 1) ∧
      x.core.idEx.data = y.core.toIdEx (is 0) ∧ x.core.ifId.data = y.core.ifId.data ∧
        x.core.csrrci = y.core.csrrci := by
  intro x z
  have hfl0 : y.core.flush (is 0) = false := hfl 0 (by omega)
  have hx : y.step (is 0) = x := rfl
  have hz : x.step (is 1) = z := rfl
  have hox : Occ x := h.step (hok 0 (by omega))
  have hf0 : y.core.ifReadyAxi (is 0) = false := by simp [Core.ifReadyAxi, (h.id hv).2.2.1]
  have hvx : x.core.idEx.valid = true := by rw [← hx, h.step_ex, hv]
  exact ⟨hox.step (hok 1 (by omega)), hox.step_mem_of_ex hvx, hox.step_exLs_of_ex hvx,
    h.step_idEx_of_id hv, step_ifId_of_quiet hf0 hfl0, rfl⟩

/-- An instruction without a memory access goes from ID to EX and MEM, leaves MEM in cycle `m`, and
takes along what `exu` made of the registers in cycle 1. -/
theorem carries_of_id {is : Nat → AxiIn} {m : Nat} (h : Occ y)
    (hok : Admits System.step System.Ok y is (2 + m)) (hv : y.core.ifId.valid = true)
    (hacc : visitAxi y.core.ifId.data.ins = false)
    (hfl : ∀ k ≤ 2 + m, (run System.step y is k).core.flush (is k) = false)
    (hwait : ∀ k < m, (run System.step y is (2 + k)).core.memReady (is (2 + k)) = false)
    (hleave : (run System.step y is (2 + m)).core.memReady (is (2 + m)) = true) :
    let x := run System.step y is 1
    let z := run System.step y is (2 + m + 1)
    z.core.lsWb.valid = true ∧
      Carries z.core.lsWb.data y.core.ifId.data.ins x.core.csr x.core.rf y.core.csrrci := by
  intro x z
  obtain ⟨ho2, hv2, hdata2, hdata1, hins1, hrci1⟩ := h.exLs_of_id (hok.mono (by omega)) hv
    fun k hk => hfl k (by omega)
  have hflx : x.core.flush (is 1) = false := hfl 1 (by omega)
  have hfl0 : y.core.flush (is 0) = false := hfl 0 (by omega)
  have hb := not_pcStall (h.id hv).1
  have hshift (k : Nat) : run System.step (run System.step y is 2) (fun j => is (2 + j)) k =
      run System.step y is (2 + k) := (run_add _ _ _ _ _).symm
  generalize run System.step y is 2 = y2 at ho2 hv2 hdata2 hshift
  have hx : run System.step y is 1 = x := rfl
  rw [hx] at hdata1 hins1 hrci1 hdata2
  have hls : (y2.core.exLs.data.lden || y2.core.exLs.data.sten) = false := by
    rw [hdata2]
    simp only [Core.toExLs, hflx, Bool.false_eq_true, if_false]
    rw [hdata1]
    simp only [Core.toIdEx, hfl0, hb, Bool.false_eq_true, if_false]
    exact hacc
  obtain ⟨-, hlsm⟩ := ho2.wait_in_mem (fun j => is (2 + j)) (n := m)
    (fun k hk => by rw [hshift]; exact hok _ (by omega)) hv2
    (fun k hk => by rw [hshift]; exact hfl _ (by omega))
    (fun k hk => by rw [hshift]; exact hwait k hk)
  rw [hshift] at hlsm
  generalize hym : run System.step y is (2 + m) = ym at hlsm hleave
  have hflm : ym.core.flush (is (2 + m)) = false := hym ▸ hfl (2 + m) le_rfl
  have hz : ym.step (is (2 + m)) = z := by rw [← hym]; rfl
  have hval : ym.core.memValid (is (2 + m)) = true := by simp [Core.memValid, hlsm, hls, hv2]
  rw [← hz]
  refine ⟨?_, ?_⟩
  · change (ym.core.step false (is (2 + m))).lsWb.valid = true
    rw [Core.step_lsWb_valid, hleave, if_pos rfl, hval]
  · rw [step_lsWb_of_leave (by rw [hval, hleave]; rfl)]
    refine ⟨?_, ?_, ?_, ?_, ?_, ?_, ?_, ?_⟩ <;>
      simp only [Core.toLsWb, hflm, hlsm, hdata2, Core.toExLs, hflx, hdata1, Core.toIdEx, hfl0, hb,
        Core.exCsrDataRes, Core.csrData, Core.idCsrWdata, Core.regfileRs1, hins1, hrci1,
        Bool.false_eq_true, if_false]

/-- Until the instruction leaves MEM, write-back keeps what it held when that was in ID. -/
theorem lsWb_of_id {is : Nat → AxiIn} {m : Nat} (h : Occ y)
    (hok : Admits System.step System.Ok y is (2 + m)) (hv : y.core.ifId.valid = true)
    (hfl : ∀ k ≤ 2 + m, (run System.step y is k).core.flush (is k) = false)
    (hwait : ∀ k < m, (run System.step y is (2 + k)).core.memReady (is (2 + k)) = false) :
    ∀ k < 2 + m, (run System.step y is (k + 1)).core.lsWb.data =
        (run System.step y is k).core.lsWb.data ∧
      ((run System.step y is (k + 1)).core.lsWb.valid = true →
        (run System.step y is k).core.lsWb.valid = true) := by
  have hempty : ∀ k < 2, (run System.step y is k).core.exLs.valid = false := by
    intro k hk
    rcases (by omega : k = 0 ∨ k = 1) with rfl | rfl
    · exact (h.id hv).2.1
    · have hvx : (y.step (is 0)).core.idEx.valid = true := by rw [h.step_ex, hv]
      exact ((h.step (hok 0 (by omega))).ex hvx).1
  intro k hk
  have hl : ((run System.step y is k).core.memValid (is k) &&
      (run System.step y is k).core.memReady (is k)) = false := by
    rcases Nat.lt_or_ge k 2 with hlt | hge
    · rw [memValid_of_empty (hempty k hlt), Bool.false_and]
    · obtain ⟨j, rfl⟩ := Nat.exists_eq_add_of_le hge
      rw [hwait j (by omega), Bool.and_false]
  rw [run_succ]
  refine ⟨step_lsWb_of_quiet hl (hfl k (by omega)), ?_⟩
  have hstep : ((run System.step y is k).step (is k)).core.lsWb.valid = _ :=
    Core.step_lsWb_valid _ (is k)
  rw [hstep]
  intro hv'
  cases hr : (run System.step y is k).core.memReady (is k) with
  | true =>
    rw [hr, if_pos rfl] at hv'
    rw [hv', hr] at hl
    exact absurd hl (by decide)
  | false => rwa [hr, if_neg Bool.false_ne_true] at hv'

/-- Without a hazard `exu` reads what the registers hold when the instruction comes to
write-back. -/
theorem seen_of_not_hazard {is : Nat → AxiIn} {m : Nat} {ins : Ins} {imm : Bool}
    (hy : y.Reachable) (hok : Admits System.step System.Ok y is (2 + m))
    (hv : y.core.ifId.valid = true) (hn : writableCsr (csrId ins) = true)
    (hfl : ∀ k ≤ 2 + m, (run System.step y is k).core.flush (is k) = false)
    (hwait : ∀ k < m, (run System.step y is (2 + k)).core.memReady (is (2 + k)) = false)
    (hleave : (run System.step y is (2 + m)).core.memReady (is (2 + m)) = true)
    (hhaz : (run System.step y is 1).core.csrHazard ins imm = false) :
    let x := run System.step y is 1
    let w := run System.step y is (2 + m + 1)
    x.core.csr.value (csrId ins) = w.core.csr.value (csrId ins) ∧
      csrOperand x.core.rf ins imm = csrOperand w.core.rf ins imm := by
  intro x w
  have hstep := hy.occ.lsWb_of_id hok hv hfl hwait
  obtain ⟨hsys, hset⟩ := settled_run hy.settled is 1
  have hshift (k : Nat) :
      run System.step x (fun k => is (1 + k)) k = run System.step y is (1 + k) :=
    (run_add _ _ _ _ _).symm
  have hw : run System.step x (fun k => is (1 + k)) (m + 2) = w := by
    have hidx : 1 + (m + 2) = 2 + m + 1 := by omega
    rw [hshift, hidx]
  have hwb (k : Nat) (hk : k < m + 2) :
      (run System.step x (fun k => is (1 + k)) k).core.lsWb.data = x.core.lsWb.data ∧
        ((run System.step x (fun k => is (1 + k)) k).core.lsWb.valid = true →
          x.core.lsWb.valid = true) := by
    refine lsWb_run (N := m + 1) ?_ k (by omega)
    intro j hj
    rw [hshift, hshift]
    exact hstep (1 + j) (by omega)
  have hflx (k : Nat) (hk : k < m + 2) :
      (run System.step x (fun k => is (1 + k)) k).core.flush (is (1 + k)) = false := by
    rw [hshift]
    exact hfl _ (by omega)
  -- what leaves MEM in the last cycle shows what is in write-back
  have he : x.core.lsWb.data.exceptEn = false := by
    have hlast := (hwb (m + 1) (by omega)).1
    have hidx : 1 + (m + 1) = 2 + m := by omega
    rw [hshift, hidx] at hlast
    rw [← hlast]
    exact (settled_run hy.settled is (2 + m)).1.not_ecall_of_leave (hfl _ le_rfl) hleave
  have hclear : (x.core.lsWb.data.csrWen && x.core.lsWb.data.csr == CSR_MIP) = false →
      x.core.csr.Cleared := by
    intro hno
    have hx : x.core.lsWb.data = y.core.lsWb.data := (hstep 0 (by omega)).1
    rw [hx] at hno
    exact Csr.cleared_of_not_writes (i := y.core.csrIn (is 0)) hno
  have hsame : x.core.lsWb.data.csrWen = true → x.core.lsWb.data.csr = csrId ins →
      x.core.csr.value (csrId ins) = Csr.written (csrId ins) x.core.lsWb.data.csrDataRes := by
    intro hwen hcsr
    have hinvalid : x.core.lsWb.valid = false :=
      Core.lsWb_valid_of_not_csrHazard hhaz hwen hcsr
    have hval := hset hinvalid hwen (hcsr ▸ hn)
    change x.core.csr.value x.core.lsWb.data.csr = _ at hval
    rwa [hcsr] at hval
  refine ⟨?_, ?_⟩
  · rw [← hw, value_run (fun k hk => (hwb k hk).1) hflx hn he hsame hclear]
  · unfold csrOperand
    cases imm with
    | true => rfl
    | false =>
      have hno (hvx : x.core.lsWb.valid = true) (hrs1 : rs1id ins ≠ 0#5) :
          ((x.core.lsWb.data.rdwen || x.core.lsWb.data.csrToRf) &&
            x.core.lsWb.data.rdid == rs1id ins) = false :=
        Core.not_writes_of_not_csrHazard hhaz hvx hrs1
      rw [← hw]
      exact (read_run (fun k hk => (hwb k hk).1) hflx (fun k hk => (hwb k hk).2) hno).symm

theorem wait_in_wb (is : Nat → AxiIn) {n : Nat} (hv : y.core.lsWb.valid = true)
    (hfl : ∀ k < n, (run System.step y is k).core.flush (is k) = false)
    (hf : ∀ k < n, (run System.step y is k).core.ifReadyAxi (is k) = false) :
    (run System.step y is n).core.lsWb = y.core.lsWb := by
  induction n with
  | zero => rfl
  | succ n ih =>
    have hwb := ih (fun k hk => hfl k (by omega)) fun k hk => hf k (by omega)
    rw [run_succ, step_lsWb_of_wait (by rw [hwb, hv]) (hf n (Nat.lt_succ_self n))
      (hfl n (Nat.lt_succ_self n)), hwb]

/-- Nothing is written back while no fetch completes. -/
theorem rf_of_quiet (is : Nat → AxiIn) {n : Nat}
    (hf : ∀ k < n, (run System.step y is k).core.ifReadyAxi (is k) = false) :
    (run System.step y is n).core.rf = y.core.rf := by
  induction n with
  | zero => rfl
  | succ n ih =>
    rw [run_succ, step_rf_of_quiet (.inl (hf n (Nat.lt_succ_self n))), ih]
    exact fun k hk => hf k (by omega)

end Occ

/-! ## Retirement -/

section

variable {y : System} {i : AxiIn} {ins : Ins} {op : CsrOp} {imm : Bool} {c : Csr} {rf : Regs}
  {csrrci : Word} (hw : Carries y.core.lsWb.data ins c rf csrrci)
  (hop : csrOp ins = some (op, imm)) (hn : writableCsr (csrId ins) = true)
  (hv : y.core.lsWb.valid = true) (hf : y.core.ifReadyAxi i = true)
  (hfl : y.core.flush i = false)

include hw hop hn hf hfl in
/-- The register receives what `exu` merged. -/
theorem retire_value : (y.step i).core.csr.value (csrId ins) &&& csrBits (csrId ins) =
    csrDataRes op.choose (c.read (csrId ins)) (csrOperand rf ins imm) csrrci &&&
      csrBits (csrId ins) := by
  have hwen : csrWen (csrChoose ins) = true := by
    rw [csrChoose_of_csrOp hop]
    cases op <;> rfl
  have hwrite : Csr.writes (y.core.csrIn i) (csrId ins) = true := by
    simp [Csr.writes, Core.csrIn, hw.csrWen, hw.csr, hwen]
  have hecall : y.core.lsWb.data.exceptEn = false := hw.exceptEn.trans (not_trap_of_writable hn)
  have hdata : (y.core.csrIn i).wdata =
      csrDataRes op.choose (c.read (csrId ins)) (csrOperand rf ins imm) csrrci := by
    rw [← csrChoose_of_csrOp hop, ← csrWdata_of_csrOp hop]
    exact hw.csrDataRes
  change (y.core.csr.step (y.core.csrIn i) false).value _ &&& _ = _
  rw [Csr.step_value (quiet_of_not_flush hfl hecall) hn hwrite hf, written_and, hdata]

include hw hop hv hf hfl in
/-- `rd` receives the register as `exu` read it, or keeps its value. -/
theorem retire_read (hrd : rdid ins ≠ 0#5) :
    (y.step i).core.rf.read (rdid ins) =
      if op = .rw then y.core.rf.read (rdid ins) else c.read (csrId ins) := by
  change (y.core.rf.write (y.core.rfWen i) y.core.lsWb.data.rdid y.core.wbuRd).read _ = _
  rw [Regs.read_write, Core.rfWen, Core.wbHs, hv, hf, hfl, hw.rdwen, oRdwen_of_csrOp hop, hw.rdid,
    oRdid_of_csrOp hop, hw.csrToRf, csrChoose_of_csrOp hop, Core.wbuRd, hw.csrToRf,
    csrChoose_of_csrOp hop, hw.csrData]
  cases op <;> simp [CsrOp.choose, csrToRf, hrd, wbu]

end

/-! ## Exactness -/

/-- The registers `c` and `rf` that a CSR instruction finds and `c'` and `rf'` behind it are those
of its meaning. -/
structure CsrMeets (c : Csr) (rf : Regs) (c' : Csr) (rf' : Regs) (ins : Ins) (op : CsrOp)
    (imm : Bool) : Prop where
  rd : rdid ins ≠ 0#5 → rf'.read (rdid ins) = c.value (csrId ins)
  csr : c'.value (csrId ins) &&& csrBits (csrId ins) =
    op.result (c.value (csrId ins)) (csrOperand rf ins imm) &&& csrBits (csrId ins)

/-- When a CSR instruction works that reads the registers as they are. `csrrw` must not have to
change `rd`. `csrrs` and `csrrc` read zero instead of `mscratch`. `csrrc` clears no bit from 5 up,
and its low five bits are those that `csrrci` happens to hold. -/
def csrExact (op : CsrOp) (n : BitVec 12) (old operand : Word) (rd : RegId) (rdOld csrrci : Word) :
    Prop :=
  match op with
  | .rw => rd = 0#5 ∨ rdOld = old
  | .rs => n = CSR_MSCRATCH → (rd = 0#5 ∨ old = 0#64) ∧ old &&& ~~~operand = 0#64
  | .rc => (n = CSR_MSCRATCH → rd = 0#5 ∨ old = 0#64) ∧
      (if n = CSR_MSCRATCH then old &&& ~~~operand else old &&& operand) &&& csrBits n &&&
        ~~~31#64 = 0#64 ∧
      (csrrci ^^^ (old &&& ~~~operand)) &&& 31#64 = 0#64

/-- When one works that reads `seen` and `seenOperand` in their place: these make no difference in
the bits that it decides, and `rd` is not to receive what was not read. -/
def csrStale (op : CsrOp) (n : BitVec 12) (old operand seen seenOperand : Word) (rd : RegId)
    (rdOld csrrci : Word) : Prop :=
  let read := if n = CSR_MSCRATCH then 0#64 else seen
  match op with
  | .rw => (rd = 0#5 ∨ rdOld = old) ∧ (seenOperand ^^^ operand) &&& csrBits n = 0#64
  | .rs => (rd = 0#5 ∨ read = old) ∧
      ((read ||| seenOperand) ^^^ (old ||| operand)) &&& csrBits n = 0#64
  | .rc => (rd = 0#5 ∨ read = old) ∧
      (read ^^^ (old &&& ~~~operand)) &&& csrBits n &&& ~~~31#64 = 0#64 ∧
      (csrrci ^^^ (old &&& ~~~operand)) &&& 31#64 = 0#64

section

variable {op : CsrOp} {n : BitVec 12} {old operand rdOld csrrci : Word} {rd : RegId}

theorem csrBits_low (n : BitVec 12) : csrBits n &&& 31#64 = 31#64 := by
  unfold csrBits
  split_ifs <;> decide

/-- The results by the operation, compared with the meaning. -/
theorem csrStale_iff {seen seenOperand : Word} :
    let read := if n = CSR_MSCRATCH then 0#64 else seen
    (rd ≠ 0#5 → (if op = .rw then rdOld else read) = old) ∧
      csrDataRes op.choose read seenOperand csrrci &&& csrBits n =
        op.result old operand &&& csrBits n ↔
      csrStale op n old operand seen seenOperand rd rdOld csrrci := by
  intro read
  rw [← or_iff_not_imp_left]
  cases op with
  | rw =>
    have hmerge : csrDataRes CsrOp.rw.choose read seenOperand csrrci = seenOperand := rfl
    rw [hmerge, and_eq_and_iff]
    rfl
  | rs =>
    have hmerge : csrDataRes CsrOp.rs.choose read seenOperand csrrci = read ||| seenOperand := rfl
    rw [hmerge, and_eq_and_iff]
    rfl
  | rc =>
    have hmerge : csrDataRes CsrOp.rc.choose read seenOperand csrrci =
        read.extractLsb' 5 59 ++ csrrci.extractLsb' 0 5 := rfl
    rw [hmerge, clearMerge_eq, merge_and_eq_iff (csrBits_low n)]
    rfl

/-- What is read is what there is. -/
theorem csrStale_self :
    csrStale op n old operand old operand rd rdOld csrrci ↔
      csrExact op n old operand rd rdOld csrrci := by
  have hzero : rd = 0#5 ∨ 0#64 = old ↔ rd = 0#5 ∨ old = 0#64 := by rw [eq_comm (a := 0#64)]
  unfold csrStale csrExact
  cases op with
  | rw => simp
  | rs =>
    by_cases hs : n = CSR_MSCRATCH
    · have hall : csrBits CSR_MSCRATCH = BitVec.allOnes 64 := rfl
      simp only [hs, if_true, true_imp_iff, hall, BitVec.and_allOnes, BitVec.zero_or, hzero,
        ← or_eq_or_iff, BitVec.xor_eq_zero_iff]
    · simp [hs]
  | rc =>
    by_cases hs : n = CSR_MSCRATCH
    · simp only [hs, if_true, true_imp_iff, hzero, BitVec.zero_xor]
    · simp [hs, xor_and_not]

end

/-- The cycle in which it retires, against its meaning over the registers `cs` and `rfs` that it
finds. -/
theorem retire_meets {y : System} {i : AxiIn} {ins : Ins} {op : CsrOp} {imm : Bool} {c : Csr}
    {rf rfs : Regs} {csrrci : Word} (cs : Csr) (hw : Carries y.core.lsWb.data ins c rf csrrci)
    (hop : csrOp ins = some (op, imm)) (hn : writableCsr (csrId ins) = true)
    (hv : y.core.lsWb.valid = true) (hf : y.core.ifReadyAxi i = true)
    (hfl : y.core.flush i = false) (hrf : y.core.rf = rfs) :
    CsrMeets cs rfs (y.step i).core.csr (y.step i).core.rf ins op imm ↔
      csrStale op (csrId ins) (cs.value (csrId ins)) (csrOperand rfs ins imm)
        (c.value (csrId ins)) (csrOperand rf ins imm) (rdid ins) (rfs.read (rdid ins)) csrrci := by
  have hval := retire_value hw hop hn hf hfl
  have hread := retire_read hw hop hv hf hfl
  rw [read_eq c hn, hrf] at hread
  rw [read_eq c hn] at hval
  refine Iff.trans ⟨fun h => ⟨?_, hval.symm.trans h.csr⟩, fun h => ⟨?_, hval.trans h.2⟩⟩
    csrStale_iff
  · intro hrd
    exact (hread hrd).trans (h.1 hrd)
  · intro hrd
    exact (hread hrd).symm.trans (h.rd hrd)

/-- **A CSR instruction does what it means exactly if `csrExact` holds of its inputs**, or, if an
older one in write-back is in its way, `csrStale`. It is in ID, `exu` reads the register and the
operand in the next cycle, it leaves MEM in cycle `2 + m`, finds in write-back what all older
instructions leave, and retires, without a flush, in cycle `T`. -/
theorem csr_instruction_iff {y : System} {is : Nat → AxiIn} {m T : Nat} {op : CsrOp} {imm : Bool}
    (hy : y.Reachable) (hok : Admits System.step System.Ok y is T)
    (hid : y.core.ifId.valid = true) (hop : csrOp y.core.ifId.data.ins = some (op, imm))
    (hn : writableCsr (csrId y.core.ifId.data.ins) = true)
    (hmem : ∀ k < m, (run System.step y is (2 + k)).core.memReady (is (2 + k)) = false)
    (hleave : (run System.step y is (2 + m)).core.memReady (is (2 + m)) = true)
    (hT : 2 + m < T)
    (hwait : ∀ k < T, 2 + m < k → (run System.step y is k).core.ifReadyAxi (is k) = false)
    (hretire : (run System.step y is T).core.ifReadyAxi (is T) = true)
    (hfl : ∀ k ≤ T, (run System.step y is k).core.flush (is k) = false) :
    let ins := y.core.ifId.data.ins
    let n := csrId ins
    let x := run System.step y is 1
    let w := run System.step y is (2 + m + 1)
    let z := run System.step y is T
    CsrMeets w.core.csr w.core.rf (z.step (is T)).core.csr (z.step (is T)).core.rf ins op imm ↔
      if x.core.csrHazard ins imm then
        csrStale op n (w.core.csr.value n) (csrOperand w.core.rf ins imm) (x.core.csr.value n)
          (csrOperand x.core.rf ins imm) (rdid ins) (w.core.rf.read (rdid ins)) y.core.csrrci
      else
        csrExact op n (w.core.csr.value n) (csrOperand w.core.rf ins imm) (rdid ins)
          (w.core.rf.read (rdid ins)) y.core.csrrci := by
  intro ins n x w z
  have hacc : visitAxi ins = false := by
    have hcsr : opcode ins = TYPE_CSR := by simpa [isCsr] using isCsr_of_csrOp hop
    simp [visitAxi, oLsuLden, oLsuSten, hcsr, TYPE_CSR, TYPE_I_LOAD, TYPE_S]
  obtain ⟨hv, hw⟩ := hy.occ.carries_of_id (hok.mono (by omega)) hid hacc
    (fun k hk => hfl k (by omega)) hmem hleave
  -- the wait for the fetch that retires it
  have hshift (k : Nat) : run System.step w (fun j => is (2 + m + 1 + j)) k =
      run System.step y is (2 + m + 1 + k) := (run_add _ _ _ _ _).symm
  obtain ⟨j, rfl⟩ := Nat.exists_eq_add_of_lt hT
  have hidx : 2 + m + 1 + j = 2 + m + j + 1 := by omega
  have hquiet (k : Nat) (hk : k < j) :
      (run System.step w (fun j => is (2 + m + 1 + j)) k).core.ifReadyAxi (is (2 + m + 1 + k)) =
        false := by
    rw [hshift]
    exact hwait _ (by omega) (by omega)
  have hstay := Occ.wait_in_wb (fun j => is (2 + m + 1 + j)) (n := j) hv
    (fun k hk => by rw [hshift]; exact hfl _ (by omega)) hquiet
  have hrf := Occ.rf_of_quiet (fun j => is (2 + m + 1 + j)) hquiet
  rw [hshift, hidx] at hstay hrf
  have hwz : Carries z.core.lsWb.data ins x.core.csr x.core.rf y.core.csrrci := hstay ▸ hw
  have hvz : z.core.lsWb.valid = true := hstay ▸ hv
  have hflz := hfl (2 + m + j + 1) le_rfl
  have hmeets := retire_meets w.core.csr hwz hop hn hvz hretire hflz hrf
  rw [hmeets]
  cases hhaz : x.core.csrHazard ins imm with
  | true => rfl
  | false =>
    obtain ⟨hseen, hoperand⟩ := Occ.seen_of_not_hazard hy (hok.mono (by omega)) hid hn
      (fun k hk => hfl k (by omega)) hmem hleave hhaz
    rw [if_neg Bool.false_ne_true, ← csrStale_self]
    change csrStale op n _ _ (x.core.csr.value n) (csrOperand x.core.rf ins imm) _ _ _ ↔ _
    rw [hseen, hoperand]

/-- One instruction with `addi x0, x0, 0` behind it, and 0x1800 in every register but `x0`. -/
def csrProgram (ins : Ins) : System :=
  System.boot true (fun _ => 0x1800#64) 0#4 0#4 (Mem.image [0x13#32 ++ ins, 0x1300000013#64])

/-- Eight cycles after it enters ID in cycle 17, the instruction has retired. -/
def csrStart (ins : Ins) : System := System.driven (csrProgram ins) slowReads 17

def csrInputs (ins : Ins) : Nat → AxiIn := System.inputs (csrStart ins) fun k => slowReads (k + 1)

theorem csrStart_reachable (ins : Ins) : (csrStart ins).Reachable :=
  System.reachable_driven (System.afterReset_boot _ _ _ _ _) _ _

/-- `csrrs x5, mie, x6` puts the old value into `x5` and sets the bits of `x6`. -/
theorem csr_instruction_iff_csrrs :
    let y := csrStart 0x304322f3#32
    let is := csrInputs 0x304322f3#32
    let w := run System.step y is 3
    let z := run System.step y is 7
    y.core.ifId.data.ins = 0x304322f3#32 ∧
      CsrMeets w.core.csr w.core.rf (z.step (is 7)).core.csr (z.step (is 7)).core.rf
        y.core.ifId.data.ins .rs false :=
  ⟨by decide +kernel, (csr_instruction_iff (m := 0) (csrStart_reachable _)
    (System.admits_inputs _ _ _) (by decide +kernel) (by decide +kernel) (by decide +kernel)
    (by decide +kernel) (by decide +kernel) (by decide) (by decide +kernel) (by decide +kernel)
    (by decide +kernel)).2 (by
      rw [if_neg (by decide +kernel)]
      unfold csrExact
      decide +kernel)⟩

/-- `addi x6, x0, 128` and `csrrw x0, mie, x6`, with 0x1800 in `x6` before. -/
def hazardProgram : System :=
  System.boot true (fun _ => 0x1800#64) 0#4 0#4
    (Mem.image [0x3043107308000313#64, 0x1300000013#64, 0x1300000013#64])

/-- `csrrw x5, mstatus, x6` leaves `x5` alone, and `csrrc x5, mstatus, x6` clears nothing. Both
retire in the last of the eight cycles. Without wait states `csrrw x0, mie, x6` finds the `addi` in
write-back and writes what `x6` held before that. -/
theorem csr_instruction_fails :
    let y := csrStart 0x300312f3#32
    let z := run System.step y (csrInputs 0x300312f3#32)
    let y' := csrStart 0x300332f3#32
    let z' := run System.step y' (csrInputs 0x300332f3#32)
    let c := System.driven hazardProgram noWait
    (y.Reachable ∧ y.core.ifId.valid = true ∧ csrOp y.core.ifId.data.ins = some (.rw, false) ∧
      (z 7).core.wbHs (csrInputs 0x300312f3#32 7) = true ∧
      (z 7).core.flush (csrInputs 0x300312f3#32 7) = false ∧
      y.core.csr.value CSR_MSTATUS = 0x1808#64 ∧ (z 8).core.rf.read 5#5 = 0x1800#64) ∧
    (y'.Reachable ∧ y'.core.ifId.valid = true ∧ csrOp y'.core.ifId.data.ins = some (.rc, false) ∧
      (z' 7).core.wbHs (csrInputs 0x300332f3#32 7) = true ∧
      (z' 7).core.flush (csrInputs 0x300332f3#32 7) = false ∧
      y'.core.csr.value CSR_MSTATUS = 0x1808#64 ∧ y'.core.rf.read 6#5 = 0x1800#64 ∧
      (z' 8).core.csr.value CSR_MSTATUS = 0x1800#64) ∧
    (c 10).Reachable ∧ (c 10).core.ifId.valid = true ∧
      csrOp (c 10).core.ifId.data.ins = some (.rw, false) ∧
      (c 11).core.csrHazard (c 10).core.ifId.data.ins false = true ∧
      (c 13).core.rf.read 6#5 = 128#64 ∧
      (c 15).core.wbHs ((c 15).slave.drive (noWait 15)) = true ∧
      (c 15).core.flush ((c 15).slave.drive (noWait 15)) = false ∧
      (c 16).core.csr.value CSR_MIE = 0x1800#64 :=
  ⟨⟨csrStart_reachable _, by decide +kernel⟩, ⟨csrStart_reachable _, by decide +kernel⟩,
    System.reachable_driven (System.afterReset_boot _ _ _ _ _) _ _, by decide +kernel⟩

end Oscpu.Axi
