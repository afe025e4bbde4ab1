import Oscpu.Axi.Access

/-!
# Stores to the registers of `clint`

`lsu` decodes the write enables of `mtime` and `mtimecmp` from EX/MEM, whose data stays until the
next instruction arrives there, and it hands every load and store to the bus, whatever its address.
So `mtime` is set in at least two cycles, `mtimecmp` is set to the value that it has already, and
the bus sees both.
-/

namespace Oscpu.Axi

open Oscpu.Rtl Oscpu.Lib

namespace System

variable (y : System) (i : AxiIn)

/-- An instruction goes from EX to MEM. -/
def entersMem : Bool := y.core.idEx.valid && y.core.exReady i && !y.core.flush i

/-- The value of a store to the register at `reg` that goes to MEM. -/
def storeEnters (reg : Word) : Option Word :=
  if y.entersMem i && y.core.idEx.data.sten && y.core.exuExres == reg then some (y.core.exuRs2 i)
  else none

/-- A load or store to one of the two registers goes to MEM. -/
def clintEnters : Bool :=
  y.entersMem i && (y.core.idEx.data.lden || y.core.idEx.data.sten) &&
    (y.core.exuExres == MTIME || y.core.exuExres == MTIMECMP)

/-- A load or store to one of the two registers offers its address to the slave. -/
def clintOnBus : Bool :=
  y.core.axiSigMem && (y.core.exLs.data.exres == MTIME || y.core.exLs.data.exres == MTIMECMP) &&
    (y.core.out.arValid || y.core.out.awValid)

/-- The value of a store to `reg` whose first cycle in MEM is cycle `k` of the run. -/
def stored (y : System) (is : Nat → AxiIn) (reg : Word) : Nat → Option Word
  | 0 => none
  | k + 1 => (run step y is k).storeEnters (is k) reg

end System

/-- What cycle `k` does to the registers of `clint`: a store is taken in one cycle, and the bus is
left alone. -/
structure ClintCycle (y : System) (is : Nat → AxiIn) (k : Nat) : Prop where
  mtime : (run System.step y is (k + 1)).core.clint.mtime =
    (y.stored is MTIME k).getD ((run System.step y is k).core.clint.mtime + 1#64)
  mtimecmp : (run System.step y is (k + 1)).core.clint.mtimecmp =
    (y.stored is MTIMECMP k).getD (run System.step y is k).core.clint.mtimecmp
  bus : (run System.step y is k).clintOnBus = false

/-! ## One edge -/

namespace System

variable {y : System} {i : AxiIn} {reg v : Word}

theorem step_mtime : (y.step i).core.clint.mtime =
    if y.core.mtimeEn then y.core.exLs.data.rs2 else y.core.clint.mtime + 1#64 := rfl

theorem step_mtimecmp : (y.step i).core.clint.mtimecmp =
    if y.core.mtimecmpEn then y.core.exLs.data.rs2 else y.core.clint.mtimecmp := rfl

theorem step_exLs_data : (y.step i).core.exLs.data =
    if y.entersMem i || y.core.flush i then y.core.toExLs i else y.core.exLs.data := by
  change (y.core.step false i).exLs.data = _
  rw [Core.step_exLs_data, entersMem]
  cases y.core.flush i <;> simp

theorem exLs_of_storeEnters (h : y.storeEnters i reg = some v) :
    (y.step i).core.exLs.data.sten = true ∧ (y.step i).core.exLs.data.exres = reg ∧
      (y.step i).core.exLs.data.rs2 = v := by
  unfold storeEnters at h
  split at h
  · rename_i hc
    simp only [Bool.and_eq_true, beq_iff_eq, entersMem, Bool.not_eq_true'] at hc
    obtain ⟨⟨⟨⟨hex, hr⟩, hfl⟩, hst⟩, ha⟩ := hc
    have hdata : (y.step i).core.exLs.data = y.core.toExLs i := by
      rw [step_exLs_data, entersMem, hex, hr, hfl]
      rfl
    rw [hdata]
    simp only [Core.toExLs, hfl, Bool.false_eq_true, if_false]
    exact ⟨hst, ha, Option.some.inj h⟩
  · cases h

/-- A store in EX/MEM has come there in this cycle or was there before. -/
theorem store_cases (hs : (y.step i).core.exLs.data.sten = true)
    (ha : (y.step i).core.exLs.data.exres = reg) :
    y.storeEnters i reg = some (y.step i).core.exLs.data.rs2 ∨
      y.storeEnters i reg = none ∧ (y.step i).core.exLs.data = y.core.exLs.data := by
  rw [step_exLs_data] at hs ha ⊢
  cases hfl : y.core.flush i with
  | true => simp [hfl, Core.toExLs, ExLs.zero] at hs
  | false =>
    cases hin : y.entersMem i with
    | true =>
      simp only [hin, hfl, Bool.true_or, if_true, Core.toExLs, Bool.false_eq_true, if_false]
        at hs ha ⊢
      exact .inl (by simp [storeEnters, hin, hs, ha])
    | false => exact .inr ⟨by simp [storeEnters, hin], rfl⟩

end System

/-! ## Runs -/

section

variable {y : System} {is : Nat → AxiIn}

theorem exLs_of_stored {reg v : Word} {k : Nat} (h : y.stored is reg k = some v) :
    (run System.step y is k).core.exLs.data.sten = true ∧
      (run System.step y is k).core.exLs.data.exres = reg ∧
        (run System.step y is k).core.exLs.data.rs2 = v := by
  cases k with
  | zero => cases h
  | succ k => exact System.exLs_of_storeEnters h

variable (h₀ : y.AfterReset)
include h₀

/-- A store to `mtimecmp` that stays in EX/MEM has been taken already. -/
theorem mtimecmp_of_stale (k : Nat) (hs : (run System.step y is k).core.exLs.data.sten = true)
    (ha : (run System.step y is k).core.exLs.data.exres = MTIMECMP) :
    y.stored is MTIMECMP k = some (run System.step y is k).core.exLs.data.rs2 ∨
      y.stored is MTIMECMP k = none ∧ (run System.step y is k).core.clint.mtimecmp =
        (run System.step y is k).core.exLs.data.rs2 := by
  cases k with
  | zero =>
    rw [run_zero, h₀.core.exLs] at hs
    cases hs
  | succ k =>
    rw [run_succ] at hs ha ⊢
    refine (System.store_cases hs ha).imp_right fun ⟨hnone, hdata⟩ => ⟨hnone, ?_⟩
    rw [hdata] at hs ha
    have hen : (run System.step y is k).core.mtimecmpEn = true := by
      simp [Core.mtimecmpEn, hs, ha]
    rw [System.step_mtimecmp, hen, if_pos rfl, hdata]

/-- **`mtimecmp` changes in one cycle of a store only**, in every run. -/
theorem mtimecmp_cycle (k : Nat) : (run System.step y is (k + 1)).core.clint.mtimecmp =
    (y.stored is MTIMECMP k).getD (run System.step y is k).core.clint.mtimecmp := by
  rw [run_succ, System.step_mtimecmp]
  cases hen : (run System.step y is k).core.mtimecmpEn with
  | true =>
    simp only [Core.mtimecmpEn, Bool.and_eq_true, beq_iff_eq] at hen
    rcases mtimecmp_of_stale h₀ k hen.1 hen.2 with h | ⟨h, heq⟩ <;> rw [h]
    · rfl
    · exact heq.symm
  | false =>
    cases hst : y.stored is MTIMECMP k with
    | none => rfl
    | some v =>
      obtain ⟨hs, ha, -⟩ := exLs_of_stored hst
      simp [Core.mtimecmpEn, hs, ha] at hen

theorem no_clint_access {n : Nat}
    (hcond : Admits System.step (fun y i => y.clintEnters i = false) y is n) {k : Nat}
    (hk : k ≤ n) :
    let m := (run System.step y is k).core.exLs.data
    (m.lden || m.sten) = true → m.exres ≠ MTIME ∧ m.exres ≠ MTIMECMP := by
  induction k with
  | zero =>
    rw [run_zero, h₀.core.exLs]
    simp [ExLs.zero]
  | succ k ih =>
    intro m hacc
    have hc := hcond k hk
    have hm : m = (run System.step y is (k + 1)).core.exLs.data := rfl
    rw [run_succ, System.step_exLs_data] at hm
    rw [hm] at hacc ⊢
    cases hfl : (run System.step y is k).core.flush (is k) with
    | true => simp [hfl, Core.toExLs, ExLs.zero] at hacc
    | false =>
      cases hin : (run System.step y is k).entersMem (is k) with
      | false =>
        simp only [hin, hfl, Bool.or_self, Bool.false_eq_true, if_false] at hacc ⊢
        exact ih (Nat.le_of_succ_le hk) hacc
      | true =>
        simp only [hin, hfl, Bool.true_or, if_true, Core.toExLs, Bool.false_eq_true, if_false]
          at hacc ⊢
        simpa [System.clintEnters, hin, hacc] using hc

/-- **Stores to the registers of `clint`.** In every run in which no load or store goes to one of
the two registers, `mtime` counts the cycles, `mtimecmp` stays, and the bus sees neither address. -/
theorem clint_registers {n : Nat}
    (hcond : Admits System.step (fun y i => y.clintEnters i = false) y is n) :
    ∀ k < n, ClintCycle y is k := by
  intro k hk
  have hno := no_clint_access h₀ hcond (Nat.le_of_lt hk)
  refine ⟨?_, mtimecmp_cycle h₀ k, ?_⟩
  · have hen : (run System.step y is k).core.mtimeEn = false := by
      by_contra h
      simp only [Core.mtimeEn, Bool.not_eq_false, Bool.and_eq_true, beq_iff_eq] at h
      exact (hno (by simp [h.1])).1 h.2
    have hst : y.stored is MTIME k = none := by
      cases hst : y.stored is MTIME k with
      | none => rfl
      | some v =>
        obtain ⟨hs, ha, -⟩ := exLs_of_stored hst
        exact absurd ha (hno (by simp [hs])).1
    rw [run_succ, System.step_mtime, hen, hst]
    rfl
  · by_contra h
    simp only [System.clintOnBus, Core.axiSigMem, Bool.not_eq_false, Bool.and_eq_true,
      Bool.or_eq_true, beq_iff_eq] at h
    obtain ⟨⟨⟨-, hacc⟩, ha⟩, -⟩ := h
    obtain ⟨h1, h2⟩ := hno (by simpa using hacc)
    exact ha.elim h1 h2

/-! ### Every store to `mtime` is taken twice -/

theorem exists_stored {reg : Word} (k : Nat)
    (hs : (run System.step y is k).core.exLs.data.sten = true)
    (ha : (run System.step y is k).core.exLs.data.exres = reg) :
    ∃ j ≤ k, y.stored is reg j = some (run System.step y is k).core.exLs.data.rs2 := by
  induction k with
  | zero =>
    rw [run_zero, h₀.core.exLs] at hs
    cases hs
  | succ k ih =>
    rw [run_succ] at hs ha ⊢
    rcases System.store_cases hs ha with h | ⟨-, hdata⟩
    · exact ⟨k + 1, le_rfl, h⟩
    · rw [hdata] at hs ha ⊢
      obtain ⟨j, hj, h⟩ := ih hs ha
      exact ⟨j, Nat.le_succ_of_le hj, h⟩

end

/-- The cycle after a store has entered MEM finds it there still. -/
theorem Occ.store_stays {y : System} {i j : AxiIn} {reg v : Word} (ho : Occ y) (hi : y.Ok i)
    (h : y.storeEnters i reg = some v) :
    ((y.step i).step j).core.exLs.data = (y.step i).core.exLs.data ∧
      (y.step i).storeEnters j reg = none := by
  have hex : y.core.idEx.valid = true := by
    unfold System.storeEnters System.entersMem at h
    split at h
    · rename_i hc
      simp only [Bool.and_eq_true] at hc
      exact hc.1.1.1.1
    · cases h
  have hmem := ho.step_mem_of_ex (i := i) hex
  have hid := (ho.step hi).not_ex_of_mem hmem
  have hsig : (y.step i).core.axiSigMem = true := by
    simp [Core.axiSigMem, hmem, (System.exLs_of_storeEnters h).1]
  have hfl := (ho.step hi).not_flush_of_sigMem (i := j) hsig
  have hin : (y.step i).entersMem j = false := by simp [System.entersMem, hid]
  refine ⟨?_, by simp [System.storeEnters, hin]⟩
  rw [System.step_exLs_data, hin, hfl]
  rfl

/-- A store to `mtime` sets it in two cycles, so that it stands still between them. -/
theorem mtime_of_storeEnters {y : System} {i j l : AxiIn} {v : Word} (ho : Occ y) (hi : y.Ok i)
    (h : y.storeEnters i MTIME = some v) :
    ((y.step i).step j).core.clint.mtime = v ∧ (((y.step i).step j).step l).core.clint.mtime = v := by
  have hset {c : System} {k : AxiIn} (hs : c.core.exLs.data.sten = true)
      (ha : c.core.exLs.data.exres = MTIME) :
      (c.step k).core.clint.mtime = c.core.exLs.data.rs2 := by
    rw [System.step_mtime, if_pos (by simp [Core.mtimeEn, hs, ha])]
  obtain ⟨hs, ha, hv⟩ := System.exLs_of_storeEnters h
  refine ⟨(hset hs ha).trans hv, ?_⟩
  rw [← (ho.store_stays (j := j) hi h).1] at hs ha hv
  exact (hset hs ha).trans hv

/-- In a run `mtime` takes each store to it once exactly if there is no store to it, but for one that
enters MEM in the last two cycles. -/
theorem mtime_cycles_iff {y : System} {is : Nat → AxiIn} {n : Nat} (h₀ : y.AfterReset)
    (hok : Admits System.step System.Ok y is n) :
    (∀ k < n, (run System.step y is (k + 1)).core.clint.mtime =
        (y.stored is MTIME k).getD ((run System.step y is k).core.clint.mtime + 1#64)) ↔
      ∀ k, k + 2 < n → (run System.step y is k).storeEnters (is k) MTIME = none := by
  constructor
  · intro hall k hk
    cases hst : (run System.step y is k).storeEnters (is k) MTIME with
    | none => rfl
    | some v =>
      have ho : Occ (run System.step y is k) :=
        System.Reachable.occ ⟨y, is, k, h₀, hok.mono (by omega), rfl⟩
      obtain ⟨h2, h3⟩ := mtime_of_storeEnters (j := is (k + 1)) (l := is (k + 2)) ho
        (hok k (by omega)) hst
      have hnone : y.stored is MTIME (k + 2) = none :=
        (ho.store_stays (j := is (k + 1)) (hok k (by omega)) hst).2
      have hfail := hall (k + 2) hk
      rw [hnone, Option.getD_none] at hfail
      have hne : v ≠ v + 1#64 := by
        intro heq
        have hzero := BitVec.self_eq_add_right.1 heq
        exact absurd hzero (by decide)
      exact absurd (h3.symm.trans (hfail.trans (congrArg (· + 1#64) h2))) hne
  · intro hno k hk
    rw [run_succ, System.step_mtime]
    cases hen : (run System.step y is k).core.mtimeEn with
    | true =>
      simp only [Core.mtimeEn, Bool.and_eq_true, beq_iff_eq] at hen
      obtain ⟨j, hjk, hj⟩ := exists_stored h₀ k hen.1 hen.2
      rcases Nat.lt_or_eq_of_le hjk with hlt | rfl
      · cases j with
        | zero => cases hj
        | succ j => exact absurd (hj.symm.trans (hno j (by omega))) (by simp)
      · rw [hj]
        rfl
    | false =>
      cases hst : y.stored is MTIME k with
      | none => rfl
      | some v =>
        obtain ⟨hs, ha, -⟩ := exLs_of_stored hst
        simp [Core.mtimeEn, hs, ha] at hen

/-! ## A store to `mtime` -/

/-- `addi x0, x0, 0` and `sd x5, 0(x6)` with the address of `mtime` in `x6`. -/
def mtimeProgram : System :=
  System.boot false (fun r => if r = 6#5 then MTIME else 0x1234#64) 0#4 0#4
    (Mem.image [0x0053302300000013#64, 0x1300000013#64])

theorem mtimeProgram_afterReset : mtimeProgram.AfterReset := System.afterReset_boot _ _ _ _ _

/-- Before its store, the program meets the condition. -/
theorem clint_registers_before :
    ClintCycle mtimeProgram (System.inputs mtimeProgram noWait) 10 := by
  have hcond : Admits System.step (fun y i => y.clintEnters i = false) mtimeProgram
      (System.inputs mtimeProgram noWait) 11 := by
    unfold Admits
    decide +kernel
  exact clint_registers mtimeProgram_afterReset hcond 10 (by decide)

/-- One store sets `mtime` in one cycle and again in the next, is offered to the slave, and changes
the memory. -/
theorem clint_registers_fails :
    let c := System.driven mtimeProgram noWait
    mtimeProgram.AfterReset ∧
      (c 11).storeEnters ((c 11).slave.drive (noWait 11)) MTIME = some 0x1234#64 ∧
      (c 13).core.clint.mtime = 0x1234#64 ∧ (c 14).core.clint.mtime = 0x1234#64 ∧
      ¬ ClintCycle mtimeProgram (System.inputs mtimeProgram noWait) 13 ∧
      (c 13).clintOnBus = true ∧ (c 0).slave.mem (Mem.wordIdx MTIME) = 0#64 ∧
      (c 15).slave.mem (Mem.wordIdx MTIME) = 0x1234#64 := by
  refine ⟨mtimeProgram_afterReset, by decide +kernel, by decide +kernel, by decide +kernel,
    ?_, by decide +kernel, by decide +kernel, by decide +kernel⟩
  intro h
  exact absurd h.mtime (by decide +kernel)

end Oscpu.Axi
