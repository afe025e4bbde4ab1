import Oscpu.Axi.Trap

/-!
# Character output

`exu` registers whether the word in ID/EX is `0x7b`, without the valid bit: the word stays until the
next instruction arrives, which takes two cycles at least. `wbu` gives the low byte of the result in
write-back, whichever instruction that belongs to. So every `0x7b` that reaches EX raises
`io_uart_out_valid` more than once.
-/

namespace Oscpu.Axi

open Oscpu.Rtl Oscpu.Lib

/-- `serial_ch`, which is `io_uart_out_ch`. -/
def Core.serialCh (s : Core) : BitVec 8 := s.wbuRd.extractLsb' 0 8

namespace System

variable (y : System) (is : Nat → AxiIn)

/-- A `0x7b` is in EX. -/
def charInEx : Bool := y.core.idEx.valid && y.core.idEx.data.ins == 0x7b#32

/-- `x10` as the instructions before the one in EX leave it. -/
def a0InEx : Word :=
  let w := y.core.lsWb
  if w.valid && (w.data.rdwen || w.data.csrToRf) && w.data.rdid == 10#5 then y.core.wbuRd
  else y.core.rf.read 10#5

/-- The instruction that is in EX in cycle `k` goes through MEM and write-back without a flush. -/
def Retires (k : Nat) : Prop :=
  let c := run step y is
  let leaves (j : Nat) : Bool := (c j).core.memValid (is j) && (c j).core.memReady (is j)
  ∃ m r, k < m ∧ m < r ∧ leaves m = true ∧ (∀ j, k < j → j < m → leaves j = false) ∧
    (c r).core.wbHs (is r) = true ∧ (∀ j, m < j → j < r → (c j).core.wbHs (is j) = false) ∧
      ∀ j, k ≤ j → j ≤ r → (c j).core.flush (is j) = false

/-- A `0x7b` that is executed is in EX in cycle `k`. -/
def Executes (k : Nat) : Prop := (run step y is k).charInEx = true ∧ y.Retires is k

/-- Every executed `0x7b` has a cycle of its own in which `io_uart_out_valid` is raised, with the
low byte of its `x10`, and it is raised in no other cycle. -/
def UartOk : Prop :=
  ∃ out : Nat → Nat,
    (∀ k, y.Executes is k → k ≤ out k ∧ (run step y is (out k)).core.serialValid = true ∧
      (run step y is (out k)).core.serialCh = (run step y is k).a0InEx.extractLsb' 0 8) ∧
    (∀ k k', y.Executes is k → y.Executes is k' → out k = out k' → k = k') ∧
    ∀ c, 0 < c → (run step y is c).core.serialValid = true → ∃ k, y.Executes is k ∧ out k = c

theorem not_charInEx {y : System} (h : y.core.idEx.valid = false) : y.charInEx = false := by
  simp [charInEx, h]

theorem step_serialValid (y : System) (i : AxiIn) :
    (y.step i).core.serialValid = (y.core.idEx.data.ins == 0x7b#32) := rfl

end System

namespace Occ

variable {y : System} {i j : AxiIn}

theorem not_flush_of_ex (h : Occ y) (hi : y.Ok i) (he : (y.step i).core.idEx.valid = true) :
    (y.step i).core.flush j = false := by
  have hready := ((h.step hi).ex he).2
  have hf : (y.step i).core.ifReadyAxi j = false := by simp [Core.ifReadyAxi, hready]
  rw [flush_of_not_fetch hf]
  by_contra hm
  obtain ⟨-, hv⟩ := leave_of_step_mret (Bool.eq_true_of_not_eq_false hm)
  rw [h.step_ex, h.not_id_of_mem hv] at he
  exact Bool.false_ne_true he

/-- The word in EX stays for a second cycle, in which EX is empty. -/
theorem step_ins_of_ex (h : Occ y) (hi : y.Ok i) (he : (y.step i).core.idEx.valid = true) :
    ((y.step i).step j).core.idEx.data = (y.step i).core.idEx.data ∧
      ((y.step i).step j).core.idEx.valid = false := by
  have hid := (h.step hi).not_id_of_ex he
  refine ⟨step_idEx_of_quiet hid (h.not_flush_of_ex hi he), ?_⟩
  rw [(h.step hi).step_ex, hid]

theorem not_ex_third (h : Occ y) (hi : y.Ok j) (he : y.core.idEx.valid = true) :
    ((y.step j).step i).core.idEx.valid = false := by
  rw [(h.step hi).step_ex, h.step_id]
  simp [Core.ifReadyAxi, (h.ex he).2]

end Occ

section

variable {y : System} {is : Nat → AxiIn} (h₀ : y.AfterReset)
include h₀

theorem exists_charInEx (k : Nat) (hk : (run System.step y is k).core.idEx.data.ins = 0x7b#32) :
    ∃ j ≤ k, (run System.step y is j).charInEx = true := by
  induction k with
  | zero =>
    rw [run_zero, h₀.core.idEx] at hk
    exact absurd hk (by decide)
  | succ k ih =>
    rw [run_succ] at hk
    generalize hc : run System.step y is k = c at *
    have hdata : (c.step (is k)).core.idEx.data =
        if c.core.ifId.valid && c.core.idReady (is k) || c.core.flush (is k) then
          c.core.toIdEx (is k) else c.core.idEx.data := Core.step_idEx_data _ _
    rw [hdata] at hk
    cases hfl : c.core.flush (is k) with
    | true =>
      rw [hfl, Bool.or_true, if_pos rfl] at hk
      simp [Core.toIdEx, hfl, IdEx.zero] at hk
    | false =>
      rw [hfl, Bool.or_false] at hk
      split at hk
      · -- the word comes with its instruction
        rename_i hin
        refine ⟨k + 1, le_rfl, ?_⟩
        rw [run_succ, hc]
        simp only [Bool.and_eq_true] at hin
        have hv : (c.step (is k)).core.idEx.valid = true := by
          change (c.core.step false (is k)).idEx.valid = true
          rw [Core.step_idEx_valid, hin.2, if_pos rfl, hin.1]
        simp [System.charInEx, hv, hdata, hin.1, hin.2, hk]
      · obtain ⟨j, hj, h⟩ := ih hk
        exact ⟨j, Nat.le_succ_of_le hj, h⟩

variable (hok : ∀ k, (run System.step y is k).Ok (is k))
include hok

theorem occ_run (k : Nat) : Occ (run System.step y is k) :=
  System.Reachable.occ ⟨y, is, k, h₀, fun j _ => hok j, rfl⟩

/-- A `0x7b` in EX raises the output in the next two cycles, and no other is in EX in these. -/
theorem serialValid_of_charInEx {k : Nat} (hk : (run System.step y is k).charInEx = true) :
    (run System.step y is (k + 1)).core.serialValid = true ∧
      (run System.step y is (k + 2)).core.serialValid = true ∧
      (run System.step y is (k + 1)).charInEx = false ∧
      (run System.step y is (k + 2)).charInEx = false := by
  simp only [System.charInEx, Bool.and_eq_true, beq_iff_eq] at hk
  obtain ⟨hv, hins⟩ := hk
  cases k with
  | zero =>
    rw [run_zero, h₀.core.idEx] at hv
    cases hv
  | succ k =>
    have ho := occ_run h₀ hok k
    obtain ⟨hdata, hempty⟩ := ho.step_ins_of_ex (j := is (k + 1)) (hok k) hv
    have hins' : (run System.step y is (k + 2)).core.idEx.data.ins = 0x7b#32 := by
      rw [run_succ, run_succ, hdata]
      exact hins
    have hthird : (run System.step y is (k + 3)).core.idEx.valid = false :=
      (occ_run h₀ hok (k + 1)).not_ex_third (hok (k + 1)) hv
    refine ⟨?_, ?_, ?_, ?_⟩
    · rw [run_succ, System.step_serialValid, hins]
      rfl
    · rw [run_succ, System.step_serialValid, hins']
      rfl
    · exact System.not_charInEx hempty
    · exact System.not_charInEx hthird

theorem not_uartOk_of_charInEx {k : Nat} (hk : (run System.step y is k).charInEx = true) :
    ¬ y.UartOk is := by
  rintro ⟨out, hout, -, honly⟩
  -- the first `0x7b` that comes to EX
  obtain ⟨f, -, hf, hfirst⟩ := exists_first (Q := fun j => (run System.step y is j).charInEx = true)
    ⟨k, Nat.zero_le k, hk⟩
  obtain ⟨hp1, hp2, hno1, hno2⟩ := serialValid_of_charInEx h₀ hok hf
  have hsource (j : Nat) (he : y.Executes is j) (hle : out j ≤ f + 2) : j = f := by
    have hj : j ≤ f + 2 := (hout j he).1.trans hle
    have hge : f ≤ j := Nat.le_of_not_lt fun hlt => hfirst j (Nat.zero_le j) hlt he.1
    have hne1 : j ≠ f + 1 := by
      rintro rfl
      exact absurd (hno1.symm.trans he.1) (by decide)
    have hne2 : j ≠ f + 2 := by
      rintro rfl
      exact absurd (hno2.symm.trans he.1) (by decide)
    omega
  obtain ⟨j, hj, hj1⟩ := honly (f + 1) (by omega) hp1
  obtain ⟨j', hj', hj2⟩ := honly (f + 2) (by omega) hp2
  have h1 := hsource j hj (by omega)
  have h2 := hsource j' hj' (by omega)
  rw [h1] at hj1
  rw [h2] at hj2
  omega

/-- **Character output.** It is right exactly in the runs in which no `0x7b` reaches EX. -/
theorem uartOk_iff : y.UartOk is ↔ ∀ k, (run System.step y is k).charInEx = false := by
  constructor
  · intro hu k
    by_contra hk
    exact not_uartOk_of_charInEx h₀ hok (Bool.eq_true_of_not_eq_false hk) hu
  · intro hno
    have hexec (k : Nat) : ¬ y.Executes is k := fun he =>
      absurd ((hno k).symm.trans he.1) (by decide)
    refine ⟨id, fun k he => absurd he (hexec k), fun k _ he => absurd he (hexec k), ?_⟩
    intro c hc hv
    obtain ⟨c, rfl⟩ : ∃ c', c = c' + 1 := ⟨c - 1, by omega⟩
    rw [run_succ, System.step_serialValid, beq_iff_eq] at hv
    obtain ⟨j, -, hj⟩ := exists_charInEx h₀ c hv
    exact absurd ((hno j).symm.trans hj) (by decide)

end

/-- `addi x0, x0, 0`, `addi x10, x0, 65` and `0x7b`. -/
def charProgram : System :=
  System.boot false (fun _ => 0#64) 0#4 0#4
    (Mem.image [0x0410051300000013#64, 0x000000130000007b#64, 0x1300000013#64])

theorem charProgram_afterReset : charProgram.AfterReset := System.afterReset_boot _ _ _ _ _

theorem charProgram_ok (c : Nat → Slave.Timing) (k : Nat) :
    (run System.step charProgram (System.inputs charProgram c) k).Ok
      (System.inputs charProgram c k) :=
  System.admits_inputs _ _ (k + 1) k (Nat.lt_succ_self k)

/-- The `0x7b` is in EX in cycle 34. -/
theorem uartOk_iff_slowReads : ¬ charProgram.UartOk (System.inputs charProgram slowReads) := by
  intro hu
  have hno := (uartOk_iff charProgram_afterReset (charProgram_ok slowReads)).1 hu 34
  rw [System.run_inputs] at hno
  exact absurd hno (by decide +kernel)

/-- The one `0x7b` raises the output in eight cycles, and the `A` is there in the first only. -/
theorem uartOk_fails :
    let c := System.driven charProgram slowReads
    (c 34).charInEx = true ∧ (c 34).a0InEx = 65#64 ∧
      (∀ k < 48, (c k).core.serialValid = decide (35 ≤ k ∧ k ≤ 42)) ∧
      (c 35).core.serialCh = 65#8 ∧ (c 36).core.serialCh = 0#8 ∧
      ¬ charProgram.UartOk (System.inputs charProgram slowReads) := by
  refine ⟨by decide +kernel, by decide +kernel, by decide +kernel, by decide +kernel,
    by decide +kernel, ?_⟩
  apply not_uartOk_of_charInEx charProgram_afterReset (charProgram_ok slowReads) (k := 34)
  rw [System.run_inputs]
  decide +kernel

end Oscpu.Axi
