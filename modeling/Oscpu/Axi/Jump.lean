import Oscpu.Axi.Restart

/-!
# The pc behind a jump

The word of a jump stays in IF/ID until the next fetch completes, and `bru` computes its target anew
in every cycle, with operands that the jump itself is forwarded into. Only the base of a `jalr` with
`rd = rs1` could change in this way; `bru` takes another value in its place, a variable that was
meant to follow `rs1 + imm` and keeps what it is initialised with.
-/

namespace Oscpu.Axi

open Oscpu.Rtl Oscpu.Lib

/-- A jump is in ID in the first cycle, the next fetch completes in cycle `n`, and nothing is flushed
up to then. -/
structure JumpFetch (y : System) (is : Nat → AxiIn) (n : Nat) : Prop where
  id : y.core.ifId.valid = true
  jump : y.core.jump (is 0) = true
  wait : ∀ k < n, (run System.step y is k).core.ifReadyAxi (is k) = false
  fetch : (run System.step y is n).core.ifReadyAxi (is n) = true
  quiet : ∀ k ≤ n, (run System.step y is k).core.flush (is k) = false

instance (y : System) (is : Nat → AxiIn) (n : Nat) : Decidable (JumpFetch y is n) :=
  decidable_of_iff (y.core.ifId.valid = true ∧ y.core.jump (is 0) = true ∧
      (∀ k < n, (run System.step y is k).core.ifReadyAxi (is k) = false) ∧
        (run System.step y is n).core.ifReadyAxi (is n) = true ∧
          ∀ k ≤ n, (run System.step y is k).core.flush (is k) = false)
    ⟨fun h => ⟨h.1, h.2.1, h.2.2.1, h.2.2.2.1, h.2.2.2.2⟩,
      fun h => ⟨h.id, h.jump, h.wait, h.fetch, h.quiet⟩⟩

/-- What `bru` has for the target of the jump in ID once that is in EX. -/
def Core.jumpPcEx (s : Core) (i : AxiIn) : Word :=
  jumpPc s.ifId.data.ins s.ifId.data.pc (s.iduRs1 i) s.bru.tarI

theorem jumpPc_saved (ins : Ins) (pc rs1 saved tar : Word) :
    jumpPc ins pc rs1 (if jalrBp ins then saved else tar) = jumpPc ins pc rs1 saved := by
  unfold jumpPc
  cases jalrBp ins with
  | true => rfl
  | false => simp only [Bool.false_eq_true, if_false]

/-! ## In every state -/

/-- What IF/ID says of the stages behind it, and it is empty while `keep` is high. -/
structure Latched (y : System) : Prop where
  behind : Behind y
  ins : y.core.csr.keep = true → y.core.ifId.data.ins = 0#32

theorem Latched.step {y : System} {i : AxiIn} (h : Latched y) (ho : Occ y) : Latched (y.step i) := by
  cases hfl : y.core.flush i with
  | true =>
    refine ⟨Restarted.behind_of_flush hfl, ?_⟩
    intro _
    rw [Occ.step_ifId_of_flush hfl]
    rfl
  | false =>
    refine ⟨h.behind.step ho hfl, ?_⟩
    intro hk
    rw [Occ.step_keep hfl] at hk
    cases hf : y.core.ifReadyAxi i with
    | true =>
      rw [hf, Bool.not_true, Bool.and_false] at hk
      exact absurd hk Bool.false_ne_true
    | false =>
      rw [hf, Bool.not_false, Bool.and_true] at hk
      rw [Occ.step_ifId_of_quiet hf hfl]
      exact h.ins hk

theorem System.Reachable.latched {y : System} (h : y.Reachable) : Latched y := by
  obtain ⟨y₀, is, n, h₀, hok, rfl⟩ := h
  have htrue : Admits System.step (fun _ _ => True) y₀ is n := fun _ _ => trivial
  have hinit : Latched y₀ := ⟨Behind.afterReset h₀, fun _ => by rw [h₀.core.ifId]; rfl⟩
  exact (System.run_invariant h₀ hinit (fun _ _ ho _ _ h => h.step ho) hok htrue).2

/-! ## From EX on -/

/-- A jump is in EX or behind it, and this is its target. -/
structure Jumps (y : System) (target : Word) : Prop where
  behind : Behind y
  keep : y.core.csr.keep = false
  id : y.core.ifId.valid = false
  now : y.core.jumpNow = true
  target : y.core.jumpTo = target

namespace Jumps

variable {y : System} {i : AxiIn} {target : Word}

theorem step (h : Jumps y target) (ho : Occ y) (hf : y.core.ifReadyAxi i = false)
    (hfl : y.core.flush i = false) : Jumps (y.step i) target where
  behind := h.behind.step ho hfl
  keep := by
    rw [Occ.step_keep hfl, h.keep]
    rfl
  id := by rw [ho.step_id, hf]
  now := (h.behind.step_jumpNow hf hfl).trans h.now
  target := (h.behind.step_jumpTo hf hfl h.id).trans h.target

/-- In every cycle `bru` takes the target. -/
theorem step_bruPc (h : Jumps y target) (hfl : y.core.flush i = false) :
    (y.step i).core.bru.pc = target :=
  (h.behind.step_bruPc_of_jump h.keep h.now hfl).trans h.target

/-- The jump goes from ID to EX. -/
theorem of_id (h : Latched y) (ho : Occ y) (hid : y.core.ifId.valid = true)
    (hj : y.core.jump i = true) (hfl : y.core.flush i = false) :
    Jumps (y.step i) (y.core.jumpPcEx i) := by
  have hf : y.core.ifReadyAxi i = false := by simp [Core.ifReadyAxi, (ho.id hid).2.2.1]
  have hnow : y.core.jumpNow = true := by rw [← h.behind.jump_eq i, hj]
  have hkeep : y.core.csr.keep = false := by
    by_contra hk
    rw [Core.jumpNow_of_zero (h.ins (Bool.eq_true_of_not_eq_false hk))] at hnow
    exact Bool.false_ne_true hnow
  refine ⟨h.behind.step ho hfl, ?_, ?_, (h.behind.step_jumpNow hf hfl).trans hnow, ?_⟩
  · rw [Occ.step_keep hfl, hkeep]
    rfl
  · rw [ho.step_id, hf]
  · have htar : (y.step i).core.bru.tarO =
        if jalrBp y.core.ifId.data.ins then y.core.bru.tarI else y.core.bru.tarO := by
      change (y.core.bruStep i false).tarO = _
      simp [Core.bruStep, Core.brHs, hid, ho.idReady i, stlReg]
    unfold Core.jumpTo Core.jumpPcEx
    rw [Occ.step_ifId_of_quiet hf hfl, htar, jumpPc_saved]
    apply jumpPc_congr
    intro hjalr hb
    have hspares := spares_of_jalr hjalr hb
    rw [h.behind.step_older hf hfl hspares, Core.iduRs1, h.behind.bypassRs_eq i hspares]

end Jumps

/-- The next fetch completes when the jump is in MEM or behind it. -/
theorem JumpFetch.two_le {y : System} {is : Nat → AxiIn} {n : Nat} (h : JumpFetch y is n)
    (ho : Occ y) (hi : y.Ok (is 0)) : 2 ≤ n := by
  have hready := (Occ.ready_of_fetch h.fetch).2.2
  have hzero : n ≠ 0 := by
    rintro rfl
    rw [run_zero, (ho.id h.id).2.2.1] at hready
    exact Bool.false_ne_true hready
  have hone : n ≠ 1 := by
    rintro rfl
    have hex : (y.step (is 0)).core.idEx.valid = true := by rw [ho.step_ex, h.id]
    rw [run_succ, run_zero, ((ho.step hi).ex hex).2] at hready
    exact Bool.false_ne_true hready
  omega

theorem JumpFetch.jumps {y : System} {is : Nat → AxiIn} {n : Nat} (h : JumpFetch y is n)
    (hy : y.Reachable) (hok : Admits System.step System.Ok y is n) {k : Nat} (hk : k < n) :
    Jumps (run System.step y is (k + 1)) (y.core.jumpPcEx (is 0)) := by
  induction k with
  | zero => exact Jumps.of_id hy.latched hy.occ h.id h.jump (h.quiet 0 (Nat.zero_le n))
  | succ k ih =>
    have ho : Occ (run System.step y is (k + 1)) :=
      Lib.run_invariant (fun _ _ => Occ.step) hy.occ hok (k + 1) hk.le
    exact (ih (Nat.lt_of_succ_lt hk)).step ho (h.wait (k + 1) hk) (h.quiet (k + 1) hk.le)

/-- **The pc behind a jump.** The next completed fetch hands this target to `ifu`. -/
theorem JumpFetch.ifuPc_eq {y : System} {is : Nat → AxiIn} {n : Nat} (h : JumpFetch y is n)
    (hy : y.Reachable) (hok : Admits System.step System.Ok y is (n + 1)) :
    (run System.step y is (n + 1)).core.ifuPc = y.core.jumpPcEx (is 0) := by
  have ho : Occ (run System.step y is n) :=
    Lib.run_invariant (fun _ _ => Occ.step) hy.occ hok n (Nat.le_succ n)
  have htwo := h.two_le hy.occ (hok 0 (Nat.zero_lt_succ n))
  have hbru : (run System.step y is n).core.bru.pc = y.core.jumpPcEx (is 0) := by
    obtain ⟨m, hm⟩ : ∃ m, n = m + 2 := ⟨n - 2, by omega⟩
    have hlast := h.jumps hy (hok.mono (Nat.le_succ n)) (show m < n by omega)
    rw [hm, run_succ]
    exact hlast.step_bruPc (h.quiet (m + 1) (by omega))
  rw [run_succ, ho.step_ifuPc_of_fetch h.fetch (h.quiet n le_rfl), hbru]

end Oscpu.Axi
