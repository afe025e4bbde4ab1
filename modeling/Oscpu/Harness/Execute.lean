import Oscpu.Harness.Difftest
import Oscpu.Lib.Partial

/-!
# The main loop of the emulator: `Emulator::execute` of `emu.cpp`

A cycle of the simulated circuit, then the trap, then difftest. This is the loop with difftest on;
what it does about signals, snapshots and forked processes is left out. A cycle in which an assertion
fails ends the emulator, without a verdict.
-/

namespace Oscpu.Harness

open Oscpu.Rtl Oscpu.Lib

def STATE_GOODTRAP : Int := 0

def STATE_ABORT : Int := 2

def STATE_LIMIT_EXCEEDED : Int := 3

def STATE_RUNNING : Int := -1

/-- A simulated circuit: what a cycle does to it, and what it calls of difftest in the cycle. -/
structure Dut (σ : Type*) where
  cycle : σ → Option σ
  calls : σ → List Call

variable {σ ρ : Type*} [NemuProxy ρ]

/-- The loop, and the trap code it ends with. -/
def execute (dut : Dut σ) (maxInstr : Nat) : Nat → σ → Difftest ρ → Option (Int × Difftest ρ)
  | 0, _, d => some (STATE_LIMIT_EXCEEDED, d)
  | maxCycle + 1, s, d =>
    if maxInstr ≤ d.dut.trap.instrCnt.toNat then some (STATE_LIMIT_EXCEEDED, d)
    else
      (dut.cycle s).bind fun s' =>
        let d := (dut.calls s).foldl Difftest.receive d
        if d.state ≠ STATE_RUNNING then some (d.state, d)
        else
          let (stop, d) := d.step
          if stop then some (STATE_ABORT, d) else execute dut maxInstr maxCycle s' d

/-- The circuit is in the state `t` after `k` cycles. -/
def Dut.After (dut : Dut σ) (s : σ) (k : Nat) (t : σ) : Prop :=
  Reaches (fun s _ => dut.cycle s) s (fun _ => ()) k t

/-! ## A core that does not report its first instruction -/

/-- The call is not for a store, nor for the instruction that difftest waits for. -/
def Call.Silent : Call → Prop
  | .instrCommit i c => i = 0 → c.valid = true → c.pc ≠ FIRST_INST_ADDRESS
  | .storeEvent _ e => e.valid = false
  | _ => True

namespace Difftest

/-- Difftest is not enabled, and nothing that has been reported enables it. -/
structure Disabled (d : Difftest ρ) : Prop where
  hasCommit : d.hasCommit = false
  lastCommit : d.lastCommit = 0
  commit : (d.dut.commit 0).valid = true → (d.dut.commit 0).pc ≠ FIRST_INST_ADDRESS
  store : ∀ i, (d.dut.store i).valid = false

namespace Disabled

variable {d : Difftest ρ}

omit [NemuProxy ρ] in
theorem receive (h : d.Disabled) {c : Call} (hc : c.Silent) :
    (d.receive c).Disabled ∧ (d.receive c).proxy = d.proxy ∧ (d.receive c).ticks = d.ticks := by
  cases c with
  | instrCommit i c =>
    refine ⟨⟨h.hasCommit, h.lastCommit, ?_, h.store⟩, rfl, rfl⟩
    by_cases hi : i = 0
    · subst hi
      simp only [Difftest.receive, CoreState.receive, Function.update_self, InstrCommit.onto]
      cases hv : c.valid with
      | true => simpa [hv] using hc rfl hv
      | false => simp
    · simpa [Difftest.receive, CoreState.receive, Function.update_of_ne (Ne.symm hi)] using h.commit
  | storeEvent i e =>
    refine ⟨⟨h.hasCommit, h.lastCommit, h.commit, fun j => ?_⟩, rfl, rfl⟩
    have he : e.valid = false := hc
    by_cases hj : j = i
    · subst hj
      simp [Difftest.receive, CoreState.receive, StoreEvent.onto, he]
    · simpa [Difftest.receive, CoreState.receive, hj] using h.store j
  | _ => exact ⟨⟨h.hasCommit, h.lastCommit, h.commit, h.store⟩, rfl, rfl⟩

omit [NemuProxy ρ] in
theorem foldl_receive {cs : List Call} (h : d.Disabled) (hcs : ∀ c ∈ cs, c.Silent) :
    (cs.foldl Difftest.receive d).Disabled ∧ (cs.foldl Difftest.receive d).proxy = d.proxy ∧
      (cs.foldl Difftest.receive d).ticks = d.ticks := by
  induction cs generalizing d with
  | nil => exact ⟨h, rfl, rfl⟩
  | cons c cs ih =>
    obtain ⟨hd, hp, ht⟩ := h.receive (hcs c List.mem_cons_self)
    obtain ⟨hd', hp', ht'⟩ := ih hd fun c hc => hcs c (List.mem_cons_of_mem _ hc)
    exact ⟨hd', hp'.trans hp, ht'.trans ht⟩

/-- Nothing is asked of the reference, and the run stops when the limit is over. -/
theorem step (h : d.Disabled) :
    d.step.1 = decide (firstCommitLimit ≤ d.ticks) ∧ d.step.2.Disabled ∧
      d.step.2.proxy = d.proxy ∧ d.step.2.ticks = d.ticks + 1 ∧ d.step.2.dut.trap = d.dut.trap := by
  have hd : d.opened.Disabled := ⟨h.hasCommit, h.lastCommit, h.commit, h.store⟩
  have hlate : d.opened.checkTimeout.1 = decide (firstCommitLimit ≤ d.ticks) := by
    rw [checkTimeout_fst, hd.lastCommit, decide_eq_decide]
    simp only [opened, setThisPc, firstCommitLimit, stuckLimit]
    omega
  rw [← hlate]
  cases hl : d.opened.checkTimeout.1 with
  | false =>
    have hfirst : d.opened.doFirstInstrCommit = d.opened := by
      unfold doFirstInstrCommit
      cases hv : (d.opened.dut.commit 0).valid with
      | false => simp
      | true => simp [hd.commit hv]
    rw [step_of_quiet d hl h.store, hfirst]
    simp only [hd.hasCommit, Bool.not_false, if_true]
    exact ⟨trivial, hd, rfl, rfl, rfl⟩
  | true =>
    have hsame : d.opened.checkTimeout.2 = d.opened := by
      unfold checkTimeout
      simp only [hd.hasCommit, Bool.not_false, Bool.true_and, Bool.false_and]
      split <;> simp
    rw [step_of_late d hl, hsame]
    exact ⟨rfl, hd, rfl, rfl, rfl⟩

end Disabled

end Difftest

/-- What the circuit calls from here on enables nothing. -/
def Dut.Silent (dut : Dut σ) (s : σ) : Prop :=
  ∀ k t, dut.After s k t → ∀ c ∈ dut.calls t, c.Silent

theorem execute_succ (dut : Dut σ) (maxInstr maxCycle : Nat) (s : σ) (d : Difftest ρ) :
    let e := (dut.calls s).foldl Difftest.receive d
    execute dut maxInstr (maxCycle + 1) s d =
      if maxInstr ≤ d.dut.trap.instrCnt.toNat then some (STATE_LIMIT_EXCEEDED, d)
      else (dut.cycle s).bind fun s' =>
        if e.state ≠ STATE_RUNNING then some (e.state, e)
        else if e.step.1 then some (STATE_ABORT, e.step.2)
        else execute dut maxInstr maxCycle s' e.step.2 := rfl

namespace Dut

variable {dut : Dut σ} {s s' t : σ} {k : Nat} {d : Difftest ρ}

omit [NemuProxy ρ] in
@[simp] theorem after_zero : dut.After s 0 t ↔ s = t := reaches_zero

theorem after_cons (hs : dut.cycle s = some s') : dut.After s (k + 1) t ↔ dut.After s' k t :=
  reaches_cons hs

/-- A run has a first cycle. -/
theorem After.first (h : dut.After s (k + 1) t) : ∃ s', dut.cycle s = some s' := by
  obtain ⟨s', hs'⟩ := h.earlier (Nat.le_add_left 1 k)
  obtain ⟨u, hu, hs⟩ := reaches_succ.1 hs'
  cases reaches_zero.1 hu
  exact ⟨s', hs⟩

namespace Silent

theorem next (h : dut.Silent s) (hs : dut.cycle s = some s') : dut.Silent s' :=
  fun k t ht => h (k + 1) t ((after_cons hs).2 ht)

/-- The reference is left alone. -/
theorem execute (h : dut.Silent s) (hd : d.Disabled) {maxInstr maxCycle : Nat}
    {e : Int × Difftest ρ} (he : execute dut maxInstr maxCycle s d = some e) :
    e.2.Disabled ∧ e.2.proxy = d.proxy := by
  induction maxCycle generalizing s d with
  | zero =>
    cases he
    exact ⟨hd, rfl⟩
  | succ maxCycle ih =>
    obtain ⟨hr, hrp, -⟩ := hd.foldl_receive (h 0 s (after_zero.2 rfl))
    obtain ⟨-, hs, hsp, -⟩ := hr.step
    rw [execute_succ] at he
    split at he
    · cases he
      exact ⟨hd, rfl⟩
    · obtain ⟨s', hcyc, he⟩ := Option.bind_eq_some_iff.1 he
      split at he
      · cases he
        exact ⟨hr, hrp⟩
      · split at he
        · cases he
          exact ⟨hs, hsp.trans hrp⟩
        · obtain ⟨hdis, hp⟩ := ih (h.next hcyc) hs he
          exact ⟨hdis, hp.trans (hsp.trans hrp)⟩

section

variable {tr : σ → TrapEvent} {maxInstr m : Nat} (h : dut.Silent s) (hd : d.Disabled)
  (htr : ∀ (d : Difftest ρ) s, ((dut.calls s).foldl Difftest.receive d).dut.trap = tr s)
  (hcount : d.dut.trap.instrCnt.toNat < maxInstr)

include hcount in
/-- An assertion fails in the cycle. -/
theorem execute_fails (hs : dut.cycle s = none) :
    Harness.execute dut maxInstr (m + 1) s d = none := by
  rw [execute_succ, if_neg (by omega), hs, Option.bind_none]

include htr hcount in
theorem execute_trap (hs : dut.cycle s = some s') (hv : (tr s).valid = true) :
    (Harness.execute dut maxInstr (m + 1) s d).map Prod.fst = some ((tr s).code.toNat : Int) := by
  have hstate : ((dut.calls s).foldl Difftest.receive d).state = (tr s).code.toNat := by
    simp [Difftest.state, htr, hv]
  rw [execute_succ, if_neg (by omega), hs, Option.bind_some, hstate,
    if_pos (by unfold STATE_RUNNING; omega)]
  rfl

include h hd htr hcount in
/-- A cycle without a trap. -/
theorem execute_cycle (hs : dut.cycle s = some s') (hv : (tr s).valid = false) :
    ∃ d', d'.Disabled ∧ d'.ticks = d.ticks + 1 ∧ d'.dut.trap = tr s ∧
      Harness.execute dut maxInstr (m + 1) s d =
        if firstCommitLimit ≤ d.ticks then some (STATE_ABORT, d')
        else Harness.execute dut maxInstr m s' d' := by
  obtain ⟨hr, -, hrt⟩ := hd.foldl_receive (h 0 s (after_zero.2 rfl))
  obtain ⟨hstop, hdis, -, hst, hstrap⟩ := hr.step
  have hstate : ((dut.calls s).foldl Difftest.receive d).state = STATE_RUNNING := by
    simp [Difftest.state, htr, hv, STATE_RUNNING]
  refine ⟨_, hdis, hst.trans (by rw [hrt]), hstrap.trans (htr d s), ?_⟩
  rw [execute_succ, if_neg (by omega), hs, Option.bind_some, hstate, if_neg (by simp)]
  simp only [hstop, hrt, decide_eq_true_eq]

include h hd htr hcount in
/-- The trap that comes first decides, if no assertion fails before; without a trap the run is stopped
when the limit is over. -/
theorem verdict (hk : k < m) (hticks : d.ticks + k ≤ firstCommitLimit) (ht : dut.After s k t)
    (hgo : ∀ j < k, ∀ u, dut.After s j u →
      (tr u).valid = false ∧ (tr u).instrCnt.toNat < maxInstr) :
    (dut.cycle t = none → Harness.execute dut maxInstr m s d = none) ∧
    ∀ t', dut.cycle t = some t' →
      ((tr t).valid = true → (Harness.execute dut maxInstr m s d).map Prod.fst =
        some ((tr t).code.toNat : Int)) ∧
      ((tr t).valid = false → d.ticks + k = firstCommitLimit →
        (Harness.execute dut maxInstr m s d).map Prod.fst = some STATE_ABORT) := by
  induction k generalizing s d m with
  | zero =>
    obtain ⟨m, rfl⟩ : ∃ n, m = n + 1 := ⟨m - 1, by omega⟩
    cases after_zero.1 ht
    refine ⟨execute_fails hcount, fun t' hs => ⟨execute_trap htr hcount hs, fun hv hlimit => ?_⟩⟩
    obtain ⟨d', -, -, -, he⟩ := execute_cycle (m := m) h hd htr hcount hs hv
    rw [he, if_pos (by omega)]
    rfl
  | succ k ih =>
    obtain ⟨m, rfl⟩ : ∃ n, m = n + 1 := ⟨m - 1, by omega⟩
    obtain ⟨s', hs⟩ := ht.first
    obtain ⟨hv, hcnt⟩ := hgo 0 k.succ_pos s (after_zero.2 rfl)
    obtain ⟨d', hd', ht', htr', he⟩ := execute_cycle (m := m) h hd htr hcount hs hv
    have hih := ih (h.next hs) hd' (by rw [htr']; exact hcnt) (Nat.lt_of_succ_lt_succ hk) (by omega)
      ((after_cons hs).1 ht) fun j hj u hu => hgo (j + 1) (Nat.succ_lt_succ hj) u
        ((after_cons hs).2 hu)
    rw [he, if_neg (by omega)]
    rw [ht'] at hih
    exact ⟨hih.1, fun t' hcyc => ⟨(hih.2 t' hcyc).1, fun hv hlimit =>
      (hih.2 t' hcyc).2 hv (by omega)⟩⟩

end

end Silent

end Dut

end Oscpu.Harness
