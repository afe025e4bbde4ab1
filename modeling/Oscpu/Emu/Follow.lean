import Oscpu.Axi.Latency
import Oscpu.Emu.Simulation

/-!
# Programs on the emulator

What a program writes to the registers does not depend on the DRAM model, nor on what DRAMsim3
decides in a run: whatever the emulator gets to, it follows the reference machine.
-/

namespace Oscpu.Emu

open Oscpu.Rtl Oscpu.Axi Oscpu.Lib

variable {δ : Type*}

/-- The words that an instruction word is cut out of. -/
def codeWords (pc : Word) : List Word :=
  if byteOffset pc ≤ 4 then [Mem.wordIdx pc] else [Mem.wordIdx pc, Mem.wordIdx pc + 1#64]

theorem code_congr {m m' : Mem} {pc : Word} (h : ∀ k ∈ codeWords pc, m k = m' k) :
    m.code pc = m'.code pc := by
  apply BitVec.eq_of_getLsbD_eq
  intro k hk
  have hlow : m (Mem.wordIdx pc) = m' (Mem.wordIdx pc) := by
    apply h
    unfold codeWords
    split <;> simp
  have hsize : 8 * sizeBytes SIZE_W = 32 := by decide
  simp only [Mem.code, BitVec.getLsbD_extractLsb', Nat.zero_add]
  rw [getLsbD_content m _ _ (by omega), getLsbD_content m' _ _ (by omega), hlow]
  by_cases hb : byteOffset pc ≤ 4
  · have hlt : 8 * byteOffset pc + k < 64 := by omega
    simp [hlt]
  · rw [h (Mem.wordIdx pc + 1#64) (by simp [codeWords, hb])]

/-- What these say depends on the core alone. -/
theorem same_of_core {y z : System} (h : y.core = z.core) (i : AxiIn) :
    y.masked = z.masked ∧ y.loadsMtime = z.loadsMtime ∧ y.sysHazard i = z.sysHazard i ∧
      y.staleCause i = z.staleCause i ∧ y.delivers i = z.delivers i ∧
      y.regWrites i = z.regWrites i := by
  obtain ⟨core, slave⟩ := y
  obtain ⟨core', slave'⟩ := z
  cases (h : core = core')
  exact ⟨rfl, rfl, rfl, rfl, rfl, rfl⟩

namespace Emulator

section

variable [CoDRAMsim3 δ Dramsim3Meta] [LawfulCoDRAMsim3 δ] (e : Emulator δ)

/-- The register write of this cycle. -/
def regWrites : List (RegId × Word) := e.system.regWrites e.inputs

/-- A cycle of a program that does not depend on time. What is fetched is in `T`, which is not
written. -/
structure Steady (T : Nat → Prop) (e : Emulator δ) (_ : DramEnv) : Prop where
  masked : e.system.masked = true
  mtime : e.system.loadsMtime = false
  hazard : e.system.sysHazard e.inputs = false
  cause : e.system.staleCause e.inputs = false
  /-- While a store is in MEM no burst of two beats is in progress. -/
  whole : e.core.axiSigWrite = true → ∀ rd ∈ e.bench.slave.reads, rd.metaData.len ≠ 2#8
  code : e.system.delivers e.inputs = true → ∀ k ∈ codeWords e.core.ifuPc, T (wordAlias k)

variable {e}

theorem steady_iff {T : Nat → Prop} [DecidablePred T] {v : DramEnv} : e.Steady T v ↔
    (e.system.masked = true ∧ e.system.loadsMtime = false ∧
      e.system.sysHazard e.inputs = false ∧ e.system.staleCause e.inputs = false) ∧
    (e.core.axiSigWrite = true → ∀ rd ∈ e.bench.slave.reads, rd.metaData.len ≠ 2#8) ∧
    (e.system.delivers e.inputs = true →
      (codeWords e.core.ifuPc).all (fun k => decide (T (wordAlias k))) = true) := by
  simp only [List.all_eq_true, decide_eq_true_eq]
  exact ⟨fun h => ⟨⟨h.masked, h.mtime, h.hazard, h.cause⟩, h.whole, h.code⟩,
    fun h => ⟨h.1.1, h.1.2.1, h.1.2.2.1, h.1.2.2.2, h.2.1, h.2.2⟩⟩

instance (T : Nat → Prop) [DecidablePred T] (e : Emulator δ) (v : DramEnv) :
    Decidable (e.Steady T v) := decidable_of_iff' _ steady_iff

end

section

variable [CoDRAMsim3 δ Dramsim3Meta] [LawfulCoDRAMsim3 δ] [DelayedCoDRAMsim3 δ]
  {T : Nat → Prop} {e₀ e e' : Emulator δ} {y : System} {env : Nat → DramEnv} {n : Nat}

namespace Runs

variable {v : DramEnv}

/-- `T` is not written. -/
theorem step_mem (h : Runs T e y) (hw : e.Within T v) {k : Word} (hk : T (wordAlias k)) :
    (y.step e.inputs).slave.mem k = y.slave.mem k := by
  change (y.slave.step y.core.out e.inputs).mem k = _
  unfold Slave.step
  cases hwr : y.slave.wr with
  | none => rfl
  | some w =>
    cases hf : e.inputs.wReady && y.core.out.wValid with
    | false => simp
    | true =>
      have hv : y.core.out.wValid = true := (Bool.and_eq_true_iff.1 hf).2
      obtain ⟨w', hw', haddr, hdone⟩ := h.attended.of_wValid hv
      cases hwr.symm.trans hw'
      have hfire : e.bench.axi.wdataFire = true := by
        rw [(fires h.sim.driven).2.2.2.1, ← h.sim.core]
        exact hf
      have hT := (hw.write hfire).2.1
      rw [← h.sim.core, ← haddr] at hT
      have hne : k ≠ Mem.wordIdx w.addr := fun heq => hT (heq ▸ hk)
      simp [hdone, Mem.write, hne]

/-- A steady cycle is a smooth one: a store cannot take the completion of a fetch for its own. -/
theorem smooth (h : Runs T e y) (hs : e.Steady T v) : y.smooth e.inputs = true := by
  obtain ⟨-, -, hhazard, hcause, -⟩ := same_of_core (z := e.system) h.sim.core e.inputs
  rw [hs.hazard] at hhazard
  rw [hs.cause] at hcause
  have hanswered : y.storeAnswered e.inputs = false := by
    cases hex : y.core.idEx.valid with
    | false => simp [System.storeAnswered, hex]
    | true =>
      have hv := h.not_rValid hex
      simp [System.storeAnswered, AxiRw.rDone, AxiRw.rHs, hv]
  have hsplit : y.splitRead e.inputs = false := by
    unfold System.splitRead
    cases hw : y.core.axiSigWrite with
    | true =>
      cases hrd : y.slave.rd with
      | none => simp
      | some b =>
        have hreads := h.sim.slave.reads
        rw [hrd] at hreads
        obtain ⟨req, rest, hrel, -, hlist⟩ := List.forall₂_cons_right_iff.1 hreads
        have hreq : req ∈ e.bench.slave.reads := hlist ▸ List.mem_cons_self
        have hne : b.len ≠ 1#8 := by
          intro hlen
          refine hs.whole (by rw [← h.sim.core]; exact hw) req hreq ?_
          rw [hrel.len, hlen]
          rfl
        simp [hne]
    | false =>
      have hwhs : y.core.rw.wHs y.core.req e.inputs = false := by
        by_contra hwhs
        have hst : y.core.rw.wState = .write := by
          have := Bool.eq_true_of_not_eq_false hwhs
          simp only [AxiRw.wHs, AxiRw.out, Bool.and_eq_true, beq_iff_eq] at this
          exact this.2
        rw [(h.attended.store (.inl hst)).1] at hw
        cases hw
      simp [hwhs]
  simp [System.smooth, hsplit, hhazard, hcause, hanswered]

end Runs

/-- **The emulator follows the reference machine**, whatever the DRAM does. -/
theorem follows_reference (h₀ : e₀.AfterReset) (hw : Meets step (Within T) e₀ env n)
    (hs : Meets step (Steady T) e₀ env n) (h : Reaches step e₀ env n e) :
    ∃ k, events step (fun e _ => e.regWrites) e₀ env n <+: e₀.system.arch.writes k := by
  let is := e₀.inputsAt env
  -- the states of both runs
  have hruns (k : Nat) (hk : k ≤ n) : ∃ t, Reaches step e₀ env k t ∧
      Runs T t (run System.step e₀.system is k) ∧ is k = t.inputs := by
    obtain ⟨t, ht⟩ := h.earlier hk
    exact ⟨t, ht, (runs_of_reaches h₀ (fun j hj => hw j (by omega)) ht).1, inputsAt_eq ht⟩
  have hmem (k : Nat) (hk : k ≤ n) {w : Word} (hT : T (wordAlias w)) :
      (run System.step e₀.system is k).slave.mem w = e₀.system.slave.mem w := by
    induction k with
    | zero => rfl
    | succ k ih =>
      obtain ⟨t, ht, hrt, hin⟩ := hruns k (by omega)
      rw [run_succ, hin, hrt.step_mem (hw k (by omega) t ht) hT]
      exact ih (by omega)
  have htimeless : e₀.system.Timeless is n := by
    refine ⟨(runs_of_reaches h₀ hw h).2, fun k hk => ?_, fun k hk => ?_, fun k hk hd j hj => ?_⟩
    · obtain ⟨t, ht, hrt, -⟩ := hruns k (by omega)
      exact (same_of_core (z := t.system) hrt.sim.core (is k)).1.trans (hs k hk t ht).masked
    · obtain ⟨t, ht, hrt, -⟩ := hruns k (by omega)
      exact (same_of_core (z := t.system) hrt.sim.core (is k)).2.1.trans (hs k hk t ht).mtime
    · obtain ⟨t, ht, hrt, hin⟩ := hruns k (by omega)
      obtain ⟨-, -, -, -, hsame, -⟩ := same_of_core (z := t.system) hrt.sim.core (is k)
      have hd' : t.system.delivers t.inputs = true := by
        rw [← hin, ← hsame]
        exact hd
      refine code_congr fun w hmem' => hmem j (by omega) ((hs k hk t ht).code hd' w ?_)
      rwa [← hrt.sim.core]
  have hsmooth : Admits System.step (fun y i => y.smooth i = true) e₀.system is n := by
    intro k hk
    obtain ⟨t, ht, hrt, hin⟩ := hruns k (by omega)
    rw [hin]
    exact hrt.smooth (hs k hk t ht)
  have htrace (k : Nat) (hk : k ≤ n) :
      events step (fun e _ => e.regWrites) e₀ env k =
        trace System.step System.regWrites e₀.system is k := by
    induction k with
    | zero => rfl
    | succ k ih =>
      obtain ⟨t, ht, hrt, hin⟩ := hruns k (by omega)
      obtain ⟨-, -, -, -, -, hsame⟩ := same_of_core (z := t.system) hrt.sim.core (is k)
      rw [ht.events_succ, trace_succ, ih (by omega), hsame, hin]
      rfl
  rw [htrace n le_rfl]
  exact regWrites_prefix h₀.system htimeless hsmooth

end

/-- `addi x5, x0, 1`, `slli x5, x5, 31` and `ld x6, 0(x5)`, which loads the first two. -/
def loadCode (latency : Nat) : Emulator (SimpleCoDRAMsim3 Dramsim3Meta) :=
  boot latency [0x01f2929300100293#64, 0x0000006f0002b303#64]

theorem loadCode_run (latency n : Nat) (h : latency = 1 ∧ n = 30 ∨ latency = 3 ∧ n = 30) :
    (run (lift step) (some (loadCode latency)) (fun _ => .ready) n).isSome = true := by
  rcases h with ⟨rfl, rfl⟩ | ⟨rfl, rfl⟩ <;> decide +kernel

theorem follows_loadCode : events step (fun e _ => e.regWrites) (loadCode 1) (fun _ => .ready) 30 =
      [(5#5, 1#64), (5#5, 0x80000000#64), (6#5, 0x01f2929300100293#64)] ∧
    ∃ k, events step (fun e _ => e.regWrites) (loadCode 1) (fun _ => .ready) 30 <+:
      (loadCode 1).system.arch.writes k :=
  ⟨by decide +kernel,
    follows_reference (T := (· < 4)) (afterReset_boot (by decide) _) (by decide +kernel) (by decide +kernel)
      (reaches_get (loadCode_run 1 30 (.inl ⟨rfl, rfl⟩)))⟩

/-- **What a program writes does not depend on the DRAM.** -/
theorem dram_independent {δ' : Type*} [CoDRAMsim3 δ Dramsim3Meta] [LawfulCoDRAMsim3 δ]
    [DelayedCoDRAMsim3 δ] [CoDRAMsim3 δ' Dramsim3Meta] [LawfulCoDRAMsim3 δ'] [DelayedCoDRAMsim3 δ']
    {T : Nat → Prop} {e₀ e : Emulator δ} {e₀' e' : Emulator δ'} {env env' : Nat → DramEnv}
    {n n' : Nat} (h₀ : e₀.AfterReset) (h₀' : e₀'.AfterReset) (hcore : e₀'.core = e₀.core)
    (hram : e₀'.bench.slave.ram = e₀.bench.slave.ram) (hw : Meets step (Within T) e₀ env n)
    (hw' : Meets step (Within T) e₀' env' n') (hs : Meets step (Steady T) e₀ env n)
    (hs' : Meets step (Steady T) e₀' env' n') (h : Reaches step e₀ env n e)
    (h' : Reaches step e₀' env' n' e') :
    events step (fun e _ => e.regWrites) e₀ env n <+:
        events step (fun e _ => e.regWrites) e₀' env' n' ∨
      events step (fun e _ => e.regWrites) e₀' env' n' <+:
        events step (fun e _ => e.regWrites) e₀ env n := by
  obtain ⟨k, hk⟩ := follows_reference h₀ hw hs h
  obtain ⟨k', hk'⟩ := follows_reference h₀' hw' hs' h'
  have harch : e₀'.system.arch = e₀.system.arch := by
    have hmem : e₀'.bench.slave.view = e₀.bench.slave.view := by rw [h₀'.view, h₀.view, hram]
    simp only [System.arch, system, hcore, hmem]
  rw [harch] at hk'
  exact prefix_or_prefix_of_history hk hk'

/-- A DRAM that takes three times as long. -/
theorem dram_independent_loadCode :
    let ws := events step (fun e _ => e.regWrites) (loadCode 1) (fun _ => .ready) 30
    let ws' := events step (fun e _ => e.regWrites) (loadCode 3) (fun _ => .ready) 30
    ws'.length = 2 ∧ (ws <+: ws' ∨ ws' <+: ws) :=
  ⟨by decide +kernel,
    dram_independent (T := (· < 4)) (afterReset_boot (by decide) _) (afterReset_boot (by decide) _)
      rfl rfl (by decide +kernel) (by decide +kernel) (by decide +kernel) (by decide +kernel)
      (reaches_get (loadCode_run 1 30 (.inl ⟨rfl, rfl⟩)))
      (reaches_get (loadCode_run 3 30 (.inr ⟨rfl, rfl⟩)))⟩

end Emulator

end Oscpu.Emu
