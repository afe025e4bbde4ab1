import Oscpu.Diff.ByteMemory
import Oscpu.Diff.Commit
import Oscpu.Harness.Execute
import Oscpu.Harness.Lockstep

/-!
# `cpu_diff` under difftest

Difftest waits for the instruction at `FIRST_INST_ADDRESS`, the address that `inst_valid` of
`SimTop` keeps from being reported. So it is never enabled. The RAM is that of `ram.cpp`: a read
beyond its end wraps, and a write there ends the emulator.
-/

namespace Oscpu.Harness

open Oscpu.Rtl Oscpu.Lib

def RISCV_PRIV_MODE_M : BitVec 8 := 3#8

/-- `SimTop` between two cycles. -/
structure SimTop where
  core : Diff.Core
  block : Diff.Difftest

/-- The block behind the pipeline takes the falling edge, the pipeline the rising edge. -/
def SimTop.fall (s : SimTop) : Diff.Difftest := s.block.step false s.core

/-- The core as it reads the RAM, through `ram_read_helper`. -/
def SimTop.reading (s : SimTop) : Diff.Core :=
  { s.core with ram := Diff.ramReadHelper s.core.ram true }

/-- The RAM after the cycle, unless `ram_write_helper` fails. -/
def SimTop.written (s : SimTop) : Option Diff.Ram :=
  let m := s.core.exLs.data
  Diff.ramWriteHelper s.core.ram (Diff.ramIdx m.exres) s.core.memWdata
    (Diff.lsuWmask m.func3 m.exres) m.sten

def cpuDiff : Dut SimTop where
  cycle s := s.written.map fun ram => ⟨{ s.reading.step false with ram := ram }, s.fall⟩
  calls s :=
    let t := s.fall
    difftestInstrCommit 0
        ⟨t.cmtValid, t.cmtPc, t.cmtInst, false, false, false, t.cmtWen, t.cmtWdest, t.cmtWdata⟩ ++
      difftestArchIntRegState t.regsDiff ++
      difftestTrapEvent t.trap (t.trapCode.setWidth 3) t.cmtPc t.cycleCnt t.instrCnt ++
      difftestCSRState ⟨0#64, 0#64, 0#64, 0#64, 0#64, 0#64, 0#64, 0#64, 0#64, 0#64, 0#64, 0#64,
        0#64, 0#64, 0#64, 0#64, 0#64, RISCV_PRIV_MODE_M⟩ ++
      difftestArchFpRegState fun _ => 0#64

namespace SimTop

variable {s : SimTop} {ρ : Type*} [NemuProxy ρ]

/-- The word of a trap is in write-back. -/
def traps (s : SimTop) : Bool := s.core.lsWb.data.ins.extractLsb' 0 7 == 0x6b#7

/-- `a0`. -/
def a0 (s : SimTop) : Word := s.core.oRegs 10#5

/-- The block has seen an edge under reset. -/
structure AfterReset (s : SimTop) : Prop where
  cmtValid : s.block.cmtValid = false
  trap : s.block.trap = false
  instrCnt : s.block.instrCnt = 0#64

theorem block_of_cycle {s' : SimTop} (hs : cpuDiff.cycle s = some s') : s'.block = s.fall := by
  obtain ⟨ram, -, rfl⟩ := Option.map_eq_some_iff.1 hs
  rfl

/-- What is known of the block after `n` cycles. -/
structure Counted (n : Nat) (t : Diff.Difftest) : Prop where
  commit : t.cmtValid = true → t.cmtPc ≠ PC_START
  instrCnt : t.instrCnt.toNat ≤ n

theorem Counted.fall {n : Nat} (h : Counted n s.block) : Counted (n + 1) s.fall := by
  cases ht : s.block.trap with
  | true =>
    have hsame : s.fall = s.block := by simp [SimTop.fall, Diff.Difftest.step, ht]
    rw [hsame]
    exact ⟨h.commit, Nat.le_succ_of_le h.instrCnt⟩
  | false =>
    have hcnt : s.fall.instrCnt = s.block.instrCnt +
        (BitVec.ofBool (Diff.instValid s.core.lsWb.data.diffpc)).zeroExtend 64 := by
      simp [SimTop.fall, Diff.Difftest.step, ht]
    constructor
    · rw [SimTop.fall, Diff.Difftest.step_cmtValid _ _ ht, Diff.Difftest.step_cmtPc _ _ ht]
      intro hv
      simp only [Diff.instValid, Bool.and_eq_true, bne_iff_ne] at hv
      exact hv.1.1
    · have hone : ((BitVec.ofBool (Diff.instValid s.core.lsWb.data.diffpc)).zeroExtend 64).toNat ≤ 1 := by
        cases Diff.instValid s.core.lsWb.data.diffpc <;> decide
      have hle := h.instrCnt
      rw [hcnt, BitVec.toNat_add]
      exact (Nat.mod_le _ _).trans (Nat.add_le_add hle hone)

theorem AfterReset.counted (h : s.AfterReset) {n : Nat} {t : SimTop} (ht : cpuDiff.After s n t) :
    Counted n t.block := by
  refine ht.induct (P := fun k (t : SimTop) => Counted k t.block) (fun k u u' _ _ hu hs => ?_) ?_
  · rw [block_of_cycle hs]
    exact hu.fall
  · refine ⟨fun hv => ?_, ?_⟩
    · rw [h.cmtValid] at hv
      cases hv
    · simp [h.instrCnt]

theorem AfterReset.silent (h : s.AfterReset) : cpuDiff.Silent s := by
  intro k t ht c hc
  have hnext : Counted (k + 1) t.fall := (h.counted ht).fall
  simp only [cpuDiff, difftestArchIntRegState, difftestTrapEvent, difftestCSRState,
    difftestArchFpRegState, List.mem_append, List.mem_singleton] at hc
  rcases hc with (((hc | rfl) | rfl) | rfl) | rfl
  · unfold difftestInstrCommit at hc
    split at hc
    · rw [List.mem_singleton.1 hc]
      intro _ hv
      exact hnext.commit hv
    · cases hc
  all_goals trivial

/-- The packet of the trap after a cycle. -/
def trapEvent (s : SimTop) : TrapEvent :=
  ⟨s.fall.trap, (s.fall.trapCode.setWidth 3).zeroExtend 8, s.fall.cmtPc, s.fall.cycleCnt,
    s.fall.instrCnt⟩

omit [NemuProxy ρ] in
theorem trap_receive (d : Difftest ρ) (s : SimTop) :
    ((cpuDiff.calls s).foldl Difftest.receive d).dut.trap = s.trapEvent := by
  cases hv : s.fall.cmtValid <;>
    simp [cpuDiff, difftestInstrCommit, difftestArchIntRegState, difftestTrapEvent,
      difftestCSRState, difftestArchFpRegState, Difftest.receive, CoreState.receive, trapEvent, hv]

/-- No word of a trap has come to write-back in the first `k` cycles. -/
def NoTrap (s : SimTop) (k : Nat) : Prop :=
  Meets (fun s (_ : Unit) => cpuDiff.cycle s) (fun u _ => u.traps = false) s (fun _ => ()) k

instance (s : SimTop) (k : Nat) : Decidable (s.NoTrap k) := inferInstanceAs (Decidable (Meets ..))

theorem AfterReset.not_trap (h : s.AfterReset) {k : Nat} {t : SimTop} (ht : cpuDiff.After s k t)
    (hk : s.NoTrap k) : t.block.trap = false := by
  refine ht.induct (P := fun _ (t : SimTop) => t.block.trap = false) (fun j u u' hj hu hb hs => ?_)
    h.trap
  rw [block_of_cycle hs, SimTop.fall, Diff.Difftest.step_trap, hb, Bool.false_or]
  exact hk j hj u hu

theorem fall_trap (h : s.block.trap = false) : s.fall.trap = s.traps := by
  rw [fall, Diff.Difftest.step_trap, h, Bool.false_or, traps]

theorem trapEvent_code (h : s.block.trap = false) : s.trapEvent.code.toNat = s.a0.toNat % 8 := by
  have hcode : s.fall.trapCode = s.a0.extractLsb' 0 8 := by simp [fall, Diff.Difftest.step, h, a0]
  simp only [trapEvent, hcode, BitVec.toNat_setWidth, BitVec.extractLsb'_toNat]
  omega

/-- **`cpu_diff` is never checked**: difftest asks nothing of the reference, whatever the core does.
The run ends with the low three bits of `a0` at the first trap, or it is stopped because nothing has
been committed, or it is cut short by a write beyond the RAM. -/
theorem unchecked {d : Difftest ρ} (h : s.AfterReset) (hd : d.Fresh) {maxInstr maxCycle : Nat}
    (hmax : firstCommitLimit < maxInstr) :
    (∀ e, execute cpuDiff maxInstr maxCycle s d = some e →
      e.2.hasCommit = false ∧ e.2.proxy = d.proxy) ∧
    ∀ k < maxCycle, k ≤ firstCommitLimit → s.NoTrap k → ∀ t, cpuDiff.After s k t →
      (t.written = none → execute cpuDiff maxInstr maxCycle s d = none) ∧
      (t.written.isSome = true → t.traps = true →
        (execute cpuDiff maxInstr maxCycle s d).map Prod.fst = some ((t.a0.toNat % 8 : Nat) : Int)) ∧
      (t.written.isSome = true → t.traps = false → k = firstCommitLimit →
        (execute cpuDiff maxInstr maxCycle s d).map Prod.fst = some STATE_ABORT) := by
  have hdis : d.Disabled :=
    ⟨hd.hasCommit, hd.lastCommit, fun hv => by simp [hd.commit 0] at hv, hd.store⟩
  refine ⟨fun e he => ?_, fun k hk hlimit hno t ht => ?_⟩
  · obtain ⟨hend, hproxy⟩ := h.silent.execute hdis he
    exact ⟨hend.hasCommit, hproxy⟩
  have hcount : d.dut.trap.instrCnt.toNat < maxInstr := by
    rw [hd.instrCnt]
    exact Nat.lt_of_le_of_lt (Nat.zero_le _) hmax
  have hgo (j : Nat) (hj : j < k) (u : SimTop) (hu : cpuDiff.After s j u) :
      u.trapEvent.valid = false ∧ u.trapEvent.instrCnt.toNat < maxInstr := by
    have hcnt : u.fall.instrCnt.toNat ≤ j + 1 := (h.counted hu).fall.instrCnt
    have htrap : u.block.trap = false :=
      h.not_trap hu fun i hi => hno i (Nat.lt_trans hi hj)
    exact ⟨(fall_trap htrap).trans (hno j hj u hu), by simp only [trapEvent]; omega⟩
  have htrap : t.block.trap = false := h.not_trap ht hno
  have hvalid : t.trapEvent.valid = t.traps := fall_trap htrap
  obtain ⟨hfails, hends⟩ := h.silent.verdict hdis trap_receive hcount hk
    (by rw [hd.ticks]; omega) ht hgo
  have hcycle (hw : t.written.isSome = true) : ∃ t', cpuDiff.cycle t = some t' :=
    Option.isSome_iff_exists.1 ((Option.isSome_map ..).trans hw)
  refine ⟨fun hw => hfails (Option.map_eq_none_iff.2 hw), fun hw hv => ?_, fun hw hv hk => ?_⟩
  · obtain ⟨t', hs⟩ := hcycle hw
    rw [(hends t' hs).1 (hvalid.trans hv), trapEvent_code htrap]
  · obtain ⟨t', hs⟩ := hcycle hw
    exact (hends t' hs).2 (hvalid.trans hv) (by rw [hd.ticks, Nat.zero_add, hk])

/-- `addi a0, x0, 8` and a trap, from reset. -/
def trapping : SimTop where
  core := .start false (fun _ => 0#64) (fun i => if i = 0#64 then 0x0000006b00800513#64 else 0#64)
    0#64 0#64
  block := .zero

theorem trapping_run : (run (lift fun s (_ : Unit) => cpuDiff.cycle s) (some trapping)
    (fun _ => ()) 7).isSome = true := by decide +kernel

theorem unchecked_trapping :
    (execute cpuDiff 10000 100 trapping (Difftest.init (NopRef.mk fun _ => 7#64))).map Prod.fst =
      some STATE_GOODTRAP :=
  ((unchecked (s := trapping) ⟨rfl, rfl, rfl⟩ (Difftest.fresh_init (NopRef.mk fun _ => 7#64))
    (by decide)).2 7 (by decide) (by decide) (by decide +kernel) _ (reaches_get trapping_run)).2.1
      (by decide +kernel) (by decide +kernel)

end SimTop

end Oscpu.Harness
