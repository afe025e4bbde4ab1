import Oscpu.Axi.Trapping

/-!
# Latency independence of `cpu_axi_diff`

Two slaves that hold the same memory and differ in when they answer. Each run follows the reference
machine, so one sequence of register writes is a prefix of the other, as long as no fetch completes
while the instruction in MEM withholds something from the one that is fetched. The pipeline does not
see to that: the result of a CSR instruction is not forwarded.
-/

namespace Oscpu.Axi

open Oscpu.Rtl Oscpu.Lib

/-- A run in which a compliant slave answers, the timer interrupt is disabled, no load reads `mtime`,
and every word fetched has been the one that was there after reset. -/
structure System.Timeless (y : System) (is : Nat → AxiIn) (n : Nat) : Prop where
  ok : Admits System.step System.Ok y is n
  masked : Admits System.step (fun y _ => y.masked = true) y is n
  mtime : Admits System.step (fun y _ => y.loadsMtime = false) y is n
  code : ∀ k < n, (run System.step y is k).delivers (is k) = true → ∀ j < k,
    (run System.step y is j).slave.mem.code (run System.step y is k).core.ifuPc =
      y.slave.mem.code (run System.step y is k).core.ifuPc

/-- The core follows the execution of the machine from `a`, and has written `ws` to its registers. -/
structure Sim (a : Arch) (y : System) (ws : List (RegId × Word)) : Prop where
  occ : Occ y
  reads : Reads y
  behind : Behind y
  loads : ∀ i, y.Ok i → y.Loads i
  follows : ∃ k, (∃ real out, Tracks y (a.exec k) real out ∧ ws ++ out = a.writes k) ∨
    Trapping y (a.exec k) ∧ ws = a.writes k

namespace Arch

variable (a : Arch)

@[simp] theorem exec_code (k : Nat) : (a.exec k).code = a.code := by
  induction k with
  | zero => rfl
  | succ k ih => rw [exec_succ, ← ih]; rfl

theorem writes_succ (k : Nat) : a.writes (k + 1) = a.writes k ++ (a.exec k).lsWb.writes := rfl

/-- The machine after the instruction that leaves MEM, if one does. -/
theorem exec_next (k : Nat) (leaves : Bool) :
    (a.exec k).next leaves = a.exec (if leaves then k + 1 else k) ∧
      a.writes k ++ (if leaves then (a.exec k).lsWb.writes else []) =
        a.writes (if leaves then k + 1 else k) := by
  cases leaves with
  | false => exact ⟨rfl, List.append_nil _⟩
  | true => exact ⟨(a.exec_succ k).symm, (a.writes_succ k).symm⟩

variable {a}

theorem writes_of_trap (h : a.lsWb.trap = true) : a.lsWb.writes = [] := by
  have hw : a.lsWb.wen = false := by rw [LsWb.wen, h, Bool.not_true, Bool.and_false]
  simp [LsWb.writes, hw]

end Arch

namespace Sim

variable {a : Arch} {y : System} {i : AxiIn} {ws : List (RegId × Word)}

/-- The memory is that of the machine while no store is in MEM. -/
theorem still (h : Sim a y ws) (hw : y.core.axiSigWrite = false) : ∃ b, Still y b := by
  obtain ⟨k, ⟨real, out, ht, -⟩ | ⟨ht, -⟩⟩ := h.follows
  · exact ⟨_, ht.ram.still hw⟩
  · exact ⟨_, ht.still⟩

theorem step_loads (h : Sim a y ws) (hi : y.Ok i) {j : AxiIn} (hj : (y.step i).Ok j) :
    (y.step i).Loads j := by
  intro hw' hr
  rw [h.reads.load_delivered h.occ hi hj hw' hr]
  cases hw : y.core.axiSigWrite with
  | false =>
    obtain ⟨b, hb⟩ := h.still hw
    rw [(hb.step hw).mem, hb.mem]
  | true =>
    -- a store that has left MEM leaves it empty
    have hm := Core.axiSigMem_of_write hw
    obtain ⟨hm', -, -⟩ := Occ.ready_of_mem hr
    obtain ⟨-, hl⟩ := Occ.sigMem_of_step (h.occ.not_ex_of_mem (Occ.valid_of_sigMem hm)) hm'
    rw [(h.occ.same_of_wait hm hl).2.1, hw] at hw'
    exact absurd hw'.symm Bool.false_ne_true

theorem step_behind (h : Sim a y ws) : Behind (y.step i) := by
  cases hfl : y.core.flush i with
  | true => exact Restarted.behind_of_flush hfl
  | false => exact h.behind.step h.occ hfl

theorem step_follows (h : Sim a y ws) (hi : y.Ok i) (hq : y.masked = true)
    (hmtime : y.loadsMtime = false) (hs : y.smooth i = true)
    (hword : y.delivers i = true → y.core.ifuIns i = a.code y.core.ifuPc) :
    ∃ k, (∃ real out, Tracks (y.step i) (a.exec k) real out ∧
        (ws ++ y.regWrites i) ++ out = a.writes k) ∨
      Trapping (y.step i) (a.exec k) ∧ ws ++ y.regWrites i = a.writes k := by
  obtain ⟨k, ⟨real, out, ht, hws⟩ | ⟨ht, rfl⟩⟩ := h.follows
  · rw [← a.exec_code k] at hword
    rcases ht.step ⟨h.occ, h.behind, hq⟩ (h.loads i hi) hmtime hi hs hword with
      ⟨real', out', hout, hstep⟩ | ⟨rfl, hstep⟩
    · obtain ⟨hnext, hwrites⟩ := a.exec_next k (y.core.leaves i && real)
      rw [hnext] at hstep
      refine ⟨_, .inl ⟨real', out', hstep, ?_⟩⟩
      rw [List.append_assoc, ← hout, ← List.append_assoc, hws, hwrites]
    · exact ⟨k, .inr ⟨hstep, hws⟩⟩
  · rw [ht.regWrites_eq hq i, List.append_nil]
    cases hfl : y.core.flush i with
    | false => exact ⟨k, .inr ⟨ht.step_wait hq h.occ hfl, rfl⟩⟩
    | true =>
      simp only [System.smooth, Bool.and_eq_true, Bool.not_eq_true'] at hs
      refine ⟨k + 1, .inl ⟨false, [], ?_, ?_⟩⟩
      · rw [Arch.exec_succ]
        exact ht.step_flush hq h.occ hs.1.2 hfl
      · rw [Arch.writes_succ, Arch.writes_of_trap ht.trap]

theorem step (h : Sim a y ws) (hi : y.Ok i) (hq : y.masked = true) (hmtime : y.loadsMtime = false)
    (hs : y.smooth i = true)
    (hword : y.delivers i = true → y.core.ifuIns i = a.code y.core.ifuPc) :
    Sim a (y.step i) (ws ++ y.regWrites i) where
  occ := h.occ.step hi
  reads := by
    simp only [System.smooth, Bool.and_eq_true, Bool.not_eq_true'] at hs
    exact h.reads.step h.occ hi hs.1.1.1
  behind := h.step_behind
  loads _ := h.step_loads hi
  follows := h.step_follows hi hq hmtime hs hword

theorem afterReset (h : y.AfterReset) : Sim y.arch y [] where
  occ := Occ.afterReset h
  reads := Reads.afterReset h
  behind := Behind.afterReset h
  loads i _ _ hr := by simp [Core.memReadyAxi, h.core.rw, AxiRw.zero] at hr
  follows := by
    have hc := h.core
    have hcleared : y.arch.csr.Cleared := by
      change y.core.csr.mip &&& _ = y.core.csr.mip
      rw [hc.csr]
      exact BitVec.zero_and
    have hwb : y.core.lsWb.data = LsWb.zero := by rw [hc.lsWb]
    have hmem : y.core.exLs.valid = false := by rw [hc.exLs]
    have hins : y.core.ifId.data.ins = 0#32 := by rw [hc.ifId]; rfl
    have hfree : y.core.busy = false := by simp [Core.busy, hc.ifId, hc.idEx, hc.exLs]
    have hen : y.core.mtimecmpEn = false := by rw [Core.mtimecmpEn, hc.exLs]; rfl
    have hw : y.core.axiSigWrite = false := by simp [Core.axiSigWrite, Core.axiSigMem, hmem]
    refine ⟨0, .inl ⟨false, [], ⟨.idle ⟨by rw [hc.lsWb], by rw [hwb]; rfl, rfl, rfl, ?_⟩,
      .of_free hfree, ⟨fun _ => ⟨.inl ?_, h.wr, rfl⟩, ?_⟩,
      ⟨fun _ => ⟨rfl, ?_⟩, ?_⟩, ?_, ⟨rfl, rfl⟩, fun _ _ => hcleared⟩, rfl⟩⟩
    · intro r
      rw [hwb, (LsWb.zero_holds y.arch).settle]
      exact Arch.bubble_settle rfl hcleared r
    · rw [hc.rw]
      rfl
    · intro hw'
      rw [hw] at hw'
      exact absurd hw' Bool.false_ne_true
    · intro hen'
      rw [hen] at hen'
      exact absurd hen' Bool.false_ne_true
    · intro hm
      rw [hmem] at hm
      exact absurd hm Bool.false_ne_true
    · have hag : y.arch.again = !y.core.csr.keep := rfl
      cases hk : y.core.csr.keep with
      | true => exact .discards ⟨hk, hc.bruPc, hins⟩ (hag.trans (by rw [hk]; rfl))
      | false =>
        exact .begins ⟨hk, hc.ifuPc, hc.bruPc, hins, hc.delay, hfree⟩ (hag.trans (by rw [hk]; rfl))

end Sim

/-- Every smooth run follows the reference machine. -/
theorem sim_run {y : System} {is : Nat → AxiIn} {n : Nat} (h₀ : y.AfterReset)
    (ht : y.Timeless is n) (hs : Admits System.step (fun y i => y.smooth i = true) y is n) :
    ∀ k ≤ n, Sim y.arch (run System.step y is k) (trace System.step System.regWrites y is k) := by
  intro k
  induction k with
  | zero => exact fun _ => Sim.afterReset h₀
  | succ k ih =>
    intro hk
    have hsplit : Admits System.step (fun y i => y.splitRead i = false) y is n := by
      intro j hj
      have hj' := hs j hj
      simp only [System.smooth, Bool.and_eq_true, Bool.not_eq_true'] at hj'
      exact hj'.1.1.1
    apply (ih (by omega)).step (ht.ok k hk) (ht.masked k hk) (ht.mtime k hk) (hs k hk)
    intro hd
    obtain ⟨j, hj, hword⟩ := delivered_word h₀ (ht.ok.mono hk) (hsplit.mono (by omega)) hd
    rw [hword]
    exact ht.code k hk hd j hj

/-- The register writes are those of the machine, in their order. -/
theorem regWrites_prefix {y : System} {is : Nat → AxiIn} {n : Nat} (h₀ : y.AfterReset)
    (ht : y.Timeless is n) (hs : Admits System.step (fun y i => y.smooth i = true) y is n) :
    ∃ k, trace System.step System.regWrites y is n <+: y.arch.writes k := by
  obtain ⟨k, ⟨real, out, -, hws⟩ | ⟨-, hws⟩⟩ := (sim_run h₀ ht hs n le_rfl).follows
  · exact ⟨k, hws ▸ List.prefix_append _ _⟩
  · exact ⟨k, hws ▸ List.prefix_rfl⟩

/-- **Latency independence.** From the same core and memory after reset, of any two smooth runs of a
program that does not depend on time, the register writes of one are a prefix of those of the
other. -/
theorem latency_independent {y y' : System} {is is' : Nat → AxiIn} {n n' : Nat}
    (h₀ : y.AfterReset) (h₀' : y'.AfterReset) (hcore : y'.core = y.core)
    (hmem : y'.slave.mem = y.slave.mem) (ht : y.Timeless is n) (ht' : y'.Timeless is' n')
    (hs : Admits System.step (fun y i => y.smooth i = true) y is n)
    (hs' : Admits System.step (fun y i => y.smooth i = true) y' is' n') :
    trace System.step System.regWrites y is n <+: trace System.step System.regWrites y' is' n' ∨
      trace System.step System.regWrites y' is' n' <+: trace System.step System.regWrites y is n := by
  obtain ⟨k, hk⟩ := regWrites_prefix h₀ ht hs
  obtain ⟨k', hk'⟩ := regWrites_prefix h₀' ht' hs'
  have harch : y'.arch = y.arch := by rw [System.arch, hcore, hmem]; rfl
  rw [harch] at hk'
  exact prefix_or_prefix_of_history hk hk'

/-- Two instructions, with `jal x0, 0` behind them. -/
def pairProgram (ins : Word) : System :=
  System.boot true (fun _ => 0#64) 0#4 0#4 (Mem.image [ins, 0x6f#64])

theorem pairProgram_afterReset (ins : Word) : (pairProgram ins).AfterReset :=
  System.afterReset_boot _ _ _ _ _

/-- `addi x5, x0, 1` and `addi x6, x5, 1`: without delays the second is fetched while the first is in
MEM, and gets `x5` by forwarding. -/
theorem latency_independent_addi :
    let y := pairProgram 0x12831300100293#64
    let is := System.inputs y noWait
    let is' := System.inputs y slowReads
    trace System.step System.regWrites y is 24 = [(5#5, 1#64), (6#5, 2#64)] ∧
    trace System.step System.regWrites y is' 32 = [(5#5, 1#64)] ∧
    (trace System.step System.regWrites y is 24 <+: trace System.step System.regWrites y is' 32 ∨
      trace System.step System.regWrites y is' 32 <+: trace System.step System.regWrites y is 24) :=
  ⟨by decide +kernel, by decide +kernel,
    latency_independent (pairProgram_afterReset _) (pairProgram_afterReset _) rfl rfl
      ⟨System.admits_inputs _ _ _, by unfold Admits; decide +kernel,
        by unfold Admits; decide +kernel, by decide +kernel⟩
      ⟨System.admits_inputs _ _ _, by unfold Admits; decide +kernel,
        by unfold Admits; decide +kernel, by decide +kernel⟩
      (by unfold Admits; decide +kernel) (by unfold Admits; decide +kernel)⟩

/-- `csrrs x5, mstatus, x0` and `addi x6, x5, 0`: without delays the addition reads the old `x5`. -/
theorem latency_independent_fails :
    let y := pairProgram 0x28313300022f3#64
    let is := System.inputs y noWait
    let is' := System.inputs y slowReads
    y.AfterReset ∧ y.Timeless is 24 ∧ y.Timeless is' 48 ∧
      trace System.step System.regWrites y is 24 = [(5#5, 0x1808#64), (6#5, 0#64)] ∧
      trace System.step System.regWrites y is' 48 = [(5#5, 0x1808#64), (6#5, 0x1808#64)] ∧
      ¬ (trace System.step System.regWrites y is 24 <+: trace System.step System.regWrites y is' 48 ∨
        trace System.step System.regWrites y is' 48 <+: trace System.step System.regWrites y is 24) :=
  ⟨pairProgram_afterReset _,
    ⟨System.admits_inputs _ _ _, by unfold Admits; decide +kernel,
      by unfold Admits; decide +kernel, by decide +kernel⟩,
    ⟨System.admits_inputs _ _ _, by unfold Admits; decide +kernel,
      by unfold Admits; decide +kernel, by decide +kernel⟩,
    by decide +kernel, by decide +kernel, by decide +kernel⟩

end Oscpu.Axi
