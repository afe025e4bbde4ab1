import Oscpu.Diff.Refine

/-!
# Whole runs of the pipeline of `cpu_diff`

From reset the pipeline fetches two zero words below `PC_START` and then runs in step with the
reference machine, whatever the register file and the RAM hold. The exception is a load whose
register is both the address and the data of the store behind it: the shortcut that saves the
load-use bubble forwards the data only, and the store goes to the address the register held before.
-/

namespace Oscpu.Diff

open Oscpu.Rtl Oscpu.Lib

/-! ## Boot -/

/-- The state that an edge under reset leaves, with what reset does not touch. -/
def Core.afterReset (rf : Regs) (ram : Ram) (regldQ wdataQ : Word) : Core where
  pc := 0x7ffffff8#64
  ifId := ⟨false, IfId.zero⟩
  idEx := ⟨false, IdEx.zero⟩
  exLs := ⟨false, ExLs.zero⟩
  lsWb := ⟨false, LsWb.zero⟩
  rf := rf
  ram := ram
  regldQ := regldQ
  wdataQ := wdataQ

/-- The state at the first edge without reset: reset was released between edges, or not seen. -/
def Core.start (released : Bool) (rf : Regs) (ram : Ram) (regldQ wdataQ : Word) : Core :=
  let s := afterReset rf ram regldQ wdataQ
  if released then s.release else s

theorem Core.step_true (s : Core) :
    s.step true = afterReset (s.step true).rf (s.step true).ram s.lsuLsres s.memWdata := rfl

/-- The reference machine at the first instruction. -/
def Arch.init (rf : Regs) (ram : Ram) : Arch := ⟨PC_START, rf, ram⟩

/-- `RAMHelper` returns zero for the two fetches below `PC_START`. -/
def BootZero (ram : Ram) : Prop := ifu ram 0x7ffffff8#64 = 0#32 ∧ ifu ram 0x7ffffffc#64 = 0#32

/-- The pipeline before it fetches the first instruction. -/
structure Boot (rf : Regs) (ram : Ram) (s : Core) : Prop where
  pc : s.pc = 0x7ffffff8#64 ∨ s.pc = 0x7ffffffc#64
  ins : s.ifId.data.ins = 0#32
  idEx : s.idEx.data.rdwen = false ∧ s.idEx.data.sten = false
  exLs : s.exLs.data.rdwen = false ∧ s.exLs.data.sten = false
  lsWb : s.lsWb.data.rdwen = false
  rf_eq : s.rf = rf
  ram_eq : s.ram = ram

namespace Boot

variable {rf : Regs} {ram : Ram} {s : Core}

theorem jump (h : Boot rf ram s) : s.ifidBubble = false := by
  rw [Core.ifidBubble, h.ins]
  exact IsNop.jump (.inr rfl) _ _

theorem bubble (h : Boot rf ram s) : s.idexBubble = false := by
  simp [Core.idexBubble, h.idEx.1]

theorem fetch (h : Boot rf ram s) (hz : BootZero ram) : ifu s.ram s.pc = 0#32 := by
  rw [h.ram_eq]
  rcases h.pc with hpc | hpc
  · rw [hpc, hz.1]
  · rw [hpc, hz.2]

theorem step_ins (h : Boot rf ram s) (hz : BootZero ram) :
    (s.step false).ifId.data.ins = 0#32 := by
  simp [Core.step_false, h.bubble, Core.toIfId, h.jump, h.fetch hz]

theorem step_pc (h : Boot rf ram s) : (s.step false).pc = s.pc + 4#64 := by
  simp [Core.step_false, h.bubble, Core.nextPc, h.jump]

theorem step_idle (h : Boot rf ram s) :
    ((s.step false).idEx.data.rdwen = false ∧ (s.step false).idEx.data.sten = false) ∧
      ((s.step false).exLs.data.rdwen = false ∧ (s.step false).exLs.data.sten = false) ∧
        (s.step false).lsWb.data.rdwen = false := by
  refine ⟨?_, ?_, ?_⟩
  · have hnop : IsNop s.ifId.data.ins := .inr h.ins
    cases hv : s.ifId.valid <;>
      simp [Core.step_false, hv, h.idEx, Core.toIdEx, h.bubble, hnop.rdwen, hnop.sten]
  · simp [Core.step_false, Core.toExLs, h.idEx]
  · cases hv : s.exLs.valid <;> simp [Core.step_false, hv, h.lsWb, Core.toLsWb, h.exLs]

theorem step_rf (h : Boot rf ram s) : (s.step false).rf = rf := by
  simp [Core.step_false, h.lsWb, h.rf_eq]

theorem step_ram (h : Boot rf ram s) : (s.step false).ram = ram := by
  rw [Core.step_false, h.exLs.2, h.ram_eq]
  rfl

theorem step_boot (h : Boot rf ram s) (hz : BootZero ram) (hp : s.pc = 0x7ffffff8#64) :
    Boot rf ram (s.step false) := by
  obtain ⟨hidEx, hexLs, hlsWb⟩ := h.step_idle
  exact ⟨.inr (h.step_pc.trans (congrArg (· + 4#64) hp)), h.step_ins hz, hidEx, hexLs, hlsWb,
    h.step_rf, h.step_ram⟩

theorem step_start (h : Boot rf ram s) (hp : s.pc = 0x7ffffffc#64) :
    (s.step false).pc = PC_START :=
  h.step_pc.trans (congrArg (· + 4#64) hp)

/-- An edge fetches the next boot word, or leaves the pipeline empty before the first instruction. -/
theorem step (h : Boot rf ram s) (hz : BootZero ram) :
    Boot rf ram (s.step false) ∨ Sim (Arch.init rf ram) (s.step false) 0 false false false := by
  rcases h.pc with hp | hp
  · exact .inl (h.step_boot hz hp)
  · obtain ⟨hidEx, hexLs, hlsWb⟩ := h.step_idle
    refine .inr ⟨?_, ?_, h.step_rf, ?_, h.step_ram, .of_idle hexLs, .of_idle hidEx,
      .empty (.inr (h.step_ins hz)) (h.step_start hp)⟩
    · simp [Core.step_false]
    · simp [Core.step_false]
    · simp [Core.wbWrite, hlsWb]

theorem writes (h : Boot rf ram s) (rst : Bool) : s.rfWrites rst = [] ∧ s.ramWrites rst = [] := by
  simp [Core.rfWrites, Core.wbWrite, h.lsWb, Core.ramWrites, h.exLs]

theorem start (released : Bool) (rf : Regs) (ram : Ram) (regldQ wdataQ : Word)
    (hz : released = true → BootZero ram) :
    Boot rf ram (Core.start released rf ram regldQ wdataQ) := by
  have h : Boot rf ram (Core.afterReset rf ram regldQ wdataQ) :=
    ⟨.inl rfl, rfl, ⟨rfl, rfl⟩, ⟨rfl, rfl⟩, rfl, rfl, rfl⟩
  cases released with
  | false => exact h
  | true =>
    refine ⟨.inr ?_, ?_, ⟨rfl, rfl⟩, ⟨rfl, rfl⟩, rfl, rfl, rfl⟩
    · simp only [Core.start, if_true, Core.release, h.bubble, Core.nextPc, h.jump]
      rfl
    · simp [Core.start, Core.release, h.bubble, Core.toIfId, h.jump, h.fetch (hz rfl)]

end Boot

/-! ## Runs -/

/-- The two write sequences of every run from `s` are prefixes of those of the execution `a`. -/
def Core.Refines (a : Arch) (s : Core) : Prop :=
  ∀ n, (∃ m, trace Core.step Core.rfWrites s (fun _ => false) n =
      history (fun k => (a.exec k).rfWrite.toList) m) ∧
    ∃ m, trace Core.step Core.ramWrites s (fun _ => false) n =
      history (fun k => (a.exec k).ramWrites) m

/-- The placement of the instructions after `n` cycles, with the writes performed so far. -/
theorem sim_run {rf : Regs} {ram : Ram} {s : Core} (h : Boot rf ram s) (hz : BootZero ram)
    (hcode : (Arch.init rf ram).CodeStable) (hls : ∀ k, ¬ (Arch.init rf ram).LoadStoreSame k)
    (n : Nat) :
    let a := Arch.init rf ram
    let c := run Core.step s (fun _ => false) n
    let rfs := trace Core.step Core.rfWrites s (fun _ => false) n
    let rams := trace Core.step Core.ramWrites s (fun _ => false) n
    Boot rf ram c ∧ rfs = [] ∧ rams = [] ∨
      ∃ w bw bm be, Sim a c w bw bm be ∧
        rfs = history (fun k => (a.exec k).rfWrite.toList) w ∧
        rams = history (fun k => (a.exec k).ramWrites) (w + bw.toNat) := by
  induction n with
  | zero => exact .inl ⟨h, rfl, rfl⟩
  | succ n ih =>
    simp only [run_succ, trace_succ]
    rcases ih with ⟨hb, hrf, hram⟩ | ⟨w, bw, bm, be, hs, hrf, hram⟩
    · rw [hrf, hram, (hb.writes _).1, (hb.writes _).2]
      rcases hb.step hz with hb' | hs
      · exact .inl ⟨hb', rfl, rfl⟩
      · exact .inr ⟨0, false, false, false, hs, rfl, rfl⟩
    · obtain ⟨be', hs'⟩ := hs.step hcode hls
      refine .inr ⟨w + bw.toNat, bm, be, be', hs', ?_, ?_⟩
      · rw [hrf, hs.rfWrites_eq]
      · rw [hram, hs.ramWrites_eq]

/-- **The pipeline refines the reference machine** on every program without a load whose register
is both address and data of the next store. -/
theorem pipeline_refines (rf : Regs) (ram : Ram) (regldQ wdataQ : Word) (released : Bool)
    (hz : BootZero ram) (hcode : (Arch.init rf ram).CodeStable)
    (hls : ∀ k, ¬ (Arch.init rf ram).LoadStoreSame k) :
    (Core.start released rf ram regldQ wdataQ).Refines (Arch.init rf ram) := by
  intro n
  rcases sim_run (Boot.start released rf ram regldQ wdataQ fun _ => hz) hz hcode hls n with
    ⟨-, hrf, hram⟩ | ⟨w, bw, bm, be, -, hrf, hram⟩
  · exact ⟨⟨0, hrf⟩, ⟨0, hram⟩⟩
  · exact ⟨⟨_, hrf⟩, ⟨_, hram⟩⟩

/-! ## Programs that end in a jump to itself -/

namespace Arch

variable {a : Arch}

theorem step_of_selfLoop (h : a.ins = 0x6f#32) : a.step = a := by
  have hjump : Diff.jump a.ins a.rs1 a.rs2 = true := by
    have hjal : oJal 0x6f#32 = true := by decide
    simp [Diff.jump, h, hjal]
  have hpc : jumpPc a.ins a.pc a.rs1 = a.pc := by
    have hjalr : oJalr 0x6f#32 = false := by decide
    have himm : oImm 0x6f#32 = 0#64 := by decide
    simp [jumpPc, h, hjalr, himm]
  have hrdwen : a.rdwen = false := by rw [rdwen, h]; decide
  have hsten : a.sten = false := by rw [sten, h]; decide
  unfold step
  rw [hjump, hpc, hrdwen, hsten, Regs.write_false]
  rfl

section

variable {k : Nat} (h : (a.exec k).ins = 0x6f#32)
include h

theorem exec_of_selfLoop : ∀ n, k ≤ n → a.exec n = a.exec k := by
  intro n hkn
  induction n, hkn using Nat.le_induction with
  | base => rfl
  | succ n _ ih => rw [exec_succ, ih, step_of_selfLoop h]

theorem exec_min_of_selfLoop (n : Nat) : a.exec n = a.exec (min n k) := by
  rcases Nat.le_total n k with hn | hn
  · rw [Nat.min_eq_left hn]
  · rw [Nat.min_eq_right hn, exec_of_selfLoop h n hn]

/-- Only the instructions up to the loop are to be checked. -/
theorem codeStable_of_selfLoop
    (hcode : ∀ j ≤ k, ∀ i ≤ j, ifu (a.exec i).ram (a.exec j).pc = (a.exec j).ins)
    (hloop : ∀ i ≤ k, ifu (a.exec i).ram (a.exec k).pc = (a.exec k).ins) : a.CodeStable := by
  intro i j hij
  rcases Nat.le_total j k with hj | hj
  · exact hcode j hj i hij
  · rw [exec_of_selfLoop h j hj, exec_min_of_selfLoop h i]
    exact hloop _ (Nat.min_le_right i k)

theorem not_loadStoreSame_of_selfLoop (hls : ∀ j < k, ¬ a.LoadStoreSame j) (j : Nat) :
    ¬ a.LoadStoreSame j := by
  rcases Nat.lt_or_ge j k with hj | hj
  · exact hls j hj
  · intro hld
    have hlden : (a.exec j).lden = false := by
      rw [exec_of_selfLoop h j hj, lden, h]
      decide
    rw [hld.1] at hlden
    exact absurd hlden (by simp)

/-- The RAM writes of the execution are those before the loop. -/
theorem history_of_selfLoop {w : List RamWrite}
    (hbefore : ∀ m ≤ k, history (fun n => (a.exec n).ramWrites) m = [] ∨
      history (fun n => (a.exec n).ramWrites) m = w) (m : Nat) :
    history (fun n => (a.exec n).ramWrites) m = [] ∨
      history (fun n => (a.exec n).ramWrites) m = w := by
  rcases Nat.le_total m k with hm | hm
  · exact hbefore m hm
  · induction m, hm using Nat.le_induction with
    | base => exact hbefore k le_rfl
    | succ m hkm ih =>
      have hsten : (a.exec m).ramWrites = [] := by
        rw [exec_of_selfLoop h m hkm, ramWrites, sten, h]
        rfl
      rw [history_succ, hsten, List.append_nil]
      exact ih

end

end Arch

/-- `auipc x6, 0`, `addi x5, x0, 42`, `sd x5, 0x100(x6)`, `ld x7, 0x100(x6)`, `jal x0, 0`. -/
def storeLoadRam : Ram := fun i =>
  if i = 0#64 then 0x02a0029300000317#64
  else if i = 1#64 then 0x1003338310533023#64
  else if i = 2#64 then 0x6f#64
  else 0#64

/-- The registers are written in the cycles up to the ninth, and the RAM in the seventh. -/
theorem pipeline_refines_storeLoad :
    let s := Core.start true (fun _ => 0#64) storeLoadRam 0#64 0#64
    s.Refines (Arch.init (fun _ => 0#64) storeLoadRam) ∧
      trace Core.step Core.rfWrites s (fun _ => false) 9 =
        [(6#5, 0x80000000#64), (5#5, 42#64), (7#5, 42#64)] ∧
      trace Core.step Core.ramWrites s (fun _ => false) 9 =
        [(ramIdx 0x80000100#64, 0xffffffffffffffff#64, 42#64)] := by
  intro s
  have hloop : ((Arch.init (fun _ => 0#64) storeLoadRam).exec 4).ins = 0x6f#32 := by
    decide +kernel
  refine ⟨pipeline_refines _ _ _ _ _ (by unfold BootZero; decide +kernel) ?_ ?_,
    by decide +kernel, by decide +kernel⟩
  · exact Arch.codeStable_of_selfLoop hloop (by decide +kernel) (by decide +kernel)
  · exact Arch.not_loadStoreSame_of_selfLoop hloop (by decide +kernel)

/-- `auipc x5, 0`, `addi x5, x5, 0x100`, `ld x5, 0(x5)`, `sd x5, 0(x5)`, `jal x0, 0`, and the
pointer that the load reads. -/
def shortcutRam : Ram := fun i =>
  if i = 0#64 then 0x1002829300000297#64
  else if i = 1#64 then 0x0052b0230002b283#64
  else if i = 2#64 then 0x6f#64
  else if i = ramIdx 0x80000100#64 then 0x80000200#64
  else 0#64

/-- The store goes to where `x5` pointed before the load and not to the loaded pointer. -/
theorem pipeline_refines_fails :
    let a := Arch.init (fun _ => 0#64) shortcutRam
    BootZero shortcutRam ∧ a.CodeStable ∧
      ¬ (Core.start false (fun _ => 0#64) shortcutRam 0#64 0#64).Refines a ∧
      ¬ (Core.start true (fun _ => 0#64) shortcutRam 0#64 0#64).Refines a := by
  intro a
  have hloop : (a.exec 4).ins = 0x6f#32 := by decide +kernel
  have hcode : a.CodeStable :=
    Arch.codeStable_of_selfLoop hloop (by decide +kernel) (by decide +kernel)
  have hwrites := Arch.history_of_selfLoop hloop
    (w := [(ramIdx 0x80000200#64, 0xffffffffffffffff#64, 0x80000200#64)]) (by decide +kernel)
  have hbad (released : Bool) (n : Nat)
      (htr : trace Core.step Core.ramWrites
        (Core.start released (fun _ => 0#64) shortcutRam 0#64 0#64) (fun _ => false) n =
          [(ramIdx 0x80000100#64, 0xffffffffffffffff#64, 0x80000200#64)]) :
      ¬ (Core.start released (fun _ => 0#64) shortcutRam 0#64 0#64).Refines a := by
    intro href
    obtain ⟨-, m, hm⟩ := href n
    rw [htr] at hm
    rcases hwrites m with h | h <;> rw [h] at hm <;> exact absurd hm (by decide)
  exact ⟨by unfold BootZero; decide +kernel, hcode, hbad false 9 (by decide +kernel),
    hbad true 8 (by decide +kernel)⟩

end Oscpu.Diff
