import Oscpu.Lib.Run
import Oscpu.Rtl.Reg

/-!
# A `stl_reg` behind `stl_rst`

Both modules run on rising clock edges and on falling edges of their `i_rst_n`. The reset input of
the design is active high: `stl_rst` takes it for an active-low one, which clears its flip-flops
when reset is released, and `stl_reg`, which tests for a high level, runs on that falling edge as
well and finds no reset. The model goes from event to event, a clock edge or a change of the reset
input, in any order.
-/

namespace Oscpu.Rtl

open Lib

/-- The flip-flops of `stl_rst`. -/
structure StlRst where
  r1 : Bool
  r2 : Bool

/-- `stl_rst` on one of its events, a rising clock edge or a falling edge of `i_rst_n`. -/
def StlRst.step (q : StlRst) (rst : Bool) : StlRst :=
  if !rst then ⟨false, false⟩ else ⟨true, q.r1⟩

inductive Edge where
  | clk | reset
  deriving DecidableEq, Repr

/-- A rising clock edge or a change of the reset input, with `i_wen` and `i_din` at that time. -/
structure RegIn (α : Type*) where
  edge : Edge
  wen : Bool
  din : α

/-- The level of the reset input, `stl_rst`, and a `stl_reg` whose `i_rst_n` is `o_rst_n_sync`. -/
structure ResetReg (α : Type*) where
  reset : Bool
  sync : StlRst
  dout : α

namespace ResetReg

section

variable {α : Type*}

/-- Reset is low and the synchroniser has seen it. -/
def idle (d : α) : ResetReg α := ⟨false, ⟨false, false⟩, d⟩

/-- `stl_reg` once more, when `o_rst_n_sync` falls from `old`. -/
def wake (resetVal : α) (i : RegIn α) (old : Bool) (s : ResetReg α) : ResetReg α :=
  { s with
    dout := if old && !s.sync.r2 then stlReg resetVal s.sync.r2 i.wen i.din s.dout else s.dout }

/-- One event. On a clock edge both modules read what the registers held before it. -/
def step (resetVal : α) (s : ResetReg α) (i : RegIn α) : ResetReg α :=
  match i.edge with
  | .clk =>
    wake resetVal i s.sync.r2
      { reset := s.reset
        sync := s.sync.step s.reset
        dout := stlReg resetVal s.sync.r2 i.wen i.din s.dout }
  | .reset =>
    -- `stl_rst` is not sensitive to the rising edge of its `i_rst_n`
    let reset := !s.reset
    wake resetVal i s.sync.r2
      { reset := reset
        sync := if reset then s.sync else s.sync.step reset
        dout := s.dout }

/-- The synchroniser is clear while reset is low, and its stages fill in order. -/
structure Settled (s : ResetReg α) : Prop where
  low : s.reset = false → s.sync = ⟨false, false⟩
  order : s.sync.r2 = true → s.sync.r1 = true

end

section

variable {α : Type*} {resetVal : α} {s : ResetReg α} {i : RegIn α}

theorem step_clk_low (hs : s.Settled) (he : i.edge = .clk) (hr : s.reset = false) :
    s.step resetVal i = ⟨false, ⟨false, false⟩, if i.wen then i.din else s.dout⟩ := by
  simp [step, wake, he, hr, hs.low hr, StlRst.step, stlReg]

theorem step_clk_high (hs : s.Settled) (he : i.edge = .clk) (hr : s.reset = true) :
    s.step resetVal i = ⟨true, ⟨true, s.sync.r1⟩,
      if s.sync.r2 then resetVal else if i.wen then i.din else s.dout⟩ := by
  have hkeep : (s.sync.r2 && !s.sync.r1) = false := by
    cases h2 : s.sync.r2 with
    | false => rfl
    | true => simp [hs.order h2]
  simp [step, wake, he, hr, StlRst.step, stlReg, hkeep]

theorem step_rise (he : i.edge = .reset) (hr : s.reset = false) :
    s.step resetVal i = ⟨true, s.sync, s.dout⟩ := by
  simp [step, wake, he, hr]

/-- The release: with the synchroniser full, `stl_reg` takes an enabled input. -/
theorem step_fall (he : i.edge = .reset) (hr : s.reset = true) :
    s.step resetVal i =
      ⟨false, ⟨false, false⟩, if s.sync.r2 && i.wen then i.din else s.dout⟩ := by
  cases h2 : s.sync.r2 <;> simp [step, wake, he, hr, StlRst.step, stlReg, h2]

theorem Settled.step (hs : s.Settled) (resetVal : α) (i : RegIn α) :
    (s.step resetVal i).Settled := by
  cases he : i.edge with
  | clk =>
    cases hr : s.reset with
    | false =>
      rw [step_clk_low hs he hr]
      exact ⟨fun _ => rfl, fun h => h⟩
    | true =>
      rw [step_clk_high hs he hr]
      exact ⟨fun h => absurd h (by simp), fun _ => rfl⟩
  | reset =>
    cases hr : s.reset with
    | false =>
      rw [step_rise he hr]
      exact ⟨fun h => absurd h (by simp), hs.order⟩
    | true =>
      rw [step_fall he hr]
      exact ⟨fun _ => rfl, fun h => h⟩

theorem settled_idle (d : α) : (idle d).Settled := ⟨fun _ => rfl, fun h => h⟩

end

/-! ## Pulses -/

section

variable {α : Type*} (resetVal d : α) (is : Nat → RegIn α)

/-- The state after `n` events, from out of reset with `d` in the register. -/
def after (n : Nat) : ResetReg α := run (step resetVal) (idle d) is n

/-- The value after `n` events from event `i` on if the register just loaded. -/
def loaded (x : α) (i : Nat) : Nat → α
  | 0 => x
  | n + 1 => if (is (i + n)).wen then (is (i + n)).din else loaded x i n

/-- Reset rises with event `i` and falls with event `j`; `j - i - 1` clock edges lie in between. -/
structure Pulse (i j : Nat) : Prop where
  lt : i < j
  low : (after resetVal d is i).reset = false
  rise : (is i).edge = .reset
  clk : ∀ k, i < k → k < j → (is k).edge = .clk
  fall : (is j).edge = .reset

/-- What a pulse is for, as far as event `n`: its release loads nothing, and if it spans a clock
edge the register holds the reset value up to the first enabled clock edge. -/
structure Resets (n i j : Nat) : Prop where
  release : (after resetVal d is (j + 1)).dout = (after resetVal d is j).dout
  holds : i + 1 < j → ∀ m, j < m → m ≤ n →
    (∀ k, j < k → k < m → (is k).edge = .clk → (is k).wen = false) →
    (after resetVal d is m).dout = resetVal

/-- A pulse that reaches `stl_reg`: of three clock edges, unless the register comes to hold the
reset value without it, and with no other value enabled at its release. -/
structure Effective (i j : Nat) : Prop where
  long : i + 1 < j → i + 3 < j ∨
    loaded is (after resetVal d is i).dout (i + 1) (j - (i + 1)) = resetVal
  quiet : i + 2 < j → (is j).wen = true → (is j).din = resetVal

end

section

variable {α : Type*} {resetVal d : α} {is : Nat → RegIn α} {i j n : Nat}

theorem after_succ (n : Nat) :
    after resetVal d is (n + 1) = (after resetVal d is n).step resetVal (is n) := rfl

theorem settled_after (n : Nat) : (after resetVal d is n).Settled := by
  induction n with
  | zero => exact settled_idle d
  | succ n ih => exact ih.step resetVal (is n)

/-- While reset is high, the last change of it was its rise. -/
theorem exists_rise (h : (after resetVal d is n).reset = true) :
    ∃ i, i < n ∧ (after resetVal d is i).reset = false ∧ (is i).edge = .reset ∧
      ∀ k, i < k → k < n → (is k).edge = .clk := by
  induction n with
  | zero => exact absurd h (by simp [after, idle])
  | succ n ih =>
    rw [after_succ] at h
    cases he : (is n).edge with
    | reset =>
      refine ⟨n, Nat.lt_succ_self n, ?_, he, fun k hk hk' => by omega⟩
      cases hr : (after resetVal d is n).reset with
      | false => rfl
      | true =>
        rw [step_fall he hr] at h
        exact absurd h (by simp)
    | clk =>
      have hr : (after resetVal d is n).reset = true := by
        by_contra hr
        rw [step_clk_low (settled_after n) he (by simpa using hr)] at h
        exact absurd h (by simp)
      obtain ⟨i, hi, hlow, hrise, hclk⟩ := ih hr
      refine ⟨i, Nat.lt_succ_of_lt hi, hlow, hrise, ?_⟩
      intro k hik hkn
      rcases Nat.lt_or_eq_of_le (Nat.le_of_lt_succ hkn) with hlt | rfl
      · exact hclk k hik hlt
      · exact he

/-- The reset value is there before the release already, which loads nothing. -/
theorem Resets.dout (hr : Resets resetVal d is n i j) (hjn : j < n) (hspan : i + 1 < j) :
    (after resetVal d is j).dout = resetVal := by
  rw [← hr.release]
  exact hr.holds hspan (j + 1) (Nat.lt_succ_self j) hjn (fun k hk hk' => by omega)

namespace Pulse

/-- Inside a pulse: two edges fill the synchroniser, and from the third on `stl_reg` is reset. -/
theorem after_add (h : Pulse resetVal d is i j) (hn : i + 1 + n ≤ j) :
    after resetVal d is (i + 1 + n) = ⟨true, ⟨decide (1 ≤ n), decide (2 ≤ n)⟩,
      if 3 ≤ n then resetVal else loaded is (after resetVal d is i).dout (i + 1) n⟩ := by
  induction n with
  | zero =>
    rw [Nat.add_zero, after_succ, step_rise h.rise h.low, (settled_after i).low h.low]
    rfl
  | succ n ih =>
    have hs := ih (by omega)
    have he := h.clk (i + 1 + n) (by omega) (by omega)
    rw [← Nat.add_assoc, after_succ, step_clk_high (settled_after _) he (by rw [hs]), hs]
    by_cases h2 : 2 ≤ n
    · simp [h2, show 1 ≤ n by omega]
    · simp [h2, show ¬ 3 ≤ n by omega, loaded]

theorem before_release (h : Pulse resetVal d is i j) :
    after resetVal d is j = ⟨true, ⟨decide (i + 1 < j), decide (i + 2 < j)⟩,
      if i + 3 < j then resetVal
      else loaded is (after resetVal d is i).dout (i + 1) (j - (i + 1))⟩ := by
  have hlt := h.lt
  have hj : i + 1 + (j - (i + 1)) = j := by omega
  have hone : 1 ≤ j - (i + 1) ↔ i + 1 < j := by omega
  have htwo : 2 ≤ j - (i + 1) ↔ i + 2 < j := by omega
  have hthree : 3 ≤ j - (i + 1) ↔ i + 3 < j := by omega
  have hadd := h.after_add (n := j - (i + 1)) (by omega)
  rw [hj] at hadd
  simp only [hadd, hone, htwo, hthree]

theorem dout_release (h : Pulse resetVal d is i j) : (after resetVal d is (j + 1)).dout =
    if decide (i + 2 < j) && (is j).wen then (is j).din else (after resetVal d is j).dout := by
  rw [after_succ, step_fall h.fall (by rw [h.before_release])]
  simp only [h.before_release]

theorem effective (h : Pulse resetVal d is i j) (hjn : j < n) (hr : Resets resetVal d is n i j) :
    Effective resetVal d is i j where
  long hspan := by
    have hd := hr.dout hjn hspan
    rw [h.before_release] at hd
    by_cases h3 : i + 3 < j
    · exact .inl h3
    · exact .inr (by simpa [h3] using hd)
  quiet hspan hwen := by
    have hrel := hr.release
    rw [h.dout_release, hr.dout hjn (by omega)] at hrel
    simpa [hspan, hwen] using hrel

/-- Before and behind the release of an effective pulse the register holds the reset value. -/
theorem dout_of_effective (h : Pulse resetVal d is i j) (he : Effective resetVal d is i j)
    (hspan : i + 1 < j) : (after resetVal d is j).dout = resetVal := by
  rw [h.before_release]
  rcases he.long hspan with h3 | hload
  · simp [h3]
  · simp [hload]

theorem dout_release_of_effective (h : Pulse resetVal d is i j)
    (he : Effective resetVal d is i j) :
    (after resetVal d is (j + 1)).dout = (after resetVal d is j).dout := by
  rw [h.dout_release]
  by_cases hw : i + 2 < j ∧ (is j).wen = true
  · rw [h.dout_of_effective he (by omega), he.quiet hw.1 hw.2]
    simp
  · have hoff : (decide (i + 2 < j) && (is j).wen) = false := by simpa using hw
    simp [hoff]

end Pulse

/-- Once it holds the reset value, the register keeps it through pulses that are effective until a
clock edge enables it. -/
theorem dout_step (hd : (after resetVal d is n).dout = resetVal)
    (hwen : (is n).edge = .clk → (is n).wen = false)
    (heff : ∀ i, Pulse resetVal d is i n → Effective resetVal d is i n) :
    (after resetVal d is (n + 1)).dout = resetVal := by
  cases he : (is n).edge with
  | clk =>
    cases hr : (after resetVal d is n).reset with
    | false => simp [after_succ, step_clk_low (settled_after n) he hr, hwen he, hd]
    | true => simp [after_succ, step_clk_high (settled_after n) he hr, hwen he, hd]
  | reset =>
    cases hr : (after resetVal d is n).reset with
    | false => simp [after_succ, step_rise he hr, hd]
    | true =>
      obtain ⟨i, hi, hlow, hrise, hclk⟩ := exists_rise hr
      have hp : Pulse resetVal d is i n := ⟨hi, hlow, hrise, hclk, he⟩
      rw [hp.dout_release_of_effective (heff i hp), hd]

theorem Pulse.resets (h : Pulse resetVal d is i j)
    (heff : ∀ i j, j < n → Pulse resetVal d is i j → Effective resetVal d is i j) (hjn : j < n) :
    Resets resetVal d is n i j where
  release := h.dout_release_of_effective (heff i j hjn h)
  holds hspan m hjm hmn hwen := by
    have he := heff i j hjn h
    induction m with
    | zero => exact absurd hjm (Nat.not_lt_zero j)
    | succ m ih =>
      rcases Nat.lt_or_eq_of_le (Nat.le_of_lt_succ hjm) with hlt | rfl
      · have hd := ih hlt (by omega) (fun k hk hkm => hwen k hk (by omega))
        exact dout_step hd (hwen m hlt (Nat.lt_succ_self m)) (fun i => heff i m (by omega))
      · rw [h.dout_release_of_effective he, h.dout_of_effective he hspan]

/-- **Reset through `stl_rst` and `stl_reg`.** In the first `n` events every pulse resets the
register as it should if and only if every pulse is effective. -/
theorem pulses_reset_iff (resetVal d : α) (is : Nat → RegIn α) (n : Nat) :
    (∀ i j, j < n → Pulse resetVal d is i j → Resets resetVal d is n i j) ↔
      ∀ i j, j < n → Pulse resetVal d is i j → Effective resetVal d is i j := by
  constructor
  · intro h i j hjn hp
    exact hp.effective hjn (h i j hjn hp)
  · intro h i j hjn hp
    exact hp.resets h hjn

end

/-! ## The two ways to fail -/

/-- A pulse of one clock edge. -/
def shortPulse : Nat → RegIn (BitVec 64) := fun k => ⟨if k = 1 then .clk else .reset, false, 0#64⟩

/-- A pulse of three clock edges, with `i_wen` high when it ends, as that of the pc in `bru` is. -/
def enabledRelease : Nat → RegIn (BitVec 64) := fun k =>
  ⟨if k = 0 ∨ k = 4 then .reset else .clk, true, 0x7ffffffc#64⟩

/-- The short pulse leaves the register alone; the release of the long one loads `i_din`. -/
theorem pulses_reset_fails :
    (Pulse 0x7ffffff8#64 0#64 shortPulse 0 2 ∧
      (after 0x7ffffff8#64 0#64 shortPulse 3).dout = 0#64 ∧
      ¬ Resets 0x7ffffff8#64 0#64 shortPulse 3 0 2) ∧
    Pulse 0x7ffffff8#64 0#64 enabledRelease 0 4 ∧
      (after 0x7ffffff8#64 0#64 enabledRelease 4).dout = 0x7ffffff8#64 ∧
      (after 0x7ffffff8#64 0#64 enabledRelease 5).dout = 0x7ffffffc#64 ∧
      ¬ Resets 0x7ffffff8#64 0#64 enabledRelease 5 0 4 := by
  have hshort : (after 0x7ffffff8#64 0#64 shortPulse 2).dout = 0#64 := by decide
  have hlong : (after 0x7ffffff8#64 0#64 enabledRelease 5).dout = 0x7ffffffc#64 := by decide
  refine ⟨⟨⟨by decide, by decide, by decide, ?_, by decide⟩, by decide, ?_⟩,
    ⟨by decide, by decide, by decide, ?_, by decide⟩, by decide, hlong, ?_⟩
  · intro k hk hk'
    obtain rfl : k = 1 := by omega
    rfl
  · intro hr
    exact absurd (hshort.symm.trans (hr.dout (by decide) (by decide))) (by decide)
  · intro k hk hk'
    simp [enabledRelease, show k ≠ 0 by omega, show k ≠ 4 by omega]
  · intro hr
    exact absurd (hlong.symm.trans (hr.release.trans (hr.dout (by decide) (by decide)))) (by decide)

end ResetReg

end Oscpu.Rtl
