import Oscpu.Axi.Bookkeeping

/-!
# Register 0 of `cpu_axi_diff`

`bypass` compares register ids without leaving out 0. That no forwarded value replaces the zero of
`x0` rests on `idu`, which never enables a write to register 0, and on the three pipeline registers
behind it, which hold an instruction, a bubble or zeros.
-/

namespace Oscpu.Axi

open Oscpu.Rtl Oscpu.Lib

/-- `o_regs` of `bypass`. -/
def Core.oRegs (s : Core) (i : AxiIn) : RegId → Word :=
  s.rf.oRegs (s.rfWen i) s.lsWb.data.rdid s.wbuRd

/-- An enabled write does not name register 0. -/
def WritesNonzero (rdwen : Bool) (rdid : RegId) : Prop := rdwen = true → rdid ≠ 0#5

theorem WritesNonzero.of_false (rdid : RegId) : WritesNonzero false rdid := by
  intro h
  cases h

theorem WritesNonzero.not_names {rdwen : Bool} {rdid : RegId} (h : WritesNonzero rdwen rdid) :
    (rdwen && rdid == 0#5) = false := by
  cases rdwen with
  | false => rfl
  | true => simpa using h rfl

/-- No stage that values are forwarded from enables a write to register 0. -/
structure Core.NoZeroWrite (s : Core) : Prop where
  ex : WritesNonzero s.idEx.data.rdwen s.idEx.data.rdid
  mem : WritesNonzero s.exLs.data.rdwen s.exLs.data.rdid
  wb : WritesNonzero s.lsWb.data.rdwen s.lsWb.data.rdid

namespace Core.NoZeroWrite

variable {s : Core}

theorem toIdEx (s : Core) (i : AxiIn) : WritesNonzero (s.toIdEx i).rdwen (s.toIdEx i).rdid := by
  unfold Core.toIdEx
  cases s.flush i with
  | true => exact .of_false _
  | false =>
    cases s.pcStall with
    | true => exact .of_false _
    | false => exact oRdwen_ne_zero

theorem toExLs (h : s.NoZeroWrite) (i : AxiIn) :
    WritesNonzero (s.toExLs i).rdwen (s.toExLs i).rdid := by
  unfold Core.toExLs
  cases s.flush i with
  | true => exact .of_false _
  | false => exact h.ex

theorem toLsWb (h : s.NoZeroWrite) (i : AxiIn) :
    WritesNonzero (s.toLsWb i).rdwen (s.toLsWb i).rdid := by
  unfold Core.toLsWb
  cases s.flush i with
  | true => exact .of_false _
  | false => exact h.mem

theorem step (h : s.NoZeroWrite) (reset : Bool) (i : AxiIn) : (s.step reset i).NoZeroWrite where
  ex := stlReg_of (p := fun e : IdEx => WritesNonzero e.rdwen e.rdid) (.of_false _) (toIdEx s i)
    h.ex _ _
  mem := stlReg_of (p := fun m : ExLs => WritesNonzero m.rdwen m.rdid) (.of_false _) (h.toExLs i)
    h.mem _ _
  wb := stlReg_of (p := fun w : LsWb => WritesNonzero w.rdwen w.rdid) (.of_false _) (h.toLsWb i)
    h.wb _ _

theorem afterReset (h : s.AfterReset) : s.NoZeroWrite := by
  refine ⟨?_, ?_, ?_⟩
  · rw [h.idEx]
    exact .of_false _
  · rw [h.exLs]
    exact .of_false _
  · rw [h.lsWb]
    exact .of_false _

/-- No stage forwards to source id 0, which reads the register file. -/
theorem bypassRs_zero (h : s.NoZeroWrite) (i : AxiIn) : s.bypassRs i 0#5 = 0#64 := by
  have hex : (s.idEx.valid && !s.idEx.data.lden && s.idEx.data.rdwen && s.idEx.data.rdid == 0#5) =
      false := by
    rw [Bool.and_assoc, h.ex.not_names, Bool.and_false]
  have hmem : (s.memValid i && s.exLs.data.rdwen && s.exLs.data.rdid == 0#5) = false := by
    rw [Bool.and_assoc, h.mem.not_names, Bool.and_false]
  have hwb : (s.lsWb.valid && s.lsWb.data.rdwen && s.lsWb.data.rdid == 0#5) = false := by
    rw [Bool.and_assoc, h.wb.not_names, Bool.and_false]
  simp [Core.bypassRs, hex, hmem, hwb]

end Core.NoZeroWrite

/-- **`x0` reads as zero**, whatever the bus delivers and however often the core is reset. -/
theorem x0_reads_zero {s : Core} (h₀ : s.AfterReset) (is : Nat → Bool × AxiIn) (n : Nat)
    (i : AxiIn) (reset : Bool) :
    let c := run (fun s r => Core.step s r.1 r.2) s is n
    (oRs1id c.ifId.data.ins = 0#5 → c.iduRs1 i = 0#64) ∧
      (oRs2id c.ifId.data.ins = 0#5 → c.iduRs2 i = 0#64) ∧
      (c.step reset i).rf.read 0#5 = 0#64 ∧ c.oRegs i 0#5 = 0#64 := by
  intro c
  have hc : c.NoZeroWrite := Lib.run_invariant
    (fun s r (h : s.NoZeroWrite) (_ : True) => h.step r.1 r.2) (.afterReset h₀)
    (fun _ _ => trivial) n le_rfl
  refine ⟨?_, ?_, Regs.read_zero _, ?_⟩
  · intro hid
    rw [Core.iduRs1, hid]
    exact hc.bypassRs_zero i
  · intro hid
    rw [Core.iduRs2, hid]
    exact hc.bypassRs_zero i
  · simp [Core.oRegs, Regs.oRegs]

/-- `sd x0,256(x0)` in ID, with a `nop` on its way through write-back. -/
theorem x0_reads_zero_store :
    let is k := (false, System.inputs storeProgram noWait k)
    let c := run (fun s r => Core.step s r.1 r.2) storeProgram.core is 10
    c.iduRs1 (is 10).2 = 0#64 ∧ c.iduRs2 (is 10).2 = 0#64 ∧
      (c.step false (is 10).2).rf.read 0#5 = 0#64 ∧ c.oRegs (is 10).2 0#5 = 0#64 := by
  have h := x0_reads_zero storeProgram_afterReset.core
    (fun k => (false, System.inputs storeProgram noWait k)) 10
    (System.inputs storeProgram noWait 10) false
  exact ⟨h.1 (by decide +kernel), h.2.1 (by decide +kernel), h.2.2⟩

end Oscpu.Axi
