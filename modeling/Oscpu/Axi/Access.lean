import Oscpu.Axi.Occupancy

/-!
# A finished access leaves MEM

`wb_ready` is the completion of a fetch, and no fetch completes while a load or store owns the bus.
So the access of the instruction in MEM is accepted only if write-back is empty already. It is,
unless the load or store was delivered while another instruction was still in MEM: that one then
waits in write-back for a fetch that waits for the bus.
-/

namespace Oscpu.Axi

open Oscpu.Rtl Oscpu.Lib

/-- `visit_axi` of the instruction word. -/
def visitAxi (ins : Ins) : Bool := oLsuLden ins || oLsuSten ins

/-- A fetch hands a load or store to IF/ID while MEM is occupied. -/
def System.crowded (y : System) (i : AxiIn) : Bool :=
  y.core.ifReadyAxi i && visitAxi (y.core.toIfId i).ins && y.core.exLs.valid

/-- Write-back is empty on the way of a load or store. -/
structure Roomy (y : System) : Prop where
  id : y.core.ifId.valid = true → visitAxi y.core.ifId.data.ins = true → y.core.lsWb.valid = false
  ex : y.core.idEx.valid = true → (y.core.idEx.data.lden || y.core.idEx.data.sten) = true →
    y.core.lsWb.valid = false
  mem : y.core.axiSigMem = true → y.core.lsWb.valid = false

namespace Occ

variable {y : System} {i : AxiIn}

theorem step_wb_of_empty (hm : y.core.exLs.valid = false)
    (hw : y.core.lsWb.valid = false ∨ y.core.ifReadyAxi i = true) :
    (y.step i).core.lsWb.valid = false :=
  step_wb_of_stay (by simp [Core.leaves, memValid_of_empty hm]) hw

/-- Without an instruction in EX, an access in MEM was there before. -/
theorem sigMem_of_step (he : y.core.idEx.valid = false)
    (hm : (y.step i).core.axiSigMem = true) :
    y.core.axiSigMem = true ∧ y.core.exReady i = false := by
  have hv := valid_of_sigMem hm
  rw [step_mem_of_not_ex he] at hv
  have hr : y.core.exReady i = false := by simpa using hv
  refine ⟨?_, hr⟩
  have hval : y.core.exLs.valid = true := by
    by_contra hv
    simp [Core.exReady, Stage.ready, hv] at hr
  simp only [Core.axiSigMem, Bool.and_eq_true, step_exLs_of_stay he] at hm ⊢
  refine ⟨hval, ?_⟩
  cases hf : y.core.flush i with
  | true => simp [hf, ExLs.zero] at hm
  | false => simpa [hf] using hm.2

end Occ

namespace Roomy

variable {y : System} {i : AxiIn}

theorem step_id (ho : Occ y) (hc : y.crowded i = false) (hv : (y.step i).core.ifId.valid = true)
    (hins : visitAxi (y.step i).core.ifId.data.ins = true) :
    (y.step i).core.lsWb.valid = false := by
  rw [ho.step_id] at hv
  rw [ho.step_ifId_of_fetch hv] at hins
  have hm : y.core.exLs.valid = false := by simpa [System.crowded, hv, hins] using hc
  exact Occ.step_wb_of_empty hm (.inr hv)

theorem step_ex (h : Roomy y) (ho : Occ y) (hv : (y.step i).core.idEx.valid = true)
    (hls : ((y.step i).core.idEx.data.lden || (y.step i).core.idEx.data.sten) = true) :
    (y.step i).core.lsWb.valid = false := by
  rw [ho.step_ex] at hv
  obtain ⟨he, hm, -, -⟩ := ho.id hv
  rw [ho.step_idEx_of_id hv] at hls
  have hins : visitAxi y.core.ifId.data.ins = true := by
    cases hf : y.core.flush i with
    | true => simp [Core.toIdEx, hf, IdEx.zero] at hls
    | false => simpa [visitAxi, Core.toIdEx, hf, Occ.not_pcStall he] using hls
  exact Occ.step_wb_of_empty hm (.inl (h.id hv hins))

theorem step_mem (h : Roomy y) (ho : Occ y) (hm' : (y.step i).core.axiSigMem = true) :
    (y.step i).core.lsWb.valid = false := by
  cases he : y.core.idEx.valid with
  | true =>
    obtain ⟨hm, -⟩ := ho.ex he
    have hls : (y.core.idEx.data.lden || y.core.idEx.data.sten) = true := by
      simp only [Core.axiSigMem, Bool.and_eq_true, ho.step_exLs_of_ex he] at hm'
      cases hf : y.core.flush i with
      | true => simp [Core.toExLs, hf, ExLs.zero] at hm'
      | false => simpa [Core.toExLs, hf] using hm'.2
    exact Occ.step_wb_of_empty hm (.inl (h.ex he hls))
  | false =>
    obtain ⟨hm, hr⟩ := Occ.sigMem_of_step he hm'
    have hwb := h.mem hm
    have hready : y.core.memReady i = true := by simp [Core.memReady, Stage.ready, hwb]
    have hval : y.core.memValid i = false := by
      by_contra hval
      simp [Core.exReady, Stage.ready, Core.memExReady, hready, hval] at hr
    change (y.core.step false i).lsWb.valid = false
    rw [Core.step_lsWb_valid, hready, hval]
    rfl

theorem step (h : Roomy y) (ho : Occ y) (hc : y.crowded i = false) :
    Roomy (y.step i) :=
  ⟨step_id ho hc, h.step_ex ho, h.step_mem ho⟩

theorem afterReset (h : y.AfterReset) : Roomy y := by
  refine ⟨?_, ?_, ?_⟩ <;> intros <;> simp [h.core.lsWb]

end Roomy

/-- **A finished access leaves MEM** in every run in which no load or store is delivered while MEM
is occupied. What is finished is what `axi_rw` says is: of a store it may have sent the address only,
if the response of a fetch is taken for that of the store. -/
theorem access_accepted {y : System} {is : Nat → AxiIn} {n : Nat} (h₀ : y.AfterReset)
    (hok : Admits System.step System.Ok y is n)
    (hroom : Admits System.step (fun y i => y.crowded i = false) y is n) {i : AxiIn}
    (hm : (run System.step y is n).core.axiSigMem = true)
    (hr : (run System.step y is n).core.memReadyAxi i = true) :
    (run System.step y is n).core.memReady i = true ∧
      ((run System.step y is n).step i).core.axiSigMem = false := by
  have hinv := System.run_invariant h₀ (Roomy.afterReset h₀)
    (fun _ _ ho _ hc h => h.step ho hc) hok hroom
  generalize run System.step y is n = c at hm hr hinv
  obtain ⟨ho, hroomy⟩ := hinv
  have hready : c.core.memReady i = true := by
    simp [Core.memReady, Stage.ready, hroomy.mem hm]
  refine ⟨hready, ?_⟩
  by_contra hm'
  obtain ⟨-, hl⟩ := Occ.sigMem_of_step (ho.not_ex_of_mem (Occ.valid_of_sigMem hm))
    (Bool.eq_true_of_not_eq_false hm')
  have hacc : (c.core.exLs.data.lden || c.core.exLs.data.sten) = true := by
    simpa [Core.axiSigMem, Occ.valid_of_sigMem hm] using hm
  simp [Core.exReady, Stage.ready, Core.memExReady, Core.memValid, hacc, hm, hr, hready] at hl

/-- `addi x0, x0, 0` and `ld x5, 0(x0)`. -/
def loadProgram : System :=
  System.boot false (fun _ => 0#64) 0#4 0#4 (Mem.image [0x0000328300000013#64, 0x1300000013#64])

theorem loadProgram_afterReset : loadProgram.AfterReset := System.afterReset_boot _ _ _ _ _

/-- A slave that answers a read in one cycle of eight. -/
def slowReads : Nat → Slave.Timing := fun k => ⟨true, k % 8 == 7, true, true, true⟩

/-- A slave that never waits. -/
def noWait : Nat → Slave.Timing := fun _ => ⟨true, true, true, true, true⟩

theorem access_accepted_slowReads :
    let y := run System.step loadProgram (System.inputs loadProgram slowReads) 40
    y.core.memReady (y.slave.drive (slowReads 40)) = true ∧
      (y.step (y.slave.drive (slowReads 40))).core.axiSigMem = false :=
  access_accepted loadProgram_afterReset (System.admits_inputs _ _ _)
    (by unfold Admits; decide +kernel) (by decide +kernel) (by decide +kernel)

/-- Without wait states the load finds the instruction before it in write-back: its access
completes, is not accepted, and completes again. -/
theorem access_accepted_fails :
    let y := System.driven loadProgram noWait 15
    let i := y.slave.drive (noWait 15)
    y.Reachable ∧ y.Ok i ∧ y.core.axiSigMem = true ∧ y.core.memReadyAxi i = true ∧
      y.core.memReady i = false ∧
      (System.driven loadProgram noWait 18).core.memReadyAxi
        ((System.driven loadProgram noWait 18).slave.drive (noWait 18)) = true :=
  ⟨System.reachable_driven loadProgram_afterReset _ _, Slave.drives_drive _ _,
    by decide +kernel, by decide +kernel, by decide +kernel, by decide +kernel⟩

end Oscpu.Axi
