import Oscpu.Axi.Bookkeeping
import Oscpu.Axi.Reference
import Oscpu.Axi.Stability

/-!
# Reads that end in a stray beat

The read machine of `axi_rw` stands still while no read is presented, but `axi_r_ready_o` stays high.
When the last beat of a burst comes then, the slave is done with the burst and the core is not: it
waits for a beat that nobody owes.
-/

namespace Oscpu.Axi

open Oscpu.Rtl Oscpu.Lib

namespace System

variable (y : System) (i : AxiIn)

/-- The last beat of a read is taken while no read is presented. -/
def losesRead : Bool := y.strayBeat i && y.core.rw.rState == .read && i.rLast

end System

/-- The core waits for a beat of a read that is over. -/
structure Hung (y : System) : Prop where
  read : y.core.rw.rState = .read
  gone : y.slave.rd = none
  id : y.core.ifId.valid = false
  ex : y.core.idEx.valid = false
  done : y.core.rw.rwReady = true → y.core.axiSigMem = true ∧
    (y.core.axiSigWrite = true → y.core.rw.wState ≠ .resp)

/-- The instruction in EX meets no `mret` in write-back, and is not both a load and a store. -/
theorem System.Reachable.alone_in_ex {y : System} (hy : y.Reachable)
    (hex : y.core.idEx.valid = true) : y.core.lsWb.data.mret = false ∧
      (y.core.idEx.data.lden = true → y.core.idEx.data.sten = false) := by
  obtain ⟨y₀, is, n, h₀, hok, rfl⟩ := hy
  cases n with
  | zero => simp [h₀.core.idEx] at hex
  | succ n =>
    have ho : Occ (run System.step y₀ is n) :=
      System.Reachable.occ ⟨y₀, is, n, h₀, hok.mono n.le_succ, rfl⟩
    rw [run_succ] at hex ⊢
    rw [ho.step_ex] at hex
    constructor
    · by_contra hm
      have hv := (Occ.leave_of_step_mret (Bool.eq_true_of_not_eq_false hm)).2
      rw [(ho.id hex).2.1] at hv
      cases hv
    · intro hl
      have hstall := Occ.not_pcStall (ho.id hex).1
      rw [ho.step_idEx_of_id hex] at hl ⊢
      unfold Core.toIdEx at hl ⊢
      split at hl
      · cases hl
      · rename_i hfl
        rw [if_neg hfl]
        simp only [hstall, Bool.false_eq_true, if_false] at hl ⊢
        exact not_sten_of_lden hl

namespace Hung

variable {y : System} {i : AxiIn}

/-- A store that gets its response waits one more cycle. -/
theorem step_done_of_write (ho : Occ y) (hw : y.core.axiSigWrite = true)
    (hready : y.core.rw.rwReady = false) (hb : y.core.rw.bHs y.core.req i = true) :
    (y.step i).core.axiSigMem = true ∧
      ((y.step i).core.axiSigWrite = true → (y.step i).core.rw.wState ≠ .resp) := by
  have hl : y.core.exReady i = false := by
    by_contra hl
    have hr := Occ.ready_of_leave (Core.axiSigMem_of_write hw) (Bool.eq_true_of_not_eq_false hl)
    rw [(Occ.ready_of_mem hr.1).2.2] at hready
    cases hready
  have hidle : (y.step i).core.rw.wState = .idle :=
    AxiRw.nextW_of_bHs ((Core.req_wValid _).trans hw) hb
  refine ⟨Core.axiSigMem_of_write (Books.step_axiSigWrite ho hw hl), fun _ => ?_⟩
  rw [hidle]
  nofun

/-- The stray beat ends a fetch that a store has overtaken, or that a stall withdraws. -/
theorem of_losesRead (hy : y.Reachable) (hi : y.Ok i) (hl : y.losesRead i = true) :
    Hung (y.step i) := by
  have ho := hy.occ
  simp only [System.losesRead, System.strayBeat, Bool.and_eq_true, beq_iff_eq] at hl
  obtain ⟨⟨⟨hv, hstray⟩, hst⟩, hlast⟩ := hl
  have hnot : y.core.req.rValid = false := by
    rw [Core.req_rValid]
    revert hstray
    cases y.core.axiSigWrite <;> cases y.core.axiSigMem <;> cases y.core.pcStall <;> simp
  have har : y.core.out.arValid = false := by simp [Core.out, AxiRw.out, hst]
  have hrr : y.core.out.rReady = true := by simp [Core.out, AxiRw.out, hst]
  have hread : (y.step i).core.rw.rState = .read := by
    change y.core.rw.nextR y.core.req i = .read
    simp [AxiRw.nextR, hnot, hst]
  have hgone : (y.step i).slave.rd = none := Slave.step_rd_of_last har hv hrr hlast
  cases hw : y.core.axiSigWrite with
  | true =>
    have hm := Core.axiSigMem_of_write hw
    refine ⟨hread, hgone, ?_, ?_, fun hd => ?_⟩
    · rw [ho.step_id]
      exact Occ.not_fetch_of_sigMem hm
    · rw [ho.step_ex]
      exact ho.not_id_of_mem (Occ.valid_of_sigMem hm)
    · have hb : y.core.rw.bHs y.core.req i = true := (AxiRw.transDone_of_write hw).symm.trans hd
      -- a completed access would mean that the burst was over before
      have hready : y.core.rw.rwReady = false := by
        by_contra hr
        obtain ⟨b, hrd, -⟩ := hi.r hv
        rw [(ho.answered (Bool.eq_true_of_not_eq_false hr) (AxiRw.wState_of_bHs hb).1).1] at hrd
        cases hrd
      exact step_done_of_write ho hw hready hb
  | false =>
    have hstall : y.core.pcStall = true := by
      rw [hw] at hstray
      simpa using (Bool.and_eq_true_iff.1 hstray).2
    have hload : y.core.idEx.valid = true ∧ y.core.idEx.data.lden = true := by
      simp only [Core.pcStall, Bool.and_eq_true] at hstall
      exact ⟨hstall.2, hstall.1.1.1.1⟩
    have hf : y.core.ifReadyAxi i = false := by
      simp [Core.ifReadyAxi, (ho.ex hload.1).2]
    obtain ⟨hmret, hkind⟩ := hy.alone_in_ex hload.1
    have hfl : y.core.flush i = false := (Occ.flush_of_not_fetch hf).trans hmret
    have hm' : (y.step i).core.axiSigMem = true := by
      rw [ho.sigMem_of_ex hload.1 hfl, hload.2]
      rfl
    refine ⟨hread, hgone, ?_, ?_, fun _ => ⟨hm', fun hw' => ?_⟩⟩
    · rw [ho.step_id, hf]
    · rw [ho.step_ex]
      exact ho.not_id_of_ex hload.1
    · -- the instruction that comes to MEM is a load
      have hsten : (y.step i).core.exLs.data.sten = false := by
        rw [ho.step_exLs_of_ex hload.1]
        simp [Core.toExLs, hfl, hkind hload.2]
      simp [Core.axiSigWrite, hsten] at hw'

theorem not_fetch (h : Hung y) (i : AxiIn) : y.core.ifReadyAxi i = false := by
  by_contra hf
  obtain ⟨hm, -, hr⟩ := Occ.ready_of_fetch (Bool.eq_true_of_not_eq_false hf)
  rw [(h.done hr).1] at hm
  cases hm

theorem not_arValid (h : Hung y) : y.core.out.arValid = false := by
  simp [Core.out, AxiRw.out, h.read]

theorem step (h : Hung y) (ho : Occ y) (hi : y.Ok i) : Hung (y.step i) := by
  have hv : i.rValid = false := Slave.not_rValid hi h.gone
  have hrd : y.core.rw.rDone y.core.req i = false := by simp [AxiRw.rDone, AxiRw.rHs, hv]
  constructor
  · change y.core.rw.nextR y.core.req i = .read
    simp [AxiRw.nextR, h.read, hrd]
  · exact Slave.step_rd_of_none h.gone h.not_arValid
  · rw [ho.step_id]
    exact h.not_fetch i
  · rw [ho.step_ex]
    exact h.id
  · intro hd
    cases hw : y.core.axiSigWrite with
    | true =>
      have hb : y.core.rw.bHs y.core.req i = true := (AxiRw.transDone_of_write hw).symm.trans hd
      have hready : y.core.rw.rwReady = false := by
        by_contra hr
        exact (h.done (Bool.eq_true_of_not_eq_false hr)).2 hw (AxiRw.wState_of_bHs hb).1
      exact step_done_of_write ho hw hready hb
    | false =>
      have hd' := (AxiRw.transDone_of_read hw).symm.trans hd
      rw [hrd] at hd'
      cases hd'

theorem regWrites (h : Hung y) (i : AxiIn) : y.regWrites i = [] := by
  have hf := h.not_fetch i
  simp [System.regWrites, Core.rfWen, Core.wbHs, hf]

end Hung

/-- **A lost read hangs the core.** Once the last beat of a burst is taken while no read is presented,
no address of a read is offered any more, no fetch completes, and no register is written, whatever
the slave does. -/
theorem System.lost_read_hangs {y : System} {i : AxiIn} {is : Nat → AxiIn} {n : Nat}
    (hy : y.Reachable) (hi : y.Ok i) (hl : y.losesRead i = true)
    (hok : Admits System.step System.Ok (y.step i) is n) :
    (∀ k < n, (run System.step (y.step i) is k).core.out.arValid = false ∧
      (run System.step (y.step i) is k).core.ifReadyAxi (is k) = false) ∧
    trace System.step System.regWrites (y.step i) is n = [] := by
  have hinv := Lib.run_invariant
    (fun z j (h : Hung z ∧ Occ z) hj => ⟨h.1.step h.2 hj, h.2.step hj⟩)
    ⟨Hung.of_losesRead hy hi hl, hy.occ.step hi⟩ hok
  refine ⟨fun k hk => ?_, ?_⟩
  · obtain ⟨h, -⟩ := hinv k (by omega)
    exact ⟨h.not_arValid, h.not_fetch _⟩
  · induction n with
    | zero => rfl
    | succ n ih =>
      rw [trace_succ, ih (hok.mono (by omega)) fun k hk => hinv k (by omega)]
      exact (hinv n (by omega)).1.regWrites _

/-- The fetch behind a store is answered when the store is in MEM. -/
theorem lost_read_hangs_store :
    let y := System.driven storeProgram lateBeat 12
    let i := y.slave.drive (lateBeat 12)
    y.losesRead i = true ∧
      trace System.step System.regWrites (y.step i) (System.inputs (y.step i) noWait) 40 = [] :=
  ⟨by decide +kernel,
    (System.lost_read_hangs (System.reachable_driven storeProgram_afterReset _ _)
      (Slave.drives_drive _ _) (by decide +kernel) (System.admits_inputs _ _ _)).2⟩

end Oscpu.Axi
