import Oscpu.Axi.Access

/-!
# The bus state machines and the transactions of the slave

The two state machines of `axi_rw` move only while the arbiter presents their request, but
`axi_r_ready_o` and `axi_b_ready_o` depend on the state alone. A beat of a fetch that arrives while
a store owns the bus, or during a load-use stall, is therefore taken and not counted. Where this
does not happen the state machines and the slave agree.
-/

namespace Oscpu.Axi

open Oscpu.Rtl Oscpu.Lib

/-- A read beat arrives while the arbiter presents no read: a store owns the bus, or `pc_stall`
withdraws the fetch. -/
def System.strayBeat (y : System) (i : AxiIn) : Bool :=
  i.rValid && (y.core.axiSigWrite || !y.core.axiSigMem && y.core.pcStall)

/-- A store leaves MEM in the cycle of its data handshake, before the slave has responded. -/
def System.answeredEarly (y : System) (i : AxiIn) : Bool :=
  y.core.memReadyAxi i && y.core.memReady i && y.core.axiSigWrite && y.core.rw.wHs y.core.req i

/-- The state machines and the slave agree on what is outstanding. -/
structure Books (y : System) : Prop where
  read : y.core.rw.rState = .read ↔ y.slave.rd.isSome = true
  free : y.core.rw.wState = .idle ∨ y.core.rw.wState = .addr → y.slave.wr = none
  write : y.core.rw.wState = .write → y.slave.wr.isSome = true
  /-- A response is awaited by a store that is still in MEM and has sent its data. -/
  resp : y.core.rw.wState = .resp → y.core.axiSigWrite = true ∧ y.core.rw.rwReady = false ∧
    ∃ w, y.slave.wr = some w ∧ w.dataDone = true

/-- The write side of `Books`. -/
structure WriteBooks (y : System) : Prop where
  free : y.core.rw.wState = .idle ∨ y.core.rw.wState = .addr → y.slave.wr = none
  write : y.core.rw.wState = .write → y.slave.wr.isSome = true
  resp : y.core.rw.wState = .resp → y.core.axiSigWrite = true ∧ y.core.rw.rwReady = false ∧
    ∃ w, y.slave.wr = some w ∧ w.dataDone = true

namespace Books

variable {y : System} {i : AxiIn}

theorem req_rValid_of_beat (hs : y.strayBeat i = false) (hr : i.rValid = true) :
    y.core.req.rValid = true := by
  rw [Core.req_rValid]
  simp only [System.strayBeat, hr, Bool.true_and] at hs
  cases hw : y.core.axiSigWrite <;> cases hm : y.core.axiSigMem <;> simp_all

theorem rd_eq_none (h : Books y) (hst : y.core.rw.rState ≠ .read) : y.slave.rd = none := by
  rw [Ne, h.read, Bool.not_eq_true, Option.isSome_eq_false_iff] at hst
  exact Option.isNone_iff_eq_none.1 hst

theorem step_read (h : Books y) (hs : y.strayBeat i = false) :
    (y.step i).core.rw.rState = .read ↔ (y.step i).slave.rd.isSome = true := by
  change y.core.rw.nextR y.core.req i = .read ↔ (y.slave.step y.core.out i).rd.isSome = true
  cases hst : y.core.rw.rState with
  | idle =>
    have hrd := h.rd_eq_none (by simp [hst])
    have hrd' : (y.slave.step y.core.out i).rd = none :=
      Slave.step_rd_of_none hrd (by simp [Core.out, AxiRw.out, hst])
    rw [hrd']
    cases hv : y.core.req.rValid <;> simp [AxiRw.nextR, hst, hv]
  | addr =>
    have hrd := h.rd_eq_none (by simp [hst])
    cases har : (i.arReady && y.core.out.arValid) with
    | true =>
      have hv : y.core.req.rValid = true := by
        simp only [Core.out, AxiRw.out, Bool.and_eq_true] at har
        exact har.2.2
      have hhs : y.core.rw.arHs y.core.req i = true := har
      simp [AxiRw.nextR, hst, hv, hhs, Slave.step, har]
    | false =>
      have hhs : y.core.rw.arHs y.core.req i = false := har
      have hrd' : (y.slave.step y.core.out i).rd = none := by simp [Slave.step, har, hrd]
      rw [hrd']
      cases hv : y.core.req.rValid <;> simp [AxiRw.nextR, hst, hv, hhs]
  | read =>
    have hsome : y.slave.rd.isSome = true := h.read.1 hst
    have har : y.core.out.arValid = false := by simp [Core.out, AxiRw.out, hst]
    have hready : y.core.out.rReady = true := by simp [Core.out, AxiRw.out, hst]
    cases hr : i.rValid with
    | false =>
      have hd : y.core.rw.rDone y.core.req i = false := by simp [AxiRw.rDone, AxiRw.rHs, hr]
      cases hv : y.core.req.rValid <;> simp [AxiRw.nextR, hst, hv, hd, Slave.step, har, hr, hsome]
    | true =>
      have hv := req_rValid_of_beat hs hr
      have hd : y.core.rw.rDone y.core.req i = i.rLast := by
        have hhs : (y.core.rw.out y.core.req).rReady = true := hready
        simp [AxiRw.rDone, AxiRw.rHs, hr, hhs]
      cases hl : i.rLast <;>
        simp [AxiRw.nextR, hst, hv, hd, hl, Slave.step, har, hr, hready, hsome]

theorem step_axiSigWrite (ho : Occ y) (hw : y.core.axiSigWrite = true)
    (hl : y.core.exReady i = false) : (y.step i).core.axiSigWrite = true := by
  have heq := ho.step_exLs_of_wait (Core.axiSigMem_of_write hw) hl
  have hsame : (y.step i).core.axiSigWrite = y.core.axiSigWrite := by
    simp only [Core.axiSigWrite, Core.axiSigMem, heq]
  rw [hsame, hw]

theorem step_rwReady_of_write (hw : y.core.axiSigWrite = true)
    (hb : y.core.rw.bHs y.core.req i = false) : (y.step i).core.rw.rwReady = false := by
  change y.core.rw.transDone y.core.req i = false
  rw [AxiRw.transDone_of_write hw, hb]

theorem step_write_of_idle (h : Books y) (hst : y.core.rw.wState = .idle) :
    WriteBooks (y.step i) := by
  have hst' : (y.step i).core.rw.wState = y.core.rw.nextW y.core.req i := rfl
  have hnone : (y.step i).slave.wr = none := by
    change (y.slave.step y.core.out i).wr = none
    simp [Slave.step, Core.out, AxiRw.out, hst, h.free (.inl hst)]
  constructor
  · exact fun _ => hnone
  all_goals cases hv : y.core.req.wValid <;> simp [hst', AxiRw.nextW, hst, hv]

theorem step_write_of_addr (h : Books y) (hst : y.core.rw.wState = .addr) :
    WriteBooks (y.step i) := by
  have hst' : (y.step i).core.rw.wState = y.core.rw.nextW y.core.req i := rfl
  have hwr' : (y.step i).slave.wr = (y.slave.step y.core.out i).wr := rfl
  cases hhs : y.core.rw.awHs y.core.req i with
  | true =>
    have hv : y.core.req.wValid = true := by
      simp only [AxiRw.awHs, AxiRw.out, Bool.and_eq_true] at hhs
      exact hhs.2.2
    have haw : (i.awReady && y.core.out.awValid) = true := hhs
    constructor <;> simp [hst', AxiRw.nextW, hst, hv, hhs, hwr', Slave.step, haw]
  | false =>
    have haw : (i.awReady && y.core.out.awValid) = false := hhs
    have hb : y.core.out.bReady = false := by simp [Core.out, AxiRw.out, hst]
    have hw : y.core.out.wValid = false := by simp [Core.out, AxiRw.out, hst]
    have hnone : (y.step i).slave.wr = none := by
      simp [hwr', Slave.step, haw, hb, hw, h.free (.inr hst)]
    constructor
    · exact fun _ => hnone
    all_goals cases hv : y.core.req.wValid <;> simp [hst', AxiRw.nextW, hst, hv, hhs]

/-- A store that has sent its data waits for the response, since it is not let out of MEM. -/
theorem step_write_of_write (h : Books y) (ho : Occ y) (he : y.answeredEarly i = false)
    (hst : y.core.rw.wState = .write) : WriteBooks (y.step i) := by
  have hst' : (y.step i).core.rw.wState = y.core.rw.nextW y.core.req i := rfl
  have hwr' : (y.step i).slave.wr = (y.slave.step y.core.out i).wr := rfl
  obtain ⟨w, hw⟩ := Option.isSome_iff_exists.1 (h.write hst)
  cases hv : y.core.req.wValid with
  | false =>
    -- no store is presented: the machine stands still, whatever the slave takes
    cases hr : i.wReady <;> constructor <;>
      simp [hst', AxiRw.nextW, hst, hv, hwr', Slave.step, Core.out, AxiRw.out, hw, hr]
  | true =>
    have hsig : y.core.axiSigWrite = true := (Core.req_wValid _).symm.trans hv
    cases hr : i.wReady with
    | false =>
      have hhs : y.core.rw.wHs y.core.req i = false := by simp [AxiRw.wHs, hr]
      constructor <;>
        simp [hst', AxiRw.nextW, hst, hv, hhs, hwr', Slave.step, Core.out, AxiRw.out, hw, hr]
    | true =>
      have hhs : y.core.rw.wHs y.core.req i = true := by simp [AxiRw.wHs, AxiRw.out, hr, hst]
      have hstay : y.core.exReady i = false := by
        by_contra hl
        obtain ⟨hma, hmr⟩ := Occ.ready_of_leave (Core.axiSigMem_of_write hsig)
          (Bool.eq_true_of_not_eq_false hl)
        simp [System.answeredEarly, hma, hmr, hsig, hhs] at he
      have hb : y.core.rw.bHs y.core.req i = false := by simp [AxiRw.bHs, AxiRw.out, hst]
      have hsent : (y.step i).slave.wr = some { w with dataDone := true } := by
        simp [hwr', Slave.step, Core.out, AxiRw.out, hst, hr, hw]
      constructor
      · simp [hst', AxiRw.nextW, hst, hv, hhs]
      · simp [hsent]
      · exact fun _ => ⟨step_axiSigWrite ho hsig hstay, step_rwReady_of_write hsig hb, _, hsent, rfl⟩

theorem step_write_of_resp (h : Books y) (ho : Occ y) (hst : y.core.rw.wState = .resp) :
    WriteBooks (y.step i) := by
  have hst' : (y.step i).core.rw.wState = y.core.rw.nextW y.core.req i := rfl
  have hwr' : (y.step i).slave.wr = (y.slave.step y.core.out i).wr := rfl
  obtain ⟨hsig, hready, w, hw, hdone⟩ := h.resp hst
  have hv : y.core.req.wValid = true := (Core.req_wValid _).trans hsig
  cases hb : y.core.rw.bHs y.core.req i with
  | true =>
    have hbv := (AxiRw.wState_of_bHs hb).2
    constructor <;>
      simp [hst', AxiRw.nextW, hst, hv, hb, hwr', Slave.step, Core.out, AxiRw.out, hbv]
  | false =>
    have hbv : i.bValid = false := by simpa [AxiRw.bHs, AxiRw.out, hst] using hb
    have hstay : y.core.exReady i = false := by
      by_contra hl
      obtain ⟨-, -, hr⟩ := Occ.ready_of_mem (Occ.ready_of_leave (Core.axiSigMem_of_write hsig)
        (Bool.eq_true_of_not_eq_false hl)).1
      rw [hready] at hr
      exact Bool.false_ne_true hr
    have howed : (y.step i).slave.wr = some w := by
      simp [hwr', Slave.step, Core.out, AxiRw.out, hst, hbv, hw]
    constructor
    · simp [hst', AxiRw.nextW, hst, hv, hb]
    · simp [howed]
    · exact fun _ => ⟨step_axiSigWrite ho hsig hstay, step_rwReady_of_write hsig hb, w, howed, hdone⟩

theorem step_write (h : Books y) (ho : Occ y) (he : y.answeredEarly i = false) :
    WriteBooks (y.step i) := by
  cases hst : y.core.rw.wState with
  | idle => exact h.step_write_of_idle hst
  | addr => exact h.step_write_of_addr hst
  | write => exact h.step_write_of_write ho he hst
  | resp => exact h.step_write_of_resp ho hst

theorem step (h : Books y) (ho : Occ y) (hs : y.strayBeat i = false)
    (he : y.answeredEarly i = false) : Books (y.step i) where
  read := h.step_read hs
  free := (h.step_write ho he).free
  write := (h.step_write ho he).write
  resp := (h.step_write ho he).resp

theorem afterReset (h : y.AfterReset) : Books y := by
  refine ⟨?_, fun _ => h.wr, ?_, ?_⟩
  · simp [h.core.rw, AxiRw.zero, h.rd]
  · simp [h.core.rw, AxiRw.zero]
  · simp [h.core.rw, AxiRw.zero]

end Books

/-- **The state machines and the slave agree** in every state of a run in which no read beat arrives
while no read is presented and no store leaves MEM in the cycle of its data handshake. Then a
response is taken by a machine that counts it, and one that is awaited is owed. -/
theorem bus_bookkeeping {y : System} {is : Nat → AxiIn} {n : Nat} (h₀ : y.AfterReset)
    (hok : Admits System.step System.Ok y is n)
    (hcond : Admits System.step
      (fun y i => y.strayBeat i = false ∧ y.answeredEarly i = false) y is n) :
    let c := run System.step y is n
    (c.core.rw.rState = .read ↔ c.slave.rd.isSome = true) ∧
      ((c.core.rw.wState = .write ∨ c.core.rw.wState = .resp) ↔ c.slave.wr.isSome = true) ∧
      (∀ i, c.strayBeat i = false → c.core.rw.rHs c.core.req i = true →
        c.core.req.rValid = true) ∧
      (∀ i, c.core.rw.bHs c.core.req i = true → c.core.req.wValid = true) ∧
      (c.core.out.rReady = true → c.slave.rd.isSome = true) ∧
      (c.core.out.bReady = true → ∃ w, c.slave.wr = some w ∧ w.dataDone = true) := by
  intro c
  obtain ⟨-, hb⟩ := System.run_invariant h₀ (Books.afterReset h₀)
    (fun _ _ ho _ hc h => h.step ho hc.1 hc.2) hok hcond
  change Books c at hb
  refine ⟨hb.read, ⟨?_, ?_⟩, ?_, ?_, ?_, ?_⟩
  · rintro (hst | hst)
    · exact hb.write hst
    · obtain ⟨-, -, w, hw, -⟩ := hb.resp hst
      rw [hw]
      rfl
  · intro hwr
    cases hst : c.core.rw.wState with
    | idle => rw [hb.free (.inl hst)] at hwr; cases hwr
    | addr => rw [hb.free (.inr hst)] at hwr; cases hwr
    | write => exact .inl rfl
    | resp => exact .inr rfl
  · intro i hs hr
    simp only [AxiRw.rHs, Bool.and_eq_true] at hr
    exact Books.req_rValid_of_beat hs hr.2
  · intro i hbs
    rw [Core.req_wValid]
    exact (hb.resp (AxiRw.wState_of_bHs hbs).1).1
  · intro hr
    exact hb.read.1 (by simpa [Core.out, AxiRw.out] using hr)
  · intro hbr
    exact (hb.resp (by simpa [Core.out, AxiRw.out] using hbr)).2.2

/-- `addi x0, x0, 0` and `sd x0, 0x100(x0)`. -/
def storeProgram : System :=
  System.boot false (fun _ => 0#64) 0#4 0#4 (Mem.image [0x1000302300000013#64, 0x1300000013#64])

theorem storeProgram_afterReset : storeProgram.AfterReset := System.afterReset_boot _ _ _ _ _

theorem bus_bookkeeping_noWait :
    let c := run System.step storeProgram (System.inputs storeProgram noWait) 15
    (c.core.rw.rState = .read ↔ c.slave.rd.isSome = true) ∧
      ((c.core.rw.wState = .write ∨ c.core.rw.wState = .resp) ↔ c.slave.wr.isSome = true) ∧
      (∀ i, c.strayBeat i = false → c.core.rw.rHs c.core.req i = true →
        c.core.req.rValid = true) ∧
      (∀ i, c.core.rw.bHs c.core.req i = true → c.core.req.wValid = true) ∧
      (c.core.out.rReady = true → c.slave.rd.isSome = true) ∧
      (c.core.out.bReady = true → ∃ w, c.slave.wr = some w ∧ w.dataDone = true) :=
  bus_bookkeeping storeProgram_afterReset (System.admits_inputs _ _ _)
    (by unfold Admits; decide +kernel)

/-- A slave that holds the beat of one fetch back until the store is in MEM. -/
def lateBeat : Nat → Slave.Timing := fun k => ⟨true, k != 11, true, true, true⟩

/-- The beat is taken while the store owns the bus, and the read machine waits for it for ever. -/
theorem bus_bookkeeping_fails :
    let y := System.driven storeProgram lateBeat 12
    let i := y.slave.drive (lateBeat 12)
    y.Reachable ∧ y.Ok i ∧ y.core.rw.rHs y.core.req i = true ∧ y.core.req.rValid = false ∧
      (y.step i).core.rw.rState = .read ∧ (y.step i).slave.rd.isSome = false :=
  ⟨System.reachable_driven storeProgram_afterReset _ _, Slave.drives_drive _ _,
    by decide +kernel, by decide +kernel, by decide +kernel, by decide +kernel⟩

end Oscpu.Axi
