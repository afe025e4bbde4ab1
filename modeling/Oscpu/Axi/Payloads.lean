import Oscpu.Axi.Access

/-!
# What the core reads of a response

A completion is announced one cycle after the last beat, and the arbiter then looks at `r_id` or
`b_id`, live. Apart from this the core reads the payload of a response in its handshake only: two
runs with the same handshakes go through the same states as long as the ids that the arbiter looks
at compare alike.
-/

namespace Oscpu.Axi

open Oscpu.Rtl Oscpu.Lib

/-- The inputs agree on the handshakes, and on the payload of a response that is there. -/
structure AxiIn.Agree (i i' : AxiIn) : Prop where
  arReady : i.arReady = i'.arReady
  awReady : i.awReady = i'.awReady
  wReady : i.wReady = i'.wReady
  rValid : i.rValid = i'.rValid
  rLast : i.rLast = i'.rLast
  bValid : i.bValid = i'.bValid
  read : i.rValid = true → i.rId = i'.rId ∧ i.rData = i'.rData ∧ i.rResp = i'.rResp
  write : i.bValid = true → i.bId = i'.bId ∧ i.bResp = i'.bResp

/-- What `SimTop` drives: the channels of the bus and the character output. -/
structure Outputs where
  axi : AxiOut
  uartValid : Bool
  uartCh : BitVec 8

/-- The outputs depend on the registers alone. -/
def Core.outputs (s : Core) : Outputs := ⟨s.out, s.serialValid, s.wbuRd.extractLsb' 0 8⟩

/-- In a cycle that announces a completion, the ids that the arbiter looks at are both the awaited
one or both not. -/
def Core.SameIds (s : Core) (i i' : AxiIn) : Prop :=
  s.rw.rwReady = true →
    let awaited := if s.axiSigMem then 2#4 else 1#4
    (s.retId i == awaited) = (s.retId i' == awaited)

/-! ## The bus master -/

namespace AxiRw

variable {a : AxiRw} {r : RwReq} {i i' : AxiIn}

theorem rHs_congr (h : i.Agree i') : a.rHs r i = a.rHs r i' := by simp only [rHs, h.rValid]

theorem bHs_congr (h : i.Agree i') : a.bHs r i = a.bHs r i' := by simp only [bHs, h.bValid]

theorem transDone_congr (h : i.Agree i') : a.transDone r i = a.transDone r i' := by
  simp only [transDone, rDone, rHs_congr h, bHs_congr h, h.rLast]

/-- The response code is read in the handshake that completes the transaction. -/
theorem respNxt_congr (h : i.Agree i') (hd : a.transDone r i = true) :
    respNxt r i = respNxt r i' := by
  unfold respNxt
  cases hw : r.write with
  | true =>
    rw [transDone_of_write hw] at hd
    rw [(h.write (wState_of_bHs hd).2).2]
    rfl
  | false =>
    rw [transDone_of_read hw] at hd
    rw [(h.read (rValid_of_rDone hd).1).2.2]
    rfl

theorem nextData_congr (h : i.Agree i') : a.nextData r i = a.nextData r i' := by
  unfold nextData
  rw [rHs_congr h]
  cases hr : a.rHs r i' with
  | false => rfl
  | true =>
    have hv : i.rValid = true := by
      rw [h.rValid]
      simp only [rHs, Bool.and_eq_true] at hr
      exact hr.2
    rw [(h.read hv).2.1]

theorem step_congr (h : i.Agree i') : a.step r i false = a.step r i' false := by
  have hw : a.nextW r i = a.nextW r i' := by
    simp only [nextW, awHs, wHs, bHs_congr h, h.awReady, h.wReady]
    rfl
  have hrs : a.nextR r i = a.nextR r i' := by
    simp only [nextR, arHs, rDone, rHs_congr h, h.arReady, h.rLast]
    rfl
  have hl : a.nextLen r i = a.nextLen r i' := by
    simp only [nextLen, wHs, rHs_congr h, h.wReady]
    rfl
  have hresp : (if a.transDone r i then (respNxt r i).zeroExtend 2 else a.rwResp) =
      if a.transDone r i' then (respNxt r i').zeroExtend 2 else a.rwResp := by
    rw [← transDone_congr h]
    cases hd : a.transDone r i with
    | false => rfl
    | true => rw [respNxt_congr h hd]
  simp only [step, hw, hrs, hl, transDone_congr h, nextData_congr h, Bool.false_eq_true, if_false]
  rw [transDone_congr h] at hresp
  rw [hresp]

end AxiRw

/-! ## The core -/

namespace Core

variable {s : Core} {i i' : AxiIn}

theorem ifReadyAxi_congr (h : s.SameIds i i') : s.ifReadyAxi i = s.ifReadyAxi i' := by
  unfold ifReadyAxi
  cases hm : s.axiSigMem with
  | true => rfl
  | false =>
    cases hr : s.rw.rwReady with
    | false => simp
    | true =>
      have hid := h hr
      rw [hm] at hid
      simpa using hid

theorem memReadyAxi_congr (h : s.SameIds i i') : s.memReadyAxi i = s.memReadyAxi i' := by
  unfold memReadyAxi
  cases hm : s.axiSigMem with
  | false => rfl
  | true =>
    cases hr : s.rw.rwReady with
    | false => simp
    | true =>
      have hid := h hr
      rw [hm] at hid
      simpa using hid

theorem lsuLsres_congr (h : s.SameIds i i') (hv : s.memValid i = true) :
    s.lsuLsres i = s.lsuLsres i' := by
  unfold lsuLsres
  cases hl : s.exLs.data.lden with
  | false => simp only [ldData, hl, Bool.not_false, if_true]
  | true =>
    have hm : s.memReadyAxi i = true := by
      simp only [memValid, hl, Bool.true_or, if_true, Bool.and_eq_true] at hv
      exact hv.2
    have hm' := (memReadyAxi_congr h).symm.trans hm
    simp only [memReadyAxi, Bool.and_eq_true] at hm hm'
    simp only [memDataRead, hm.1.1, hm.1.2, hm'.1.2]

theorem ifuIns_congr (h : s.SameIds i i') (hf : s.ifReadyAxi i = true) :
    s.ifuIns i = s.ifuIns i' := by
  have hf' := (ifReadyAxi_congr h).symm.trans hf
  unfold ifReadyAxi at hf hf'
  unfold ifuIns ifDataRead
  cases hm : s.axiSigMem with
  | true => simp
  | false =>
    simp only [hm, Bool.false_eq_true, if_false, Bool.and_eq_true] at hf hf'
    simp only [hf.1, hf'.1]

/-! ### The signals that follow -/

theorem ifHs_congr (h : s.SameIds i i') : s.ifHs i = s.ifHs i' := by
  simp only [ifHs, ifReadyAxi_congr h]

theorem memReady_congr (h : s.SameIds i i') : s.memReady i = s.memReady i' := by
  simp only [memReady, ifReadyAxi_congr h]

theorem memValid_congr (h : s.SameIds i i') : s.memValid i = s.memValid i' := by
  simp only [memValid, memReadyAxi_congr h]

theorem exReady_congr (h : s.SameIds i i') : s.exReady i = s.exReady i' := by
  simp only [exReady, memExReady, memValid_congr h, memReady_congr h]

theorem idReady_congr (h : s.SameIds i i') : s.idReady i = s.idReady i' := by
  simp only [idReady, exReady_congr h]

theorem ifReady_congr (h : s.SameIds i i') : s.ifReady i = s.ifReady i' := by
  simp only [ifReady, idReady_congr h]

theorem csrIn_congr (h : s.SameIds i i') : s.csrIn i = s.csrIn i' := by
  simp only [csrIn, ifReadyAxi_congr h]

theorem flush_congr (h : s.SameIds i i') : s.flush i = s.flush i' := by
  simp only [flush, csrIn_congr h]

theorem rfWen_congr (h : s.SameIds i i') : s.rfWen i = s.rfWen i' := by
  simp only [rfWen, wbHs, ifReadyAxi_congr h, flush_congr h]

theorem bypassRs_congr (h : s.SameIds i i') (a : RegId) : s.bypassRs i a = s.bypassRs i' a := by
  unfold bypassRs
  rw [← memValid_congr h]
  cases hv : s.memValid i with
  | false => rfl
  | true => rw [lsuLsres_congr h hv]

theorem iduRs1_congr (h : s.SameIds i i') : s.iduRs1 i = s.iduRs1 i' := bypassRs_congr h _

theorem iduRs2_congr (h : s.SameIds i i') : s.iduRs2 i = s.iduRs2 i' := bypassRs_congr h _

theorem jump_congr (h : s.SameIds i i') : s.jump i = s.jump i' := by
  simp only [jump, iduRs1_congr h, iduRs2_congr h]

theorem bruStep_congr (h : s.SameIds i i') : s.bruStep i false = s.bruStep i' false := by
  simp only [bruStep, pcWen, nextPc, brHs, idReady_congr h, jump_congr h, iduRs1_congr h,
    csrIn_congr h, flush_congr h]
  rfl

/-! ### The clock edge -/

theorem step_ifId_congr (h : s.SameIds i i') :
    (if s.ifReady i && s.ifHs i || s.flush i then s.toIfId i else s.ifId.data) =
      if s.ifReady i' && s.ifHs i' || s.flush i' then s.toIfId i' else s.ifId.data := by
  rw [← ifReady_congr h, ← ifHs_congr h, ← flush_congr h]
  unfold toIfId
  rw [← flush_congr h, ← jump_congr h]
  cases hfl : s.flush i with
  | true => rfl
  | false =>
    cases hh : s.ifHs i with
    | false => simp
    | true =>
      have hf : s.ifReadyAxi i = true := by
        simp only [ifHs, Bool.and_eq_true] at hh
        exact hh.2
      rw [ifuIns_congr h hf]

theorem step_lsWb_congr (h : s.SameIds i i') :
    (if s.memValid i && s.memReady i || s.flush i then s.toLsWb i else s.lsWb.data) =
      if s.memValid i' && s.memReady i' || s.flush i' then s.toLsWb i' else s.lsWb.data := by
  rw [← memValid_congr h, ← memReady_congr h, ← flush_congr h]
  unfold toLsWb
  rw [← flush_congr h]
  cases hfl : s.flush i with
  | true => rfl
  | false =>
    cases hv : s.memValid i with
    | false => simp
    | true => rw [lsuLsres_congr h hv]

theorem toIdEx_congr (h : s.SameIds i i') : s.toIdEx i = s.toIdEx i' := by
  simp only [toIdEx, flush_congr h, iduRs1_congr h, iduRs2_congr h]

theorem toExLs_congr (h : s.SameIds i i') : s.toExLs i = s.toExLs i' := by
  simp only [toExLs, exuRs2, flush_congr h, iduRs2_congr h]

theorem step_congr (ha : i.Agree i') (h : s.SameIds i i') : s.step false i = s.step false i' := by
  have hif := step_ifId_congr h
  have hwb := step_lsWb_congr h
  have hpc : s.nextIfuPc i false = s.nextIfuPc i' false := by
    simp only [nextIfuPc, flush_congr h, ifHs_congr h]
  unfold step
  simp only [Bool.false_and, stlReg, Bool.false_eq_true, if_false]
  rw [hif, hwb]
  simp only [hpc, ifReady_congr h, ifHs_congr h, idReady_congr h, exReady_congr h,
    memReady_congr h, memValid_congr h, flush_congr h, toIdEx_congr h, toExLs_congr h,
    bruStep_congr h, rfWen_congr h, csrIn_congr h, AxiRw.step_congr ha]

end Core

/-! ## Two runs -/

/-- The core after `k` cycles of these inputs. -/
def Core.after (s : Core) (is : Nat → AxiIn) (k : Nat) : Core :=
  run (fun s i => s.step false i) s is k

/-- **Response payloads.** Two runs whose inputs agree go through the same states, with the same
outputs, if in every cycle the ids that the arbiter looks at compare alike. -/
theorem payloads_unread (s : Core) {is is' : Nat → AxiIn} {n : Nat}
    (hagree : ∀ k < n, (is k).Agree (is' k))
    (hids : ∀ k < n, (s.after is k).SameIds (is k) (is' k)) :
    ∀ k ≤ n, s.after is k = s.after is' k ∧ (s.after is k).outputs = (s.after is' k).outputs := by
  intro k hk
  have heq : s.after is k = s.after is' k := by
    induction k with
    | zero => rfl
    | succ k ih =>
      have hstep := Core.step_congr (hagree k hk) (hids k hk)
      have hprev := ih (Nat.le_of_succ_le hk)
      calc s.after is (k + 1) = (s.after is k).step false (is k) := rfl
        _ = (s.after is k).step false (is' k) := hstep
        _ = (s.after is' k).step false (is' k) := by rw [hprev]
        _ = s.after is' (k + 1) := rfl
  exact ⟨heq, by rw [heq]⟩

/-- The inputs of a slave that does not hold `RID`. -/
def dropId (i : AxiIn) : AxiIn := { i with rId := if i.rValid then i.rId else 0#4 }

/-- The inputs of a slave that does not hold `RDATA`. -/
def dropData (i : AxiIn) : AxiIn := { i with rData := if i.rValid then i.rData else 0#64 }

theorem agree_dropId (i : AxiIn) : i.Agree (dropId i) := by
  refine ⟨rfl, rfl, rfl, rfl, rfl, rfl, fun hv => ⟨?_, rfl, rfl⟩, fun _ => ⟨rfl, rfl⟩⟩
  simp [dropId, hv]

theorem agree_dropData (i : AxiIn) : i.Agree (dropData i) := by
  refine ⟨rfl, rfl, rfl, rfl, rfl, rfl, fun hv => ⟨rfl, ?_, rfl⟩, fun _ => ⟨rfl, rfl⟩⟩
  simp [dropData, hv]

/-- The slave shows the word of the first fetch while `r_valid` is low, or zeros. -/
theorem payloads_unread_data :
    let is := System.inputs loadProgram slowReads
    (is 4).rValid = false ∧ (is 4).rData ≠ (dropData (is 4)).rData ∧
    ∀ k ≤ 40, loadProgram.core.after is k = loadProgram.core.after (fun k => dropData (is k)) k ∧
      (loadProgram.core.after is k).outputs =
        (loadProgram.core.after (fun k => dropData (is k)) k).outputs :=
  ⟨by decide +kernel, by decide +kernel,
    payloads_unread loadProgram.core (fun _ _ => agree_dropData _) fun _ _ _ => rfl⟩

/-- If `RID` is not held, the first fetch is not delivered, and later the core fetches from another
address. -/
theorem payloads_unread_fails :
    let is := System.inputs loadProgram noWait
    let js := fun k => dropId (is k)
    loadProgram.AfterReset ∧ (∀ k, (is k).Agree (js k)) ∧
      (loadProgram.core.after is 4).ifId.valid = true ∧
      (loadProgram.core.after js 4).ifId.valid = false ∧
      (loadProgram.core.after is 10).out.arValid = true ∧
      (loadProgram.core.after js 10).out.arValid = true ∧
      (loadProgram.core.after is 10).out.arAddr ≠ (loadProgram.core.after js 10).out.arAddr :=
  ⟨loadProgram_afterReset, fun _ => agree_dropId _, by decide +kernel, by decide +kernel,
    by decide +kernel, by decide +kernel, by decide +kernel⟩

end Oscpu.Axi
