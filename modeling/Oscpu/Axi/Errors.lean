import Oscpu.Axi.RoundTrip

/-!
# Error responses of the bus

`axi_rw` samples the response of the last beat through a wire of one bit. The error codes have bit 1
set, which the wire drops: `SLVERR` is reported as `OKAY` and `DECERR` as `EXOKAY`, and the codes of
the beats before the last one are not looked at.
-/

namespace Oscpu.Axi

open Oscpu.Rtl Oscpu.Lib

/-- `SLVERR` is `2'b10` and `DECERR` is `2'b11`. -/
def isError (resp : BitVec 2) : Bool := resp.getLsbD 1

theorem isError_zeroExtend (x : BitVec 1) : isError (x.zeroExtend 2) = false := by
  revert x
  decide

namespace Bus

variable (b : Bus) (xs : BusInputs)

/-- In cycle `k` a beat of the read that is presented, or the response of the write, is taken with
an error code. -/
def errorAt (k : Nat) : Bool :=
  if (xs k).1.write then (b.after xs k).rw.bHs (xs k).1 (xs k).2 && isError (xs k).2.bResp
  else (b.after xs k).rw.rHs (xs k).1 (xs k).2 && isError (xs k).2.rResp

/-- `rw_resp_o` is an error code in cycle `t` if and only if one arrived since `s`. -/
def Reports (s t : Nat) : Prop :=
  (∃ k, s ≤ k ∧ k < t ∧ b.errorAt xs k = true) ↔ isError (b.after xs t).rw.rwResp = true

variable {b xs}

theorem step_rwResp (k : Nat) : (b.after xs (k + 1)).rw.rwResp =
    if (b.after xs k).rw.transDone (xs k).1 (xs k).2 then
      (AxiRw.respNxt (xs k).1 (xs k).2).zeroExtend 2
    else (b.after xs k).rw.rwResp := rfl

theorem not_isError (hb : b.AfterReset) (t : Nat) : isError (b.after xs t).rw.rwResp = false := by
  induction t with
  | zero =>
    change isError b.rw.rwResp = false
    rw [hb.rw]
    rfl
  | succ t ih =>
    rw [step_rwResp]
    split_ifs
    · exact isError_zeroExtend _
    · exact ih

theorem reports_iff_no_error (hb : b.AfterReset) (s t : Nat) :
    b.Reports xs s t ↔ ∀ k, s ≤ k → k < t → b.errorAt xs k = false := by
  unfold Reports
  rw [not_isError hb t]
  simp

theorem not_reports (hb : b.AfterReset) {s t k : Nat} (hsk : s ≤ k) (hkt : k < t)
    (he : b.errorAt xs k = true) : ¬ b.Reports xs s t := by
  intro h
  rw [(reports_iff_no_error hb s t).1 h k hsk hkt] at he
  cases he

/-- **Bus errors.** The code that comes with an answer is bit 0 of the last response, and it says
what the slave said about the request exactly if no response to it was an error. -/
theorem error_reported_iff {s t : Nat} (hb : b.AfterReset) (ht : b.AnswersAt xs s t) :
    (b.Reports xs s t ↔ ∀ k, s ≤ k → k < t → b.errorAt xs k = false) ∧
      ∃ k, t = k + 1 ∧ (b.after xs k).rw.transDone (xs k).1 (xs k).2 = true ∧
        (b.after xs t).rw.rwResp = (AxiRw.respNxt (xs k).1 (xs k).2).zeroExtend 2 := by
  refine ⟨reports_iff_no_error hb s t, ?_⟩
  have hready := ht.2.1
  cases t with
  | zero =>
    change b.rw.rwReady = true at hready
    rw [hb.rw] at hready
    cases hready
  | succ k =>
    have hdone : (b.after xs k).rw.transDone (xs k).1 (xs k).2 = true := hready
    exact ⟨k, rfl, hdone, by rw [step_rwResp, hdone, if_pos rfl]⟩

/-! ## What a response code changes -/

/-- The machine with another code in `rw_resp`. -/
def withResp (b : Bus) (p : BitVec 2) : Bus := { b with rw := { b.rw with rwResp := p } }

/-- The inputs with the response code `e k` in cycle `k`. -/
def responding (xs : BusInputs) (e : Nat → BitVec 2) : BusInputs := fun k =>
  ((xs k).1, { (xs k).2 with rResp := e k, bResp := e k })

/-- The response codes of the slave reach `rw_resp_o` and nothing else. -/
theorem after_responding (b : Bus) (xs : BusInputs) (e : Nat → BitVec 2) (k : Nat) :
    ∃ p, b.after (responding xs e) k = (b.after xs k).withResp p := by
  induction k with
  | zero => exact ⟨b.rw.rwResp, rfl⟩
  | succ k ih =>
    obtain ⟨p, hp⟩ := ih
    refine ⟨(b.after (responding xs e) (k + 1)).rw.rwResp, ?_⟩
    rw [after_succ, after_succ, hp]
    rfl

theorem Serves.responding (hx : b.Serves xs) (e : Nat → BitVec 2) :
    b.Serves (Bus.responding xs e) := by
  have hafter := after_responding b xs e
  refine ⟨hx.reset, ?_, ?_, ⟨?_, ?_⟩, ⟨?_, ?_, ?_⟩⟩
  · intro k
    obtain ⟨p, hp⟩ := hafter k
    rw [hp]
    exact ⟨(hx.ok k).r, (hx.ok k).b⟩
  · intro k hv hr
    obtain ⟨p, hp⟩ := hafter k
    rw [hp] at hr
    exact hx.held k hv hr
  · intro k hv
    obtain ⟨p, hp⟩ := hafter k
    rw [hp] at hv
    exact hx.fair.ar k hv
  · intro k hr
    obtain ⟨p, hp⟩ := hafter k
    rw [hp] at hr
    exact hx.fair.r k hr
  · intro k hv
    obtain ⟨p, hp⟩ := hafter k
    rw [hp] at hv
    exact hx.fairWrite.aw k hv
  · intro k hv
    obtain ⟨p, hp⟩ := hafter k
    rw [hp] at hv
    exact hx.fairWrite.w k hv
  · intro k w hw
    obtain ⟨p, hp⟩ := hafter k
    rw [hp] at hw
    exact hx.fairWrite.b k w hw

/-! ## Answers that hide an error -/

/-- The request `r` of a slave that answers at once with these codes. -/
def respondingTo (r : RwReq) (e : Nat → BitVec 2) : BusInputs :=
  responding (zero.serving fun _ => r) e

theorem serves_respondingTo (r : RwReq) (e : Nat → BitVec 2) : zero.Serves (respondingTo r e) :=
  (serves_serving _ r).responding e

theorem answersAt_zero {r : RwReq} {e : Nat → BitVec 2} {t : Nat}
    (hno : ∀ k < t, (zero.after (respondingTo r e) k).rw.rwReady = false)
    (ht : (zero.after (respondingTo r e) t).rw.rwReady = true) :
    zero.AnswersAt (respondingTo r e) 0 t :=
  ⟨Nat.zero_le t, ht, fun k _ hk => hno k hk⟩

/-- `ld` from the start of the RAM, answered with `OKAY`. -/
theorem error_reported_iff_okay :
    zero.Reports (respondingTo (loadReq FUNC3_LD_SD 0x80000000#64 0#64 0#8) fun _ => 0#2) 0 3 := by
  refine (error_reported_iff ⟨rfl, rfl, rfl⟩ (answersAt_zero (by decide) (by decide))).1.2 ?_
  intro k _ _
  simp [errorAt, respondingTo, responding, serving, loadReq, isError]

/-- `SLVERR` for a load comes out as `OKAY` and `DECERR` for a store as `EXOKAY`, and `SLVERR` for
the first of two beats is gone when the second one arrives. -/
theorem error_reported_fails :
    let ld := respondingTo (loadReq FUNC3_LD_SD 0x80000000#64 0#64 0#8) fun _ => 2#2
    let sd := respondingTo (storeReq FUNC3_LD_SD 0x80000000#64 0#64) fun _ => 3#2
    let lw := respondingTo (loadReq FUNC3_LW_SW 0x80000006#64 0#64 0#8) fun k =>
      if k = 2 then 2#2 else 0#2
    (zero.Serves ld ∧ zero.AnswersAt ld 0 3 ∧ zero.errorAt ld 2 = true ∧
      (zero.after ld 3).rw.rwResp = 0#2 ∧ ¬ zero.Reports ld 0 3) ∧
    (zero.Serves sd ∧ zero.AnswersAt sd 0 4 ∧ zero.errorAt sd 3 = true ∧
      (zero.after sd 4).rw.rwResp = 1#2 ∧ ¬ zero.Reports sd 0 4) ∧
    zero.Serves lw ∧ zero.AnswersAt lw 0 4 ∧ zero.errorAt lw 2 = true ∧
      (zero.after lw 4).rw.rwResp = 0#2 ∧ ¬ zero.Reports lw 0 4 := by
  intro ld sd lw
  have hld : zero.errorAt ld 2 = true := by decide
  have hsd : zero.errorAt sd 3 = true := by decide
  have hlw : zero.errorAt lw 2 = true := by decide
  have hb : zero.AfterReset := ⟨rfl, rfl, rfl⟩
  exact ⟨⟨serves_respondingTo _ _, answersAt_zero (by decide) (by decide), hld, by decide,
      not_reports hb (by decide) (by decide) hld⟩,
    ⟨serves_respondingTo _ _, answersAt_zero (by decide) (by decide), hsd, by decide,
      not_reports hb (by decide) (by decide) hsd⟩,
    serves_respondingTo _ _, answersAt_zero (by decide) (by decide), hlw, by decide,
      not_reports hb (by decide) (by decide) hlw⟩

end Bus

end Oscpu.Axi
