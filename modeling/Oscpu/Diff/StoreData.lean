import Oscpu.Diff.Flow

/-!
# The data of a store in `cpu_diff`

A store reads `rs2` in ID, from EX, MEM, WB or the register file, and EX replaces what it has read
when a load is right before it: the load is then in MEM and its result is there. Whatever the program
does, the value that reaches `lsu` with the store is the one that the last instruction before it with
that destination writes back. This holds also where the address of the store is stale.
-/

namespace Oscpu.Diff

open Oscpu.Rtl Oscpu.Lib

namespace Core

variable (s : Core)

/-! ## Destinations -/

/-- The destination of the instruction that leaves ID at the next edge. -/
def idDest : Option RegId :=
  if s.enters && oRdwen s.ifId.data.ins then some (oRdid s.ifId.data.ins) else none

/-- The destination of the instruction in EX. -/
def exDest : Option RegId := if s.idEx.data.rdwen then some s.idEx.data.rdid else none

theorem idDest_ne_zero : s.idDest ≠ some 0#5 := by
  unfold idDest
  cases hw : oRdwen s.ifId.data.ins with
  | false => simp
  | true => simp [oRdwen_ne_zero hw]

/-- Nothing behind ID acts. -/
structure Idle : Prop where
  idEx : s.idEx.data.rdwen = false ∧ s.idEx.data.sten = false
  exLs : s.exLs.data.rdwen = false ∧ s.exLs.data.sten = false
  lsWb : s.lsWb.data.rdwen = false

/-- Every register passes on what it holds, unless there is nothing to pass on. -/
def Moving : Prop := s.ifId.valid = true ∧ s.exLs.valid = true ∨ s.Idle

theorem step_moving : (s.step false).Moving := by
  refine .inl ⟨?_, ?_⟩ <;> simp [step_false]

theorem Moving.idle {s : Core} (h : s.Moving)
    (hv : s.ifId.valid = false ∨ s.exLs.valid = false) : s.Idle := by
  refine h.resolve_left ?_
  rintro ⟨hif, hex⟩
  simp [hif, hex] at hv

theorem start_idle (released : Bool) (rf : Regs) (ram : Ram) (regldQ wdataQ : Word) :
    (start released rf ram regldQ wdataQ).Idle := by
  cases released <;> exact ⟨⟨rfl, rfl⟩, ⟨rfl, rfl⟩, rfl⟩

section

variable {s : Core} (h : s.Moving)
include h

theorem step_exDest : (s.step false).exDest = s.idDest := by
  cases hv : s.ifId.valid with
  | true => cases hb : s.idexBubble <;> simp [exDest, idDest, enters_eq, step_false, toIdEx, hv, hb]
  | false =>
    have hidle : s.Idle := h.idle (.inl hv)
    simp [exDest, idDest, enters_eq, step_false, hv, hidle.idEx]

theorem step_sten : (s.step false).idEx.data.sten = (s.enters && oLsuSten s.ifId.data.ins) := by
  cases hv : s.ifId.valid with
  | true => cases hb : s.idexBubble <;> simp [enters_eq, step_false, toIdEx, hv, hb]
  | false =>
    have hidle : s.Idle := h.idle (.inl hv)
    simp [enters_eq, step_false, hv, hidle.idEx]

theorem step_wbWrite : (s.step false).wbWrite = s.memWrite := by
  cases hv : s.exLs.valid with
  | true => simp [wbWrite, wbuRd, wbu, memWrite, memRd, step_false, toLsWb, hv]
  | false =>
    have hidle : s.Idle := h.idle (.inr hv)
    simp [wbWrite, memWrite, step_false, hv, hidle.exLs, hidle.lsWb]

end

theorem step_ins {s : Core} (hen : s.enters = true) :
    (s.step false).idEx.data.ins = s.ifId.data.ins := by
  simp only [enters_eq, Bool.and_eq_true, Bool.not_eq_true'] at hen
  simp [step_false, toIdEx, hen]

theorem step_memWrite : (s.step false).memWrite =
    s.exDest.map fun q => (q, if s.idEx.data.lden then (s.step false).lsuLsres else s.exuExres) := by
  have hdata : (s.step false).exLs.data = s.toExLs := by simp [step_false]
  unfold memWrite memRd exDest
  rw [hdata]
  cases hw : s.idEx.data.rdwen <;> simp [toExLs, hw]

theorem step_memWrite_dest : (s.step false).memWrite.map Prod.fst = s.exDest := by
  rw [step_memWrite]
  cases s.exDest <;> rfl

theorem step_rf_read (h : s.wbWrite.map Prod.fst ≠ some 0#5) :
    (s.step false).rf.read = commit s.rf.read s.wbWrite := by
  have hrf : (s.step false).rf = s.rf.write s.lsWb.data.rdwen s.lsWb.data.rdid s.wbuRd := by
    rw [step_false]
  funext q
  rw [hrf, Regs.read_write]
  unfold wbWrite at h ⊢
  cases hw : s.lsWb.data.rdwen with
  | false => simp
  | true =>
    simp only [hw, if_true, Option.map_some, ne_eq, Option.some_inj] at h
    by_cases hq : s.lsWb.data.rdid = q
    · simp [commit_some_apply, hq, hq ▸ h]
    · simp [commit_some_apply, hq]

/-! ## The data of the stores in EX and MEM -/

/-- The registers when the instruction in WB has written back. -/
def behindWb : RegId → Word := commit s.rf.read s.wbWrite

/-- The registers when the instruction in MEM has written back too. -/
def behindMem : RegId → Word := commit s.behindWb s.memWrite

end Core

/-- The stores in EX and MEM go on with what the instructions before them leave in `rs2`. -/
structure StoreData (s : Core) : Prop where
  moving : s.Moving
  exDest : s.exDest ≠ some 0#5
  memDest : s.memWrite.map Prod.fst ≠ some 0#5
  wbDest : s.wbWrite.map Prod.fst ≠ some 0#5
  ex : s.idEx.data.sten = true → s.exuRs2 = s.behindMem (oRs2id s.idEx.data.ins)
  mem : s.exLs.data.sten = true → s.exLs.data.rs2 = s.behindWb (oRs2id s.exLs.data.ins)

namespace StoreData

variable {s : Core}

theorem of_idle (h : s.Idle) : StoreData s := by
  refine ⟨.inr h, ?_, ?_, ?_, ?_, ?_⟩
  · simp [Core.exDest, h.idEx]
  · simp [Core.memWrite, h.exLs]
  · simp [Core.wbWrite, h.lsWb]
  · simp [h.idEx]
  · simp [h.exLs]

theorem step_behindWb (h : StoreData s) : (s.step false).behindWb = s.behindMem := by
  unfold Core.behindMem Core.behindWb
  rw [Core.step_wbWrite h.moving, s.step_rf_read h.wbDest]

/-- What ID reads, unless the instruction in EX is a load with that destination. -/
theorem bypassRs_eq (q : RegId) (hq : s.idEx.data.lden = true → s.exDest ≠ some q) :
    s.bypassRs q = commit s.behindMem (s.step false).memWrite q := by
  rw [Core.bypassRs_eq, forward_eq, Core.step_memWrite]
  unfold Core.behindMem Core.behindWb Core.exWrite
  unfold Core.exDest at hq ⊢
  cases hl : s.idEx.data.lden with
  | false => cases s.idEx.data.rdwen <;> rfl
  | true =>
    cases hw : s.idEx.data.rdwen with
    | false => rfl
    | true =>
      have hne : s.idEx.data.rdid ≠ q := by simpa [hl, hw] using hq
      simp [commit_some_apply, hne]

/-- The shortcut is taken exactly when the value that ID reads is not yet there. -/
theorem exuRs2_eq (hen : s.enters = true) (hst : oLsuSten s.ifId.data.ins = true) :
    (s.step false).exuRs2 =
      commit s.behindMem (s.step false).memWrite (oRs2id s.ifId.data.ins) := by
  simp only [Core.enters_eq, Bool.and_eq_true, Bool.not_eq_true'] at hen
  have hsel : (s.step false).exuRs2 =
      if s.iduLdstbp then (s.step false).lsuLsres else s.iduRs2 := by
    simp [Core.step_false, Core.exuRs2, Core.toIdEx, hen]
  rw [hsel]
  cases hbp : s.iduLdstbp with
  | true =>
    simp only [Core.iduLdstbp, Bool.and_eq_true, beq_iff_eq] at hbp
    obtain ⟨⟨⟨hl, hw⟩, hd⟩, -⟩ := hbp
    have hdest : s.exDest = some (oRs2id s.ifId.data.ins) := by simp [Core.exDest, hw, hd]
    simp [Core.step_memWrite, hdest, hl, commit_some_apply]
  | false =>
    refine bypassRs_eq _ ?_
    intro hl hdest
    simp only [Core.exDest, Option.ite_none_right_eq_some, Option.some_inj] at hdest
    simp [Core.iduLdstbp, hl, hdest, hst] at hbp

theorem step (h : StoreData s) : StoreData (s.step false) := by
  refine ⟨s.step_moving, ?_, ?_, ?_, ?_, ?_⟩
  · rw [Core.step_exDest h.moving]
    exact s.idDest_ne_zero
  · rw [s.step_memWrite_dest]
    exact h.exDest
  · rw [Core.step_wbWrite h.moving]
    exact h.memDest
  · intro hst
    rw [Core.step_sten h.moving, Bool.and_eq_true] at hst
    rw [Core.step_ins hst.1, Core.behindMem, h.step_behindWb]
    exact exuRs2_eq hst.1 hst.2
  · rw [h.step_behindWb, Core.step_false]
    exact h.ex

end StoreData

/-! ## Runs -/

section

variable {s : Core} (h : s.Idle)
include h

theorem StoreData.run (n : Nat) : StoreData (run Core.step s (fun _ => false) n) := by
  induction n with
  | zero => exact .of_idle h
  | succ n ih => exact ih.step

/-- What leaves ID writes back three cycles later. -/
theorem wbWrite_run (j : Nat) :
    (run Core.step s (fun _ => false) (j + 3)).wbWrite.map Prod.fst =
      (run Core.step s (fun _ => false) j).idDest := by
  have hmoving (k : Nat) := (StoreData.run h k).moving
  rw [run_succ, Core.step_wbWrite (hmoving (j + 2)), run_succ, Core.step_memWrite_dest, run_succ,
    Core.step_exDest (hmoving j)]

/-- The first three cycles have nothing to write back. -/
theorem wbWrite_early {i : Nat} (hi : i < 3) :
    (run Core.step s (fun _ => false) i).wbWrite = none := by
  have hmoving (k : Nat) := (StoreData.run h k).moving
  have hwb : s.wbWrite = none := by simp [Core.wbWrite, h.lsWb]
  have hmem : s.memWrite = none := by simp [Core.memWrite, h.exLs]
  have hex : s.exDest = none := by simp [Core.exDest, h.idEx]
  rcases (by omega : i = 0 ∨ i = 1 ∨ i = 2) with rfl | rfl | rfl
  · exact hwb
  · rw [run_succ, Core.step_wbWrite (hmoving 0)]
    exact hmem
  · rw [run_succ, Core.step_wbWrite (hmoving 1), run_succ, Core.step_memWrite, run_zero, hex]
    rfl

/-- The store in MEM has left ID two cycles before. -/
theorem sten_run {n : Nat} (hst : (run Core.step s (fun _ => false) n).exLs.data.sten = true) :
    ∃ k, n = k + 2 ∧ (run Core.step s (fun _ => false) k).enters = true ∧
      oLsuSten (run Core.step s (fun _ => false) k).ifId.data.ins = true ∧
        (run Core.step s (fun _ => false) n).exLs.data.ins =
          (run Core.step s (fun _ => false) k).ifId.data.ins := by
  have hpass (t : Core) : (t.step false).exLs.data.sten = t.idEx.data.sten ∧
      (t.step false).exLs.data.ins = t.idEx.data.ins := by
    simp [Core.step_false, Core.toExLs]
  rcases n with _ | _ | k
  · rw [run_zero, h.exLs.2] at hst
    exact absurd hst Bool.false_ne_true
  · rw [run_succ, (hpass _).1, run_zero, h.idEx.2] at hst
    exact absurd hst Bool.false_ne_true
  · simp only [run_succ, hpass, Core.step_sten (StoreData.run h k).moving, Bool.and_eq_true] at hst
    refine ⟨k, rfl, hst.1, hst.2, ?_⟩
    rw [run_succ, (hpass _).2, run_succ, Core.step_ins hst.1]

end

/-! ## Destinations and instructions -/

theorem Front.run_core (f : Front) (n : Nat) :
    (run Front.step f (fun _ => ()) n).core = run Core.step f.core (fun _ => false) n := by
  induction n with
  | zero => rfl
  | succ n ih =>
    rw [run_succ, run_succ, ← ih]
    rfl

/-- What leaves ID with a destination is an instruction: the words fetched below `PC_START` and the
no-operation behind a jump have none. -/
theorem passed_of_idDest {rf : Regs} {ram : Ram} {f : Front} (h : Booting rf ram f)
    (hz : BootZero ram) {n : Nat} {q : RegId}
    (hq : (run Core.step f.core (fun _ => false) n).idDest = some q) :
    ∃ p, (run Front.step f (fun _ => ()) n).passed () = [p] ∧ oRdwen p.ins = true ∧
      oRdid p.ins = q := by
  rw [← Front.run_core] at hq
  obtain ⟨hinv, -⟩ := flow_run h hz n
  generalize run Front.step f (fun _ => ()) n = g at hinv hq ⊢
  simp only [Core.idDest, Option.ite_none_right_eq_some, Bool.and_eq_true, Option.some_inj,
    Core.enters_eq, Bool.not_eq_true'] at hq
  obtain ⟨⟨⟨-, hs⟩, hw⟩, hd⟩ := hq
  have hnop (hn : IsNop g.core.ifId.data.ins) : False := by
    rw [hn.rdwen] at hw
    exact Bool.false_ne_true hw
  rcases hinv with ⟨hb, -⟩ | hf
  · exact (hnop (.inr hb.boot.ins)).elim
  · by_cases hk : g.kind = .fetched
    · obtain ⟨p, hp, -, hins, -⟩ := hf.passed_of_fetched hs hk
      exact ⟨p, hp, by rw [hins, hw], by rw [hins, hd]⟩
    · exact (hnop (hf.inIf hk).1).elim

/-- The last instruction with destination `q` that has left ID before cycle `k` writes `v` back,
three cycles after it has left ID; or there is none, and `v` is what `q` holds at first. -/
def LastWriteBack (c : Nat → Core) (rf : Regs) (k : Nat) (q : RegId) (v : Word) : Prop :=
  (∃ j < k, (c j).idDest = some q ∧ (∀ i, j < i → i < k → (c i).idDest ≠ some q) ∧
      (c (j + 3)).wbWrite = some (q, v)) ∨
    (∀ j < k, (c j).idDest ≠ some q) ∧ v = rf.read q

/-- The registers behind the instruction in WB hold what was written back last. -/
theorem behindWb_run {s : Core} (h : s.Idle) (k : Nat) (q : RegId) :
    LastWriteBack (run Core.step s (fun _ => false)) s.rf k q
      ((run Core.step s (fun _ => false) (k + 2)).behindWb q) := by
  let c := run Core.step s (fun _ => false)
  have hstep (n : Nat) : (c (n + 1)).rf.read = commit (c n).rf.read (c n).wbWrite :=
    Core.step_rf_read _ (StoreData.run h n).wbDest
  have hdest {i : Nat} {v : Word} (hv : (c i).wbWrite = some (q, v)) :
      ∃ j, i = j + 3 ∧ (c j).idDest = some q := by
    have hi : 3 ≤ i := by
      by_contra hlt
      rw [wbWrite_early h (Nat.lt_of_not_le hlt)] at hv
      cases hv
    obtain ⟨j, rfl⟩ := Nat.exists_eq_add_of_le' hi
    exact ⟨j, rfl, by rw [← wbWrite_run h, hv]; rfl⟩
  have hwrite {j : Nat} (hj : (c j).idDest = some q) : ∃ v, (c (j + 3)).wbWrite = some (q, v) := by
    rw [← wbWrite_run h, Option.map_eq_some_iff] at hj
    obtain ⟨⟨_, v⟩, hv, rfl⟩ := hj
    exact ⟨v, hv⟩
  have hread : (c (k + 2)).behindWb q = (c (k + 3)).rf.read q := by
    rw [hstep]
    rfl
  change LastWriteBack c s.rf k q ((c (k + 2)).behindWb q)
  rw [hread]
  rcases commit_history (f := fun n => (c n).rf.read) hstep q (k + 3) with
    ⟨i, hi, hw, hafter⟩ | ⟨hnone, hinit⟩
  · obtain ⟨j, rfl, hj⟩ := hdest hw
    refine .inl ⟨j, by omega, hj, ?_, hw⟩
    intro i hji hik hi'
    obtain ⟨v, hv⟩ := hwrite hi'
    exact hafter (i + 3) (by omega) (by omega) v hv
  · refine .inr ⟨?_, hinit⟩
    intro j hj hj'
    obtain ⟨v, hv⟩ := hwrite hj'
    exact hnone (j + 3) (by omega) v hv

/-- **The data of a store.** From reset, whatever the program does: a store in MEM has left ID two
cycles before, and `i_regst` of `lsu` is what the last instruction before it with destination `rs2`
writes back, at the latest in this cycle, or what the register file held in `rs2` at first. -/
theorem store_data (released : Bool) (rf : Regs) (ram : Ram) (regldQ wdataQ : Word) (n : Nat) :
    let c := run Core.step (Core.start released rf ram regldQ wdataQ) (fun _ => false)
    (c n).exLs.data.sten = true →
      ∃ k, n = k + 2 ∧ (c k).enters = true ∧ oLsuSten (c k).ifId.data.ins = true ∧
        (c n).exLs.data.ins = (c k).ifId.data.ins ∧
          LastWriteBack c rf k (oRs2id (c k).ifId.data.ins) (c n).exLs.data.rs2 := by
  intro c hst
  have hidle := Core.start_idle released rf ram regldQ wdataQ
  have hrf : (Core.start released rf ram regldQ wdataQ).rf = rf := by cases released <;> rfl
  obtain ⟨k, rfl, hen, hsten, hins⟩ := sten_run hidle hst
  refine ⟨k, rfl, hen, hsten, hins, ?_⟩
  have hdata := (StoreData.run hidle (k + 2)).mem hst
  have hlast := behindWb_run hidle k (oRs2id (c k).ifId.data.ins)
  rw [hins] at hdata
  rw [hrf, ← hdata] at hlast
  exact hlast

/-- `auipc x6, 0`, `ld x5, 0x100(x6)`, `sd x5, 0x108(x6)`, `jal x0, 0`, and the word that is
loaded. -/
def copyRam : Ram := fun i =>
  if i = 0#64 then 0x1003328300000317#64
  else if i = 1#64 then 0x0000006f10533423#64
  else if i = ramIdx 0x80000100#64 then 7#64
  else 0#64

/-- The store reads the old `x5` in ID, in cycle 4, and reaches MEM with the loaded word. -/
theorem store_data_shortcut :
    let c := run Core.step (Core.start true (fun _ => 0#64) copyRam 0#64 0#64) (fun _ => false)
    (c 4).iduRs2 = 0#64 ∧ (c 6).exLs.data.exres = 0x80000108#64 ∧ (c 6).exLs.data.rs2 = 7#64 ∧
      (c 6).wbWrite = some (5#5, 7#64) ∧
      ∃ k, 6 = k + 2 ∧ (c k).enters = true ∧ oLsuSten (c k).ifId.data.ins = true ∧
        (c 6).exLs.data.ins = (c k).ifId.data.ins ∧
          LastWriteBack c (fun _ => 0#64) k (oRs2id (c k).ifId.data.ins) (c 6).exLs.data.rs2 :=
  ⟨by decide +kernel, by decide +kernel, by decide +kernel, by decide +kernel,
    store_data true _ copyRam _ _ 6 (by decide +kernel)⟩

end Oscpu.Diff
