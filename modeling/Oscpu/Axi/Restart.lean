import Oscpu.Axi.Order

/-!
# What follows a flush

A flush clears the data of every register and points `ifu` at address 0; `keep` discards one fetch,
which is the one under way or the one from there, and `ifu` goes where `bru` went in the cycle of
the flush. `Marked` notes which registers hold an instruction fetched since: whatever came before
the flush, the instructions behind it are in program order from there on, each one once. Their words
are those in memory, but for reads of two beats that an abandoned store disturbs.
-/

namespace Oscpu.Axi

open Oscpu.Rtl Oscpu.Lib

/-- A completed fetch leaves no read behind, so the next one starts with a cleared beat counter. -/
theorem Reads.of_fetch {y : System} {i : AxiIn} (ho : Occ y) (hi : y.Ok i)
    (hf : y.core.ifReadyAxi i = true) : Reads (y.step i) := by
  obtain ⟨hm, -, hr⟩ := Occ.ready_of_fetch hf
  have hw : y.core.axiSigWrite = false := by simp [Core.axiSigWrite, hm]
  obtain ⟨hrd, hst⟩ := ho.fetched hr hw
  have hrd' : (y.step i).slave.rd = none :=
    Slave.step_rd_of_none hrd (by simp [Core.out, AxiRw.out, hst])
  have hready : (y.step i).core.rw.rwReady = false := by
    change y.core.rw.transDone y.core.req i = false
    rw [AxiRw.transDone_of_read hw]
    simp [AxiRw.rDone, AxiRw.rHs, Slave.not_rValid hi hrd]
  have hnone (b : ReadBurst) : (y.step i).slave.rd ≠ some b := by simp [hrd']
  refine ⟨fun b hb => absurd hb (hnone b), fun b hb => absurd hb (hnone b),
    fun b hb => absurd hb (hnone b), fun b hb => absurd hb (hnone b),
    fun b hb => absurd hb (hnone b), ?_, ?_,
    fun b hb => absurd hb (hnone b), fun b hb => absurd hb (hnone b), ?_⟩
  · intro hr' _
    rw [hready] at hr'
    exact absurd hr' Bool.false_ne_true
  · intro hst' _
    have hnext : y.core.rw.nextR y.core.req i = .addr := hst'
    have hidle : y.core.rw.rState = .idle := by
      cases hs : y.core.rw.rState with
      | idle => rfl
      | addr => exact absurd hs hst
      | read =>
        cases hv : y.core.req.rValid <;> cases hd : y.core.rw.rDone y.core.req i <;>
          simp [AxiRw.nextR, hs, hv, hd] at hnext
    change y.core.rw.nextLen y.core.req i = _
    have hwrite : y.core.req.write = false := hw
    simp [AxiRw.nextLen, hwrite, hidle]
  · intro hr'
    rw [hready] at hr'
    exact absurd hr' Bool.false_ne_true

/-- No fetch completes in the cycle after one that did, so `keep` was low before. -/
theorem Occ.keep_of_fetch {y : System} {i j : AxiIn} (h : Occ y) (hi : y.Ok i)
    (hk : (y.step i).core.csr.keep = false) (hf : (y.step i).core.ifReadyAxi j = true) :
    y.core.csr.keep = false := by
  cases hprev : y.core.ifReadyAxi i with
  | false => exact (keep_of_step hk hprev).1
  | true =>
    have hid : (y.step i).core.ifId.valid = true := h.step_id.trans hprev
    have hready := ((h.step hi).id hid).2.2.1
    rw [(ready_of_fetch hf).2.2] at hready
    exact absurd hready (by simp)

/-! ## Instructions in the pipeline -/

/-- The system, with the instruction that each register holds: the pc and the word of the fetch that
delivered it. A register without one holds a bubble. -/
structure Marked where
  sys : System
  id : Option (Word × Ins)
  ex : Option (Word × Ins)
  mem : Option (Word × Ins)
  wb : Option (Word × Ins)

namespace Marked

variable (t : Marked) (i : AxiIn)

/-- No instruction is in the pipeline. -/
def start (y : System) : Marked := ⟨y, none, none, none, none⟩

/-- The instruction that IF/ID takes over when it loads. -/
def fetch : Option (Word × Ins) :=
  if t.sys.delivers i then some (t.sys.core.ifuPc, t.sys.core.ifuIns i) else none

/-- Instructions move with the write enables of the registers that they are in. -/
def step : Marked :=
  let s := t.sys.core
  let fl := s.flush i
  { sys := t.sys.step i
    id := if fl then none else if s.ifReady i && s.ifHs i then t.fetch i else t.id
    ex :=
      if fl then none
      else if s.ifId.valid && s.idReady i then if s.pcStall then none else t.id
      else t.ex
    mem := if fl then none else if s.idEx.valid && s.exReady i then t.ex else t.mem
    wb := if fl then none else if s.memValid i && s.memReady i then t.mem else t.wb }

/-- The instruction that a fetch delivers. -/
def fetched : List (Word × Ins) :=
  if t.sys.core.flush i then []
  else if t.sys.core.ifReady i && t.sys.core.ifHs i then (t.fetch i).toList
  else []

/-- The pc of the instruction in EX, and where `bru` goes on behind it. -/
def decided : List (Word × Word) :=
  if t.sys.core.idEx.valid then t.ex.toList.map fun x => (x.1, t.sys.core.target i) else []

/-- The instruction that retires. -/
def retired : List (Word × Ins) :=
  if t.sys.core.wbHs i && !t.sys.core.flush i then t.wb.toList else []

/-- The instructions in write-back and MEM. -/
def inFlight : List (Word × Ins) :=
  (if t.sys.core.lsWb.valid then t.wb.toList else []) ++
    if t.sys.core.exLs.valid then t.mem.toList else []

/-- The instructions in EX and ID. -/
def undecided : List (Word × Ins) :=
  (if t.sys.core.idEx.valid then t.ex.toList else []) ++
    if t.sys.core.ifId.valid then t.id.toList else []

end Marked

/-- A register with this pc and word holds the instruction, or a bubble if there is none. -/
def InReg (x : Option (Word × Ins)) (pc : Word) (ins : Ins) : Prop :=
  match x with
  | some p => pc = p.1 ∧ ins = p.2
  | none => ins = 0#32

/-- Every register holds what the marks say. -/
structure Marked.Held (t : Marked) : Prop where
  id : InReg t.id t.sys.core.ifId.data.pc t.sys.core.ifId.data.ins
  ex : InReg t.ex t.sys.core.idEx.data.pc t.sys.core.idEx.data.ins
  mem : InReg t.mem t.sys.core.exLs.data.pc t.sys.core.exLs.data.ins
  wb : InReg t.wb t.sys.core.lsWb.data.pc t.sys.core.lsWb.data.ins

namespace Marked.Held

variable {t : Marked} {i : AxiIn}

theorem step_id (h : t.Held) (ho : Occ t.sys) (hfl : t.sys.core.flush i = false) :
    InReg (t.step i).id (t.step i).sys.core.ifId.data.pc (t.step i).sys.core.ifId.data.ins := by
  have hsys : (t.step i).sys = t.sys.step i := rfl
  have hid : (t.step i).id = if t.sys.core.ifReadyAxi i then t.fetch i else t.id := by
    simp [Marked.step, hfl, ho.loads]
  rw [hid, hsys]
  cases hf : t.sys.core.ifReadyAxi i with
  | false =>
    rw [Occ.step_ifId_of_quiet hf hfl]
    exact h.id
  | true =>
    rw [if_pos rfl, ho.step_ifId_of_delivery hf hfl, Marked.fetch]
    cases t.sys.delivers i <;> simp [InReg]

theorem step_ex (h : t.Held) (ho : Occ t.sys) (hfl : t.sys.core.flush i = false) :
    InReg (t.step i).ex (t.step i).sys.core.idEx.data.pc (t.step i).sys.core.idEx.data.ins := by
  have hsys : (t.step i).sys = t.sys.step i := rfl
  cases hv : t.sys.core.ifId.valid with
  | false =>
    have hex : (t.step i).ex = t.ex := by simp [Marked.step, hfl, hv]
    rw [hex, hsys, Occ.step_idEx_of_quiet hv hfl]
    exact h.ex
  | true =>
    have hs := Occ.not_pcStall (ho.id hv).1
    have hex : (t.step i).ex = t.id := by simp [Marked.step, hfl, hv, ho.idReady i, hs]
    rw [hex, hsys, ho.step_idEx_of_id hv, Core.toIdEx, hfl, hs]
    exact h.id

theorem step_mem (h : t.Held) (ho : Occ t.sys) (hfl : t.sys.core.flush i = false) :
    InReg (t.step i).mem (t.step i).sys.core.exLs.data.pc (t.step i).sys.core.exLs.data.ins := by
  have hsys : (t.step i).sys = t.sys.step i := rfl
  cases hv : t.sys.core.idEx.valid with
  | false =>
    have hmem : (t.step i).mem = t.mem := by simp [Marked.step, hfl, hv]
    rw [hmem, hsys, Occ.step_exLs_of_stay hv, hfl]
    exact h.mem
  | true =>
    have hmem : (t.step i).mem = t.ex := by simp [Marked.step, hfl, hv, ho.exReady_of_ex i hv]
    rw [hmem, hsys, ho.step_exLs_of_ex hv, Core.toExLs, hfl]
    exact h.ex

theorem step_wb (h : t.Held) (hfl : t.sys.core.flush i = false) :
    InReg (t.step i).wb (t.step i).sys.core.lsWb.data.pc (t.step i).sys.core.lsWb.data.ins := by
  have hsys : (t.step i).sys = t.sys.step i := rfl
  cases hl : (t.sys.core.memValid i && t.sys.core.memReady i) with
  | false =>
    have hwb : (t.step i).wb = t.wb := by simp [Marked.step, hfl, hl]
    rw [hwb, hsys, Occ.step_lsWb_of_quiet hl hfl]
    exact h.wb
  | true =>
    have hwb : (t.step i).wb = t.mem := by simp [Marked.step, hfl, hl]
    rw [hwb, hsys, Occ.step_lsWb_of_leave hl, Core.toLsWb, hfl]
    exact h.mem

theorem step (h : t.Held) (ho : Occ t.sys) (hfl : t.sys.core.flush i = false) :
    (t.step i).Held :=
  ⟨h.step_id ho hfl, h.step_ex ho hfl, h.step_mem ho hfl, h.step_wb hfl⟩

theorem of_flush {y : System} (hfl : y.core.flush i = true) :
    (Marked.start (y.step i)).Held := by
  constructor
  · change (y.step i).core.ifId.data.ins = 0#32
    rw [Occ.step_ifId_of_flush hfl]
    rfl
  · change (y.step i).core.idEx.data.ins = 0#32
    rw [Occ.step_idEx_of_flush hfl]
    rfl
  · change (y.step i).core.exLs.data.ins = 0#32
    rw [Occ.step_exLs_of_flush hfl]
    rfl
  · change (y.step i).core.lsWb.data.ins = 0#32
    rw [Occ.step_lsWb_of_flush hfl]
    rfl

end Marked.Held

/-! ## Each one once -/

namespace Marked

variable {t : Marked} {i : AxiIn}

@[simp] theorem inFlight_start (y : System) : (start y).inFlight = [] := by
  unfold inFlight
  split_ifs <;> rfl

@[simp] theorem undecided_start (y : System) : (start y).undecided = [] := by
  unfold undecided
  split_ifs <;> rfl

theorem inFlight_step (ho : Occ t.sys) (hfl : t.sys.core.flush i = false) :
    t.inFlight ++ (if t.sys.core.idEx.valid then t.ex.toList else []) =
      t.retired i ++ (t.step i).inFlight := by
  have hmem : (t.step i).mem =
      if t.sys.core.idEx.valid && t.sys.core.exReady i then t.ex else t.mem := by
    simp [step, hfl]
  have hwb : (t.step i).wb = if t.sys.core.leaves i then t.mem else t.wb := by
    simp [step, hfl, Core.leaves]
  have hq := ho.queue_step i t.ex.toList t.mem.toList t.wb.toList
  rw [inFlight, inFlight, retired, hfl, hmem, hwb, apply_ite Option.toList, apply_ite Option.toList,
    List.append_assoc, Bool.not_false, Bool.and_true]
  exact hq

/-- What IF/ID took over is in EX next, and what a fetch delivers is in ID. -/
theorem undecided_step (ho : Occ t.sys) (hfl : t.sys.core.flush i = false) :
    (if t.sys.core.ifId.valid then t.id.toList else []) ++ t.fetched i =
      (t.step i).undecided := by
  have hvex : (t.step i).sys.core.idEx.valid = t.sys.core.ifId.valid := ho.step_ex
  have hvid : (t.step i).sys.core.ifId.valid = t.sys.core.ifReadyAxi i := ho.step_id
  rw [undecided, hvex, hvid]
  have hex : (if t.sys.core.ifId.valid then t.id.toList else []) =
      if t.sys.core.ifId.valid then (t.step i).ex.toList else [] := by
    cases hv : t.sys.core.ifId.valid with
    | false => rfl
    | true => simp [step, hfl, hv, ho.idReady i, Occ.not_pcStall (ho.id hv).1]
  have hid : t.fetched i = if t.sys.core.ifReadyAxi i then (t.step i).id.toList else [] := by
    cases hf : t.sys.core.ifReadyAxi i <;> simp [fetched, step, hfl, ho.loads, hf]
  rw [hex, hid]

theorem of_mem_fetched {x : Word × Ins} (hx : x ∈ t.fetched i) :
    t.sys.core.ifReadyAxi i = true ∧ t.sys.core.csr.keep = false ∧
      x = (t.sys.core.ifuPc, t.sys.core.ifuIns i) := by
  unfold fetched fetch System.delivers at hx
  split_ifs at hx with hfl hl hd
  · simp at hx
  · simp only [Bool.and_eq_true, Bool.not_eq_true'] at hd
    exact ⟨hd.1.1, hd.1.2, by simpa using hx⟩
  · simp at hx
  · simp at hx

theorem decided_fst (t : Marked) (i : AxiIn) : (t.decided i).map Prod.fst =
    (if t.sys.core.idEx.valid then t.ex.toList else []).map Prod.fst := by
  unfold decided
  split <;> simp

end Marked

/-- The pipeline behind a flush that sent `bru` to `b`, with the instructions fetched, decided and
retired since. -/
structure Restarted (b : Word) (t : Marked) (fetched : List (Word × Ins))
    (decided : List (Word × Word)) (retired : List (Word × Ins)) : Prop where
  occ : Occ t.sys
  behind : Behind t.sys
  held : t.Held
  /-- The instruction in EX is the one whose word is still in IF/ID. -/
  same : t.sys.core.idEx.valid = true → t.ex = t.id
  front : (Discards t.sys b ∧ t.id = none ∧ decided = []) ∨
    Ahead t.sys t.id.isSome (goesOn b decided)
  follows : Follows b decided
  fetched_eq : fetched = retired ++ t.inFlight ++ t.undecided
  decided_eq : decided.map Prod.fst = (retired ++ t.inFlight).map Prod.fst

namespace Restarted

variable {b : Word} {t : Marked} {i : AxiIn} {F R : List (Word × Ins)} {D : List (Word × Word)}

theorem step_same (h : Restarted b t F D R) (hfl : t.sys.core.flush i = false)
    (hv : (t.step i).sys.core.idEx.valid = true) : (t.step i).ex = (t.step i).id := by
  have hid : t.sys.core.ifId.valid = true := h.occ.step_ex.symm.trans hv
  obtain ⟨he, -, hr, -⟩ := h.occ.id hid
  have hf : t.sys.core.ifReadyAxi i = false := by simp [Core.ifReadyAxi, hr]
  simp [Marked.step, hfl, hid, h.occ.idReady i, Occ.not_pcStall he, Core.ifHs, hf]

theorem decided_of_ahead (h : Restarted b t F D R) (i : AxiIn) :
    t.decided i = t.sys.decidedIf t.id.isSome i := by
  unfold Marked.decided System.decidedIf
  cases hv : t.sys.core.idEx.valid with
  | false => rfl
  | true =>
    have hex := h.held.ex
    rw [h.same hv] at hex ⊢
    cases hid : t.id with
    | none => rfl
    | some x =>
      rw [hid] at hex
      simp [hex.1]

theorem decided_of_none (h : Restarted b t F D R) (hid : t.id = none) (i : AxiIn) :
    t.decided i = [] := by
  rw [h.decided_of_ahead i, hid]
  simp [System.decidedIf]

theorem step_follows (h : Restarted b t F D R) (i : AxiIn) : Follows b (D ++ t.decided i) := by
  rw [follows_append]
  refine ⟨h.follows, ?_⟩
  rcases h.front with ⟨-, hid, -⟩ | hf
  · rw [h.decided_of_none hid i]
    trivial
  · rw [h.decided_of_ahead i]
    exact hf.follows h.behind i

theorem step_front (h : Restarted b t F D R) (hfl : t.sys.core.flush i = false) :
    (Discards (t.step i).sys b ∧ (t.step i).id = none ∧ D ++ t.decided i = []) ∨
      Ahead (t.step i).sys (t.step i).id.isSome (goesOn b (D ++ t.decided i)) := by
  have hid : (t.step i).id =
      if t.sys.core.ifReady i && t.sys.core.ifHs i then t.fetch i else t.id := by
    simp [Marked.step, hfl]
  rw [h.occ.loads] at hid
  rcases h.front with ⟨hw, hnone, hD⟩ | hf
  · rw [h.decided_of_none hnone i, hD]
    cases hfetch : t.sys.core.ifReadyAxi i with
    | false =>
      rw [hfetch] at hid
      exact .inl ⟨hw.step_quiet hfetch hfl, hid.trans hnone, rfl⟩
    | true =>
      have hnew : (t.step i).id = none := by
        rw [hid, hfetch]
        simp [Marked.fetch, System.delivers, hw.keep]
      rw [hnew]
      exact .inr (hw.step_fetch h.behind h.occ hfetch hfl)
  · have hreal : (t.step i).id.isSome =
        if t.sys.core.ifReadyAxi i then !t.sys.core.jumpNow else t.id.isSome := by
      rw [hid]
      cases hfetch : t.sys.core.ifReadyAxi i with
      | false => rfl
      | true =>
        rw [if_pos rfl, if_pos rfl, Marked.fetch, hf.delivers_eq h.behind hfetch]
        cases t.sys.core.jumpNow <;> rfl
    rw [hreal, h.decided_of_ahead i, goesOn_append]
    exact .inr (hf.step h.behind h.occ hfl)

/-- **One edge without a flush.** -/
theorem step (h : Restarted b t F D R) (hi : t.sys.Ok i) (hfl : t.sys.core.flush i = false) :
    Restarted b (t.step i) (F ++ t.fetched i) (D ++ t.decided i) (R ++ t.retired i) where
  occ := h.occ.step hi
  behind := h.behind.step h.occ hfl
  held := h.held.step h.occ hfl
  same := h.step_same hfl
  front := h.step_front hfl
  follows := h.step_follows i
  fetched_eq := by
    rw [h.fetched_eq, Marked.undecided, ← Marked.undecided_step h.occ hfl,
      List.append_assoc R (t.retired i), ← Marked.inFlight_step h.occ hfl]
    simp only [List.append_assoc]
  decided_eq := by
    rw [List.map_append, h.decided_eq, Marked.decided_fst, List.append_assoc R (t.retired i),
      ← Marked.inFlight_step h.occ hfl]
    simp only [List.map_append, List.append_assoc]

theorem behind_of_flush {y : System} (hfl : y.core.flush i = true) : Behind (y.step i) := by
  have hid := Occ.step_ifId_of_flush hfl
  have hzero : oRdid 0#32 = 0#5 ∧ oRdwen 0#32 = false ∧ oLsuLden 0#32 = false := by decide
  refine ⟨?_, ?_⟩
  · intro _
    rw [Occ.step_idEx_of_flush hfl, hid]
    exact ⟨rfl, rfl, hzero.1.symm, hzero.2.1.symm, hzero.2.2.symm⟩
  · intro _
    rw [Occ.step_exLs_of_flush hfl, hid]
    exact ⟨hzero.1.symm, hzero.2.1.symm⟩

theorem of_flush {y : System} (ho : Occ y) (hi : y.Ok i) (hfl : y.core.flush i = true) :
    Restarted (y.step i).core.bru.pc (Marked.start (y.step i)) [] [] [] where
  occ := ho.step hi
  behind := behind_of_flush hfl
  held := Marked.Held.of_flush hfl
  same _ := rfl
  front := by
    refine .inl ⟨⟨?_, rfl, ?_⟩, rfl, rfl⟩
    · exact Occ.step_keep_of_flush hfl
    · change (y.step i).core.ifId.data.ins = 0#32
      rw [Occ.step_ifId_of_flush hfl]
      rfl
  follows := trivial
  fetched_eq := by simp
  decided_eq := by simp

end Restarted

/-! ## Runs -/

theorem Marked.run_sys (t : Marked) (is : Nat → AxiIn) (n : Nat) :
    (run Marked.step t is n).sys = run System.step t.sys is n := by
  induction n with
  | zero => rfl
  | succ n ih =>
    rw [run_succ, run_succ, ← ih]
    rfl

section

variable {b : Word} {t : Marked} {is : Nat → AxiIn} {n : Nat} (h : Restarted b t [] [] [])
  (hok : Admits System.step System.Ok t.sys is n)
  (hno : Admits System.step (fun y i => y.core.flush i = false) t.sys is n)
include h hok hno

theorem restarted_run : ∀ k ≤ n, Restarted b (run Marked.step t is k)
    (trace Marked.step Marked.fetched t is k) (trace Marked.step Marked.decided t is k)
    (trace Marked.step Marked.retired t is k) := by
  intro k
  induction k with
  | zero => exact fun _ => h
  | succ k ih =>
    intro hk
    have hsys := t.run_sys is k
    exact (ih (by omega)).step (by rw [hsys]; exact hok k hk) (by rw [hsys]; exact hno k hk)

/-- From the fetch that is discarded on, reads are in order, as long as none of two beats is
disturbed. -/
theorem reads_run (hk : t.sys.core.csr.keep = true) : ∀ k ≤ n,
    (∀ j < k, (run System.step t.sys is j).core.csr.keep = false →
      (run System.step t.sys is j).splitRead (is j) = false) →
    (run System.step t.sys is k).core.csr.keep = false → Reads (run System.step t.sys is k) := by
  intro k
  induction k with
  | zero =>
    intro _ _ hlow
    rw [run_zero, hk] at hlow
    exact absurd hlow (by simp)
  | succ k ih =>
    intro hkn hsplit hlow
    have ho : Occ (run System.step t.sys is k) := by
      rw [← t.run_sys is k]
      exact (restarted_run h hok hno k (by omega)).occ
    have hi := hok k hkn
    rw [run_succ] at hlow ⊢
    cases hf : (run System.step t.sys is k).core.ifReadyAxi (is k) with
    | true => exact Reads.of_fetch ho hi hf
    | false =>
      obtain ⟨hlow', -⟩ := Occ.keep_of_step hlow hf
      exact (ih (by omega) (fun j hj => hsplit j (by omega)) hlow').step ho hi
        (hsplit k (Nat.lt_succ_self k) hlow')

end

/-- **After a flush**, in every run until the next one: the instructions decided in EX are in program
order from where `bru` went on the flush, what retires and what is in write-back and MEM are these,
in order and each one once, and all of them were fetched since. The other registers hold bubbles. The
word of an instruction is the one in memory at its pc, unless a read of two beats is disturbed. -/
theorem after_flush {y : System} {i : AxiIn} {is : Nat → AxiIn} {n : Nat} (hy : y.Reachable)
    (hi : y.Ok i) (hfl : y.core.flush i = true)
    (hok : Admits System.step System.Ok (y.step i) is n)
    (hno : Admits System.step (fun y i => y.core.flush i = false) (y.step i) is n) :
    let t₀ := Marked.start (y.step i)
    let t := run Marked.step t₀ is
    let decided := trace Marked.step Marked.decided t₀ is n
    let retired := trace Marked.step Marked.retired t₀ is n
    Follows (y.step i).core.bru.pc decided ∧
      decided.map Prod.fst = (retired ++ (t n).inFlight).map Prod.fst ∧
      trace Marked.step Marked.fetched t₀ is n =
        retired ++ (t n).inFlight ++ (t n).undecided ∧
      (t n).Held ∧
      ∀ k, k + 1 < n →
        (∀ j < k, (t j).sys.core.csr.keep = false → (t j).sys.splitRead (is j) = false) →
        ∀ x ∈ (t (k + 1)).fetched (is (k + 1)), x.2 = (t k).sys.slave.mem.code x.1 := by
  intro t₀ t decided retired
  have h₀ : Restarted (y.step i).core.bru.pc t₀ [] [] [] := .of_flush hy.occ hi hfl
  have hrun := restarted_run h₀ hok hno
  have h := hrun n le_rfl
  refine ⟨h.follows, h.decided_eq, h.fetched_eq, h.held, ?_⟩
  intro k hk hsplit x hx
  have hsys (j : Nat) : (t j).sys = run System.step (y.step i) is j := t₀.run_sys is j
  have hstep : (t (k + 1)).sys = (t k).sys.step (is k) := by rw [hsys, hsys, run_succ]
  have hlast : (t k).sys.Ok (is k) := by
    rw [hsys]
    exact hok k (by omega)
  have hnext : ((t k).sys.step (is k)).Ok (is (k + 1)) := by
    rw [← hstep, hsys]
    exact hok (k + 1) hk
  have ho : Occ (t k).sys := (hrun k (by omega)).occ
  obtain ⟨hf, hlow, rfl⟩ := Marked.of_mem_fetched hx
  rw [hstep] at hf hlow ⊢
  have hr : Reads (t k).sys := by
    have hkeep := ho.keep_of_fetch hlast hlow hf
    simp only [hsys] at hsplit hkeep ⊢
    exact reads_run h₀ hok hno (Occ.step_keep_of_flush hfl) k (by omega) hsplit hkeep
  exact hr.fetch_delivered ho hlast hnext hlow hf

/-- `csrrw x0, mepc, x1` and `mret` to 0x8000000e, where `addi x5, x0, 1` lies in two bus words. -/
def returnProgram : System :=
  System.boot true (fun r => if r = 1#5 then 0x8000000e#64 else 0#64) 0#4 0#4
    (Mem.image [0x3020007334109073#64, 0x293000000000000#64, 0x1300000010#64, 0x1300000013#64])

theorem after_flush_mret :
    let y := System.driven returnProgram slowReads 28
    let i := y.slave.drive (slowReads 28)
    let is := System.inputs (y.step i) fun k => slowReads (k + 29)
    let t := run Marked.step (.start (y.step i)) is
    trace Marked.step Marked.retired (.start (y.step i)) is 28 = [(0x8000000e#64, 0x100293#32)] ∧
    Follows (y.step i).core.bru.pc (trace Marked.step Marked.decided (.start (y.step i)) is 28) ∧
      ∀ x ∈ (t 19).fetched (is 19), x.2 = (t 18).sys.slave.mem.code x.1 := by
  intro y i is t
  have hy : y.Reachable := System.reachable_driven (System.afterReset_boot _ _ _ _ _) _ _
  have hi : y.Ok i := Slave.drives_drive _ _
  have hfl : y.core.flush i = true := by decide +kernel
  have hok : Admits System.step System.Ok (y.step i) is 28 := System.admits_inputs _ _ _
  have hno : Admits System.step (fun y i => y.core.flush i = false) (y.step i) is 28 := by
    unfold Admits
    decide +kernel
  exact ⟨by decide +kernel, (after_flush hy hi hfl hok hno).imp_right fun h =>
    h.2.2.2 18 (by decide) (by decide +kernel)⟩

/-- `sd x0, 0x100(x0)` twice, `csrrw x0, mepc, x1` and `mret` to 0x80000016, where `addi x5, x0, 1`
lies in two bus words. -/
def abandonProgram : System :=
  System.boot true (fun r => if r = 1#5 then 0x80000016#64 else 0#64) 0#4 0#4
    (Mem.image [0x1000302310003023#64, 0x3020007334109073#64, 0x293000000000000#64,
      0x1300000010#64, 0x1300000013#64])

/-- A slave that lets the second store leave MEM with its data unsent, and takes the data when the
target of `mret` is read. -/
def dataInTarget : Nat → Slave.Timing := fun k =>
  ⟨true, k % 8 == 7 && k != 23 || decide (33 ≤ k) && decide (k < 36) && k != 35 || decide (53 ≤ k),
    true, decide (k < 33) || decide (55 ≤ k), true⟩

/-- The first instruction behind the `mret` is not the word in memory. -/
theorem after_flush_fails :
    let c := System.driven abandonProgram dataInTarget
    let i := (c 52).slave.drive (dataInTarget 52)
    let is := System.inputs (c 53) fun k => dataInTarget (k + 53)
    (c 52).Reachable ∧ (c 52).Ok i ∧ (c 52).core.flush i = true ∧
      (c 53).core.bru.pc = 0x80000016#64 ∧
      Admits System.step (fun y i => y.core.flush i = false) (c 53) is 13 ∧
      trace Marked.step Marked.retired (.start (c 53)) is 13 = [(0x80000016#64, 0x100000#32)] ∧
      (∀ k < 13, (run System.step (c 53) is k).slave.mem.code 0x80000016#64 = 0x100293#32) ∧
      (c 66).core.rf.read 5#5 = 0#64 :=
  ⟨System.reachable_driven (System.afterReset_boot _ _ _ _ _) _ _, Slave.drives_drive _ _,
    by decide +kernel, by decide +kernel, by unfold Admits; decide +kernel, by decide +kernel,
    by decide +kernel, by decide +kernel⟩

end Oscpu.Axi
