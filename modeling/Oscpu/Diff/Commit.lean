import Oscpu.Diff.Flow

/-!
# What `cpu_diff` reports to difftest

`SimTop` has no valid bit for a commit: a pc is carried down the pipeline, 0 stands for the slot of a
jump, 1 for the bubble behind a load, and the reset value of the pc is meant to stand for a word
fetched before the first instruction. But the pc starts two words below `PC_START`, and `inst_valid`
compares with `PC_START`: the boot words are reported, and the first instruction is not.
-/

namespace Oscpu.Diff

open Oscpu.Rtl Oscpu.Lib

/-! ## The block behind the pipeline -/

/-- The registers that feed difftest. -/
structure Difftest where
  cmtWen : Bool
  cmtWdest : BitVec 8
  cmtWdata : Word
  cmtPc : Word
  cmtInst : Ins
  cmtValid : Bool
  trap : Bool
  trapCode : BitVec 8
  cycleCnt : Word
  instrCnt : Word
  regsDiff : RegId → Word

/-- `inst_valid`, of `s_wbu_diffpc`. -/
def instValid (diffpc : Word) : Bool := diffpc != PC_START && diffpc != 0#64 && diffpc != 1#64

/-- `o_regs` of `regfile`: the registers behind the write of this cycle. -/
def Core.oRegs (s : Core) : RegId → Word :=
  (s.rf.write s.lsWb.data.rdwen s.lsWb.data.rdid s.wbuRd).read

namespace Difftest

variable (d : Difftest)

/-- The falling edge of `clock`. -/
def step (reset : Bool) (s : Core) : Difftest :=
  let w := s.lsWb.data
  if reset then
    { d with
      cmtWen := false, cmtWdest := 0#8, cmtWdata := 0#64, cmtPc := 0#64, cmtInst := 0#32,
      cmtValid := false, trap := false, trapCode := 0#8, cycleCnt := 0#64, instrCnt := 0#64 }
  else if !d.trap then
    { cmtWen := w.rdwen
      cmtWdest := 0#3 ++ w.rdid
      cmtWdata := s.wbuRd
      cmtPc := w.diffpc
      cmtInst := w.ins
      cmtValid := instValid w.diffpc
      trap := w.ins.extractLsb' 0 7 == 0x6b#7
      trapCode := (s.oRegs 10#5).extractLsb' 0 8
      cycleCnt := d.cycleCnt + 1#64
      instrCnt := d.instrCnt + (BitVec.ofBool (instValid w.diffpc)).zeroExtend 64
      regsDiff := s.oRegs }
  else d

@[simp] theorem step_cmtPc (s : Core) (h : d.trap = false) :
    (d.step false s).cmtPc = s.lsWb.data.diffpc := by simp [step, h]

@[simp] theorem step_cmtInst (s : Core) (h : d.trap = false) :
    (d.step false s).cmtInst = s.lsWb.data.ins := by simp [step, h]

@[simp] theorem step_cmtValid (s : Core) (h : d.trap = false) :
    (d.step false s).cmtValid = instValid s.lsWb.data.diffpc := by simp [step, h]

theorem step_trap (s : Core) : (d.step false s).trap =
    (d.trap || s.lsWb.data.ins.extractLsb' 0 7 == 0x6b#7) := by
  cases h : d.trap <;> simp [step, h]

end Difftest

/-! ## What is in the pipeline -/

/-- What a pipeline register holds, with the pc and the word it was fetched with. -/
structure Item where
  kind : Kind
  pc : Word
  ins : Ins

/-- How an item is coded in `s_*_diffpc` and `s_*_diffins`. -/
def Item.Code (x : Item) (diffpc : Word) (ins : Ins) : Prop :=
  match x.kind with
  | .empty => diffpc = 0#64 ∧ ins = 0#32
  | .squash => diffpc = 0#64
  | .bubble => diffpc = 1#64
  | .boot | .fetched => diffpc = x.pc ∧ ins = x.ins

/-- The item as an instruction, if it is one. -/
def Item.instr (x : Item) : List (Word × Ins) := if x.kind = .fetched then [(x.pc, x.ins)] else []

/-- The code tells this item apart: its pc is none of the three that stand for something else, or
it is a boot word and its pc is one of them. -/
def Item.Told (x : Item) : Prop :=
  (x.kind = .fetched → instValid x.pc = true) ∧ (x.kind = .boot → instValid x.pc = false)

/-- What is reported of an item is the item itself just when the code tells it apart. -/
theorem Item.Code.report_iff {x : Item} {diffpc : Word} {ins : Ins} (h : x.Code diffpc ins) :
    (if instValid diffpc then [(diffpc, ins)] else []) = x.instr ↔ x.Told := by
  unfold Item.Code at h
  unfold Item.instr Item.Told
  cases hk : x.kind <;> simp only [hk] at h
  case empty => simp [h.1, instValid]
  case squash => simp [h, instValid]
  case bubble => simp [h, instValid]
  case boot => simp [h.1]
  case fetched => simp [h.1, h.2]

/-- `SimTop`: the pipeline, what its registers hold, and the block behind it. -/
structure Report where
  front : Front
  ex : Item
  mem : Item
  wb : Item
  dt : Difftest

namespace Report

variable (r : Report)

/-- After reset; the block has seen an edge of its own under reset. -/
def start (released : Bool) (rf : Regs) (ram : Ram) (regldQ wdataQ : Word) (d : Difftest) :
    Report where
  front := .start released rf ram regldQ wdataQ
  ex := ⟨.empty, 0#64, 0#32⟩
  mem := ⟨.empty, 0#64, 0#32⟩
  wb := ⟨.empty, 0#64, 0#32⟩
  dt := d.step true (Core.afterReset rf ram regldQ wdataQ)

/-- The item in IF/ID. -/
def id : Item := ⟨r.front.kind, r.front.core.ifId.data.pc, r.front.core.ifId.data.ins⟩

/-- A rising edge of `clock` and the falling edge after it. The items move with the write enables of
the registers they are in. -/
def step (_ : Unit) : Report :=
  let c := r.front.core
  let front := r.front.step ()
  { front := front
    ex :=
      if c.ifId.valid && c.idReady then
        if c.idexBubble then { r.id with kind := .bubble } else r.id
      else r.ex
    mem := if c.exeReady then r.ex else r.mem
    wb := if c.exLs.valid && c.memReady then r.mem else r.wb
    dt := r.dt.step false front.core }

/-- The commit that difftest is told of after the edges, until a trap. -/
def commits (_ : Unit) : List (Word × Ins) :=
  let d := (r.step ()).dt
  if !r.dt.trap && d.cmtValid then [(d.cmtPc, d.cmtInst)] else []

/-- The instruction that is in write-back then. -/
def arrived (_ : Unit) : List (Word × Ins) :=
  if r.dt.trap then [] else (r.step ()).wb.instr

/-- The instructions in MEM and EX. -/
def inFlight : List (Word × Ins) := r.mem.instr ++ r.ex.instr

end Report

/-! ## The code of every item -/

/-- Nothing is in the pipeline and no load is in EX, or the first edge is over. -/
def Report.Fresh (r : Report) : Prop :=
  r.ex = ⟨.empty, 0#64, 0#32⟩ ∧ r.mem = ⟨.empty, 0#64, 0#32⟩ ∧ r.wb = ⟨.empty, 0#64, 0#32⟩ ∧
    r.front.core.idEx.data.lden = false

/-- Every register holds the code of its item. -/
structure Coded (r : Report) : Prop where
  id : r.front.core.ifId.valid = true →
    r.id.Code r.front.core.ifId.data.diffpc r.front.core.ifId.data.ins
  ex : r.ex.Code r.front.core.idEx.data.diffpc r.front.core.idEx.data.ins
  mem : r.mem.Code r.front.core.exLs.data.diffpc r.front.core.exLs.data.ins
  wb : r.wb.Code r.front.core.lsWb.data.diffpc r.front.core.lsWb.data.ins
  moving : r.front.core.ifId.valid = true ∧ r.front.core.exLs.valid = true ∨ r.Fresh

namespace Coded

variable {r : Report}

theorem not_stalled (h : Coded r) (hv : r.front.core.ifId.valid = false) :
    r.front.core.idexBubble = false := by
  rcases h.moving with ⟨hv', -⟩ | ⟨-, -, -, hld⟩
  · rw [hv] at hv'
    exact absurd hv' Bool.false_ne_true
  · simp [Core.idexBubble, hld]

theorem step_id (h : Coded r) : (r.step ()).id.Code (r.step ()).front.core.ifId.data.diffpc
    (r.step ()).front.core.ifId.data.ins := by
  have hdata : (r.step ()).front.core.ifId.data =
      if r.front.core.idexBubble then r.front.core.ifId.data else r.front.core.toIfId := by
    simp [Report.step, Front.step, Core.step_false]
  have hkind : (r.step ()).front.kind = r.front.nextKind := rfl
  unfold Item.Code Report.id
  rw [hdata, hkind, Front.nextKind, Core.loads_eq]
  cases hs : r.front.core.idexBubble with
  | true =>
    apply h.id
    by_contra hv
    rw [h.not_stalled (Bool.eq_false_iff.2 hv)] at hs
    exact Bool.false_ne_true hs
  | false =>
    cases hj : r.front.core.ifidBubble with
    | true => simp [Core.toIfId, hj]
    | false => cases hr : r.front.reached <;> simp [Core.toIfId, hj]

theorem step_ex (h : Coded r) : (r.step ()).ex.Code (r.step ()).front.core.idEx.data.diffpc
    (r.step ()).front.core.idEx.data.ins := by
  have hdata : (r.step ()).front.core.idEx.data =
      if r.front.core.ifId.valid then r.front.core.toIdEx else r.front.core.idEx.data := by
    simp [Report.step, Front.step, Core.step_false]
  rw [hdata, Report.step, Core.idReady_eq, Bool.and_true]
  cases hv : r.front.core.ifId.valid with
  | false => exact h.ex
  | true =>
    cases hs : r.front.core.idexBubble with
    | true => simp [Item.Code, Core.toIdEx, hs]
    | false => simpa [Core.toIdEx, hs] using h.id hv

theorem step_mem (h : Coded r) : (r.step ()).mem.Code (r.step ()).front.core.exLs.data.diffpc
    (r.step ()).front.core.exLs.data.ins := by
  have hdata : (r.step ()).front.core.exLs.data = r.front.core.toExLs := by
    simp [Report.step, Front.step, Core.step_false]
  rw [hdata, Report.step, Core.exeReady_eq]
  exact h.ex

theorem step_wb (h : Coded r) : (r.step ()).wb.Code (r.step ()).front.core.lsWb.data.diffpc
    (r.step ()).front.core.lsWb.data.ins := by
  have hdata : (r.step ()).front.core.lsWb.data =
      if r.front.core.exLs.valid then r.front.core.toLsWb else r.front.core.lsWb.data := by
    simp [Report.step, Front.step, Core.step_false]
  rw [hdata, Report.step, Core.memReady_eq, Bool.and_true]
  cases hv : r.front.core.exLs.valid with
  | false => exact h.wb
  | true => exact h.mem

theorem step_moving (r : Report) : (r.step ()).front.core.ifId.valid = true ∧
    (r.step ()).front.core.exLs.valid = true := by
  simp [Report.step, Front.step, Core.step_false]

theorem step (h : Coded r) : Coded (r.step ()) :=
  ⟨fun _ => h.step_id, h.step_ex, h.step_mem, h.step_wb, .inl (step_moving r)⟩

theorem start (released : Bool) (rf : Regs) (ram : Ram) (regldQ wdataQ : Word) (d : Difftest) :
    Coded (Report.start released rf ram regldQ wdataQ d) := by
  refine ⟨?_, ?_, ?_, ?_, .inr ⟨rfl, rfl, rfl, ?_⟩⟩
  · intro hv
    cases released <;> exact absurd hv Bool.false_ne_true
  · cases released <;> exact ⟨rfl, rfl⟩
  · cases released <;> exact ⟨rfl, rfl⟩
  · cases released <;> exact ⟨rfl, rfl⟩
  · cases released <;> rfl

/-- What is reported in a cycle is the instruction in write-back just when the code tells it. -/
theorem commits_iff (h : Coded r) :
    r.commits () = r.arrived () ↔ (r.dt.trap = false → (r.step ()).wb.Told) := by
  have hdt : (r.step ()).dt = r.dt.step false (r.step ()).front.core := rfl
  unfold Report.commits Report.arrived
  cases ht : r.dt.trap with
  | true => simp
  | false =>
    rw [hdt]
    simpa [ht] using h.step_wb.report_iff

theorem step_ex_instr (h : Coded r) :
    (r.front.passed ()).map (fun p => (p.pc, p.ins)) = (r.step ()).ex.instr := by
  have hex : (r.step ()).ex = if r.front.core.ifId.valid then
      if r.front.core.idexBubble then { r.id with kind := .bubble } else r.id else r.ex := by
    simp [Report.step]
  rw [hex]
  cases hv : r.front.core.ifId.valid with
  | false =>
    rcases h.moving with ⟨hv', -⟩ | ⟨hempty, -⟩
    · rw [hv] at hv'
      exact absurd hv' Bool.false_ne_true
    · simp [Front.passed, Core.enters_eq, hv, hempty, Item.instr]
  | true =>
    cases hs : r.front.core.idexBubble with
    | true => simp [Front.passed, Core.enters_eq, hs, Item.instr]
    | false =>
      by_cases hk : r.front.kind = .fetched
      · simp [Front.passed, Core.enters_eq, hv, hs, hk, Item.instr, Report.id]
      · simp [Front.passed, hk, Item.instr, Report.id]

theorem step_wb_instr (h : Coded r) : (r.step ()).wb.instr = r.mem.instr := by
  have hwb : (r.step ()).wb = if r.front.core.exLs.valid then r.mem else r.wb := by
    simp [Report.step]
  rw [hwb]
  cases hv : r.front.core.exLs.valid with
  | true => rfl
  | false =>
    rcases h.moving with ⟨-, hv'⟩ | ⟨-, hmem, hwb, -⟩
    · rw [hv] at hv'
      exact absurd hv' Bool.false_ne_true
    · rw [hmem, hwb]
      rfl

theorem inFlight_step (h : Coded r) :
    r.inFlight ++ (r.front.passed ()).map (fun p => (p.pc, p.ins)) =
      (r.step ()).wb.instr ++ (r.step ()).inFlight := by
  have hmem : (r.step ()).mem = r.ex := by simp [Report.step]
  rw [Report.inFlight, Report.inFlight, h.step_ex_instr, h.step_wb_instr, hmem, List.append_assoc]

end Coded

theorem instValid_of_commit {r : Report} {p : Word × Ins} (h : p ∈ r.commits ()) :
    instValid p.1 = true := by
  have hdt : (r.step ()).dt = r.dt.step false (r.step ()).front.core := rfl
  unfold Report.commits at h
  cases ht : r.dt.trap with
  | true => simp [ht] at h
  | false =>
    rw [hdt] at h
    simp only [ht, Bool.not_false, Bool.true_and, Difftest.step_cmtValid, Difftest.step_cmtPc,
      Difftest.step_cmtInst, List.mem_ite_nil_right, List.mem_singleton] at h
    rw [h.2]
    exact h.1

/-! ## Runs -/

section

variable {r : Report}

theorem run_front (r : Report) (n : Nat) :
    (run Report.step r (fun _ => ()) n).front = run Front.step r.front (fun _ => ()) n := by
  induction n with
  | zero => rfl
  | succ n ih =>
    rw [run_succ, run_succ, ← ih]
    rfl

theorem Coded.run (h : Coded r) (n : Nat) : Coded (run Report.step r (fun _ => ()) n) := by
  induction n with
  | zero => exact h
  | succ n ih => exact ih.step

/-- Up to a trap, what has arrived in write-back and what is in flight is what has passed into EX. -/
theorem arrived_run (h : Coded r) (hempty : r.inFlight = []) (n : Nat) :
    ∃ rest, (trace Front.step Front.passed r.front (fun _ => ()) n).map (fun p => (p.pc, p.ins)) =
        trace Report.step Report.arrived r (fun _ => ()) n ++ rest ∧
      ((run Report.step r (fun _ => ()) n).dt.trap = false →
        rest = (run Report.step r (fun _ => ()) n).inFlight) := by
  induction n with
  | zero => exact ⟨[], rfl, fun _ => hempty.symm⟩
  | succ n ih =>
    obtain ⟨rest, hlist, hrest⟩ := ih
    have hstep := (h.run n).inFlight_step
    rw [trace_succ, trace_succ, run_succ, List.map_append, hlist, ← run_front]
    generalize run Report.step r (fun _ => ()) n = c at hrest hstep ⊢
    cases ht : c.dt.trap with
    | true =>
      refine ⟨rest ++ (c.front.passed ()).map fun p => (p.pc, p.ins), ?_, ?_⟩
      · rw [Report.arrived, ht, if_pos rfl, List.append_nil, List.append_assoc]
      · intro ht'
        have hdt : (c.step ()).dt.trap = _ := Difftest.step_trap c.dt _
        rw [ht', ht, Bool.true_or] at hdt
        exact absurd hdt Bool.false_ne_true
    | false =>
      refine ⟨(c.step ()).inFlight, ?_, fun _ => rfl⟩
      rw [hrest ht, List.append_assoc, hstep, Report.arrived, ht, if_neg Bool.false_ne_true,
        List.append_assoc]

end

/-! ## Start-up -/

section

variable {r : Report}

theorem step_items (hid : r.front.core.ifId.valid = true) (hmem : r.front.core.exLs.valid = true)
    (hs : r.front.core.idexBubble = false) :
    (r.step ()).ex = r.id ∧ (r.step ()).mem = r.ex ∧ (r.step ()).wb = r.mem := by
  simp [Report.step, hid, hmem, hs]

/-- The first edge fetches a boot word, and nothing is behind it. -/
theorem start_step (released : Bool) (rf : Regs) (ram : Ram) (regldQ wdataQ : Word) (d : Difftest)
    (hz : released = true → BootZero ram) :
    let r := (Report.start released rf ram regldQ wdataQ d).step ()
    r.Fresh ∧ r.id.kind = .boot ∧ instValid r.id.pc = true := by
  intro r
  have hb : Booting rf ram (Front.start released rf ram regldQ wdataQ) :=
    Booting.start released rf ram regldQ wdataQ hz
  have hv : (Core.start released rf ram regldQ wdataQ).ifId.valid = false ∧
      (Core.start released rf ram regldQ wdataQ).exLs.valid = false ∧
        (Core.start released rf ram regldQ wdataQ).idEx.data = IdEx.zero := by
    cases released <;> exact ⟨rfl, rfl, rfl⟩
  have hpc : r.id.pc = (Core.start released rf ram regldQ wdataQ).pc := by
    have hbub := hb.boot.bubble
    simp only [Front.start] at hbub
    simp [r, Report.id, Report.step, Report.start, Front.start, Front.step, Core.step_false, hbub,
      Core.toIfId]
  refine ⟨⟨?_, ?_, ?_, ?_⟩, hb.nextKind, ?_⟩
  · simp [r, Report.step, Report.start, Front.start, hv]
  · simp [r, Report.step, Report.start]
  · simp [r, Report.step, Report.start, Front.start, hv]
  · simp [r, Report.step, Report.start, Front.start, Front.step, Core.step_false, hv, IdEx.zero]
  · rw [hpc]
    rcases hb.boot.pc with hp | hp
    · change instValid (Front.start released rf ram regldQ wdataQ).core.pc = true
      rw [hp]
      decide
    · change instValid (Front.start released rf ram regldQ wdataQ).core.pc = true
      rw [hp]
      decide

theorem trap_of_empty (h : Coded r) (ht : r.dt.trap = false)
    (hw : (r.step ()).wb = ⟨.empty, 0#64, 0#32⟩) : (r.step ()).dt.trap = false := by
  have hcode := h.step_wb
  rw [hw] at hcode
  have hdt : (r.step ()).dt.trap = (r.dt.trap || (r.step ()).front.core.lsWb.data.ins.extractLsb' 0 7
    == 0x6b#7) := Difftest.step_trap r.dt _
  rw [hdt, ht, hcode.2]
  decide

end

/-- The first three edges leave write-back empty, and the fourth brings a boot word there. -/
theorem start_run (released : Bool) (rf : Regs) (ram : Ram) (regldQ wdataQ : Word) (d : Difftest)
    (hz : released = true → BootZero ram) :
    let c := run Report.step (Report.start released rf ram regldQ wdataQ d) (fun _ => ())
    (∀ k < 3, (c (k + 1)).wb = ⟨.empty, 0#64, 0#32⟩) ∧ (c 3).dt.trap = false ∧
      (c 4).wb.kind = .boot ∧ instValid (c 4).wb.pc = true := by
  intro c
  have hc (k : Nat) : Coded (c k) := (Coded.start released rf ram regldQ wdataQ d).run k
  have hmove (k : Nat) : (c (k + 1)).front.core.ifId.valid = true ∧
      (c (k + 1)).front.core.exLs.valid = true := Coded.step_moving (c k)
  have hwb (k : Nat) : (c (k + 2)).wb = (c (k + 1)).mem := by
    change ((c (k + 1)).step ()).wb = _
    simp [Report.step, (hmove k).2]
  have hmem (k : Nat) : (c (k + 1)).mem = (c k).ex := by
    change ((c k).step ()).mem = _
    simp [Report.step]
  obtain ⟨⟨hex1, hmem1, hwb1, hld⟩, hkind, hvalid⟩ :=
    start_step released rf ram regldQ wdataQ d hz
  have hex2 : (c 2).ex = (c 1).id := by
    have hs : (c 1).front.core.idexBubble = false := by
      have hld1 : (c 1).front.core.idEx.data.lden = false := hld
      simp [Core.idexBubble, hld1]
    exact (step_items (hmove 0).1 (hmove 0).2 hs).1
  have hwb2 : (c 2).wb = ⟨.empty, 0#64, 0#32⟩ := (hwb 0).trans hmem1
  have hwb3 : (c 3).wb = ⟨.empty, 0#64, 0#32⟩ := (hwb 1).trans ((hmem 1).trans hex1)
  have hwb4 : (c 4).wb = (c 1).id := (hwb 2).trans ((hmem 2).trans hex2)
  have ht1 : (c 1).dt.trap = false := trap_of_empty (hc 0) rfl hwb1
  have ht2 : (c 2).dt.trap = false := trap_of_empty (hc 1) ht1 hwb2
  refine ⟨?_, trap_of_empty (hc 2) ht2 hwb3, ?_, ?_⟩
  · intro k hk
    rcases (by omega : k = 0 ∨ k = 1 ∨ k = 2) with rfl | rfl | rfl
    · exact hwb1
    · exact hwb2
    · exact hwb3
  · rw [hwb4]
    exact hkind
  · rw [hwb4]
    exact hvalid

/-! ## What is reported -/

/-- **Commits.** What arrives in write-back up to a trap is the beginning of what has passed into EX,
in order. A cycle reports what arrives just when the pc tells the slot apart, and the instruction at
`PC_START` is never reported. From the fourth edge after reset on, the report is wrong: that edge
brings a boot word to write-back, and the block reports it. -/
theorem reports_iff (released : Bool) (rf : Regs) (ram : Ram) (regldQ wdataQ : Word) (d : Difftest)
    (n : Nat) :
    let r := Report.start released rf ram regldQ wdataQ d
    let c := run Report.step r (fun _ => ())
    trace Report.step Report.arrived r (fun _ => ()) n <+:
        (trace Front.step Front.passed r.front (fun _ => ()) n).map (fun p => (p.pc, p.ins)) ∧
      (∀ p ∈ trace Report.step Report.commits r (fun _ => ()) n, p.1 ≠ PC_START) ∧
      ((∀ k < n, (c k).commits () = (c k).arrived ()) ↔
        ∀ k < n, (c k).dt.trap = false → (c (k + 1)).wb.Told) ∧
      ((released = true → BootZero ram) →
        ((∀ k < n, (c k).commits () = (c k).arrived ()) ↔ n ≤ 3)) := by
  intro r c
  have hr : Coded r := Coded.start released rf ram regldQ wdataQ d
  have hiff : (∀ k < n, (c k).commits () = (c k).arrived ()) ↔
      ∀ k < n, (c k).dt.trap = false → (c (k + 1)).wb.Told :=
    forall₂_congr fun k _ => (hr.run k).commits_iff
  refine ⟨?_, ?_, hiff, ?_⟩
  · obtain ⟨rest, hlist, -⟩ := arrived_run hr rfl n
    exact ⟨rest, hlist.symm⟩
  · intro p hp heq
    obtain ⟨k, -, hk⟩ := mem_history hp
    have hvalid := instValid_of_commit hk
    rw [heq] at hvalid
    exact absurd hvalid (by decide)
  · intro hz
    obtain ⟨hempty, htrap, hkind, hvalid⟩ := start_run released rf ram regldQ wdataQ d hz
    rw [hiff]
    constructor
    · intro htold
      by_contra hn
      have hboot := (htold 3 (by omega) htrap).2 hkind
      rw [hvalid] at hboot
      exact absurd hboot (by simp)
    · intro hn k hk _
      have hwb : (c (k + 1)).wb = ⟨.empty, 0#64, 0#32⟩ := hempty k (by omega)
      rw [hwb]
      refine ⟨?_, ?_⟩
      · intro hk'
        cases hk'
      · intro hk'
        cases hk'

/-- The registers of the block, all zero. -/
def Difftest.zero : Difftest :=
  ⟨false, 0#8, 0#64, 0#64, 0#32, false, false, 0#8, 0#64, 0#64, fun _ => 0#64⟩

/-- In the fourth cycle a word from below `PC_START` is reported. -/
theorem reports_iff_stale :
    let r := Report.start true (fun _ => 0#64) staleRam 0#64 0#64 Difftest.zero
    let c := run Report.step r (fun _ => ())
    (∀ k < 3, (c k).commits () = (c k).arrived ()) ∧
      ¬ ∀ k < 4, (c k).commits () = (c k).arrived () := by
  intro r c
  have hiff (n : Nat) : (∀ k < n, (c k).commits () = (c k).arrived ()) ↔ n ≤ 3 :=
    (reports_iff true _ staleRam _ _ _ n).2.2.2 fun _ => by unfold BootZero; decide +kernel
  exact ⟨(hiff 3).2 le_rfl, fun h => absurd ((hiff 4).1 h) (by decide)⟩

/-- Two words from below `PC_START` are reported, and `auipc x6, 0` at `PC_START` is not. -/
theorem reports_iff_fails :
    let r := Report.start false (fun _ => 0#64) staleRam 0#64 0#64 Difftest.zero
    BootZero staleRam ∧ (run Report.step r (fun _ => ()) 9).dt.trap = false ∧
      trace Report.step Report.commits r (fun _ => ()) 9 =
        [(0x7ffffff8#64, 0#32), (0x7ffffffc#64, 0#32), (0x80000004#64, 0x10033283#32),
          (0x80000008#64, 0x28463#32)] ∧
      trace Report.step Report.arrived r (fun _ => ()) 9 =
        [(0x80000000#64, 0x317#32), (0x80000004#64, 0x10033283#32),
          (0x80000008#64, 0x28463#32)] :=
  ⟨by unfold BootZero; decide +kernel, by decide +kernel, by decide +kernel, by decide +kernel⟩

end Oscpu.Diff
