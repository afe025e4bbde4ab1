import Oscpu.Diff.Runs
import Mathlib.Data.List.Chain

/-!
# Control flow of `cpu_diff`

`bru` resolves a jump in ID, where the same cycle may also stall IF/ID for a load. `Front` is the
pipeline with a note of what IF/ID holds: nothing of the design reads it, and it tells an instruction
from the no-operation that a jump leaves and from the words fetched before `PC_START`. Whatever the
program does, the instructions that pass into EX follow each other as `bru` decides, and all of them
are the words fetched, less the one behind each taken jump. ID/EX holds each of them for one cycle,
decoded, and in every other cycle what neither writes a register nor accesses the memory.
-/

namespace Oscpu.Diff

open Oscpu.Rtl Oscpu.Lib

/-! ## What the front end does in a cycle -/

/-- What a pipeline register holds. -/
inductive Kind
  | empty
  /-- A word fetched before the first instruction. -/
  | boot
  /-- The no-operation in the place of a word fetched behind a jump. -/
  | squash
  /-- The bubble in EX behind a load. -/
  | bubble
  /-- An instruction. -/
  | fetched
deriving DecidableEq

/-- An instruction that passes from ID into EX, and what `bru` decides in that cycle. -/
structure Passed where
  pc : Word
  ins : Ins
  jump : Bool
  target : Word

/-- Where `bru` goes on. -/
def Passed.next (p : Passed) : Word := if p.jump then p.target else p.pc + 4#64

/-- ID/EX holds the instruction, decoded. -/
structure IdEx.Carries (e : IdEx) (p : Passed) : Prop where
  pc : e.pc = p.pc
  ins : e.ins = p.ins
  imm : e.imm = oImm p.ins
  rdid : e.rdid = oRdid p.ins
  rdwen : e.rdwen = oRdwen p.ins
  srcSel : e.srcSel = iduSrcSel p.ins
  exopt : e.exopt = iduExopt p.ins
  func3 : e.func3 = Rtl.func3 p.ins
  lden : e.lden = oLsuLden p.ins
  sten : e.sten = oLsuSten p.ins

/-- What ID/EX holds writes no register and accesses no memory. -/
structure IdEx.Inert (e : IdEx) : Prop where
  rdwen : e.rdwen = false
  lden : e.lden = false
  sten : e.sten = false

namespace Core

variable (s : Core)

/-- The write enable of the data of `pipe_if_id`. -/
def loads : Bool := !s.idexBubble && s.ifReady

/-- The write enable of the data of `pipe_id_ex`, when it is not a bubble that is written. -/
def enters : Bool := s.ifId.valid && s.idReady && !s.idexBubble

theorem loads_eq : s.loads = !s.idexBubble := by simp [loads]

theorem enters_eq : s.enters = (s.ifId.valid && !s.idexBubble) := by simp [enters]

end Core

/-- The pipeline, with what IF/ID holds. -/
structure Front where
  core : Core
  /-- The word at `PC_START` has been fetched. -/
  started : Bool
  kind : Kind

namespace Front

variable (f : Front)

/-- The state at the first edge without reset. -/
def start (released : Bool) (rf : Regs) (ram : Ram) (regldQ wdataQ : Word) : Front :=
  ⟨Core.start released rf ram regldQ wdataQ, false, .empty⟩

/-- The fetch of this cycle is the first one at `PC_START` or comes after it. -/
def reached : Bool := f.started || f.core.pc == PC_START

def nextKind : Kind :=
  if !f.core.loads then f.kind
  else if f.core.ifidBubble then .squash
  else if f.reached then .fetched
  else .boot

def step (_ : Unit) : Front where
  core := f.core.step false
  started := f.started || f.core.loads && f.core.pc == PC_START
  kind := f.nextKind

/-- The instruction that passes into EX. -/
def passed (_ : Unit) : List Passed :=
  let d := f.core.ifId.data
  if f.kind = .fetched && f.core.enters then
    [⟨d.pc, d.ins, f.core.ifidBubble, jumpPc d.ins d.pc f.core.iduRs1⟩]
  else []

/-- The word that IF/ID takes over from `ifu`, with its pc. -/
def taken (_ : Unit) : List (Word × Ins) :=
  if f.reached && f.core.loads && !f.core.ifidBubble then [(f.core.pc, ifu f.core.ram f.core.pc)]
  else []

/-- The pc of the word from `ifu` in the place of which IF/ID takes over a no-operation. -/
def dropped (_ : Unit) : List Word :=
  if f.reached && f.core.loads && f.core.ifidBubble then [f.core.pc] else []

/-- The instruction in IF/ID, with its pc. -/
def waiting : List (Word × Ins) :=
  if f.kind = .fetched then [(f.core.ifId.data.pc, f.core.ifId.data.ins)] else []

end Front

/-! ## Program order -/

/-- The first instruction is the one at `PC_START`, and each other one is where `bru` went on. -/
def Linked (ps : List Passed) : Prop :=
  (∀ p ∈ ps.head?, p.pc = PC_START) ∧ ps.IsChain fun p q => q.pc = p.next

/-- Where `bru` goes on behind the last instruction. -/
def due (ps : List Passed) : Word := (ps.getLast?.map Passed.next).getD PC_START

theorem due_append (ps : List Passed) (p : Passed) : due (ps ++ [p]) = p.next := by simp [due]

theorem Linked.append {ps : List Passed} {p : Passed} (h : Linked ps) (hp : p.pc = due ps) :
    Linked (ps ++ [p]) := by
  refine ⟨?_, List.isChain_append.2 ⟨h.2, List.isChain_singleton p, ?_⟩⟩
  · cases ps with
    | nil => simpa [due] using hp
    | cons q qs => exact h.1
  · intro q hq r hr
    rw [Option.mem_def] at hq hr
    rw [List.head?_cons, Option.some_inj] at hr
    rw [← hr, hp, due, hq]
    rfl

/-! ## Stalls -/

namespace Core

variable {s : Core}

/-- A stalled cycle leaves the pc and IF/ID as they are, whatever `jump` is. -/
theorem step_of_stall (h : s.idexBubble = true) (hv : s.ifId.valid = true) :
    (s.step false).pc = s.pc ∧ (s.step false).ifId = s.ifId := by
  constructor
  · simp [step_false, h]
  · have hid : (s.step false).ifId = ⟨true, if s.idexBubble then s.ifId.data else s.toIfId⟩ := by
      rw [step_false]
    rw [hid, if_pos h, ← hv]

theorem step_bubble_of_stall (h : s.idexBubble = true) (hv : s.ifId.valid = true) :
    (s.step false).idexBubble = false := by
  have hld : (s.step false).idEx.data.lden = false := by simp [step_false, hv, toIdEx, h]
  simp [idexBubble, hld]

theorem step_idEx (s : Core) :
    (s.step false).idEx.data = if s.ifId.valid then s.toIdEx else s.idEx.data := by
  simp [step_false]

theorem toIdEx_of_stall (h : s.idexBubble = true) : s.toIdEx.Inert :=
  ⟨by simp [toIdEx, h], by simp [toIdEx, h], by simp [toIdEx, h]⟩

theorem toIdEx_of_nop (h : IsNop s.ifId.data.ins) : s.toIdEx.Inert :=
  ⟨by simp [toIdEx, h.rdwen], by simp [toIdEx, h.lden], by simp [toIdEx, h.sten]⟩

end Core

/-! ## The invariant -/

/-- The front end behind the instructions `ps`: IF/ID holds the instruction that is due next and
`ifu` is one further, or IF/ID holds no instruction and `ifu` fetches the one that is due. -/
structure Flow (f : Front) (ps : List Passed) : Prop where
  valid : f.core.ifId.valid = true
  reached : f.reached = true
  inId : f.kind = .fetched →
    f.core.ifId.data.pc = due ps ∧ f.core.pc = f.core.ifId.data.pc + 4#64
  inIf : f.kind ≠ .fetched → IsNop f.core.ifId.data.ins ∧ f.core.pc = due ps

namespace Flow

variable {f : Front} {ps : List Passed}

theorem jump_of_nop (h : IsNop f.core.ifId.data.ins) : f.core.ifidBubble = false := h.jump _ _

theorem step_of_stall (h : Flow f ps) (hs : f.core.idexBubble = true) :
    Flow (f.step ()) ps ∧ (f.step ()).waiting = f.waiting := by
  obtain ⟨hpc, hid⟩ := Core.step_of_stall hs h.valid
  have hkind : (f.step ()).kind = f.kind := by simp [Front.step, Front.nextKind, Core.loads_eq, hs]
  have hstarted : (f.step ()).started = f.started := by simp [Front.step, Core.loads_eq, hs]
  have hcpc : (f.step ()).core.pc = f.core.pc := hpc
  have hcid : (f.step ()).core.ifId = f.core.ifId := hid
  constructor
  · refine ⟨?_, ?_, ?_, ?_⟩
    · rw [hcid]
      exact h.valid
    · rw [Front.reached, hstarted, hcpc]
      exact h.reached
    · rw [hkind, hcid, hcpc]
      exact h.inId
    · rw [hkind, hcid, hcpc]
      exact h.inIf
  · simp only [Front.waiting, hkind, hcid]

section

variable (h : Flow f ps) (hs : f.core.idexBubble = false)
include h hs

theorem step_reached : (f.step ()).reached = true := by
  have hr := h.reached
  unfold Front.reached at hr ⊢
  have hstarted : (f.step ()).started = (f.started || f.core.pc == PC_START) := by
    simp [Front.step, Core.loads_eq, hs]
  rw [hstarted, hr]
  rfl

omit h in
theorem step_of_jump (hj : f.core.ifidBubble = true) :
    (f.step ()).kind = .squash ∧ IsNop (f.step ()).core.ifId.data.ins ∧
      (f.step ()).core.pc = jumpPc f.core.ifId.data.ins f.core.ifId.data.pc f.core.iduRs1 := by
  refine ⟨?_, .inl ?_, ?_⟩
  · simp [Front.step, Front.nextKind, Core.loads_eq, hs, hj]
  · simp [Front.step, Core.step_false, Core.toIfId, hs, hj]
  · simp [Front.step, Core.step_false, Core.nextPc, hs, hj]

theorem step_of_no_jump (hj : f.core.ifidBubble = false) :
    (f.step ()).kind = .fetched ∧ (f.step ()).core.ifId.data.pc = f.core.pc ∧
      (f.step ()).core.ifId.data.ins = ifu f.core.ram f.core.pc ∧
        (f.step ()).core.pc = f.core.pc + 4#64 := by
  refine ⟨?_, ?_, ?_, ?_⟩
  · simp [Front.step, Front.nextKind, Core.loads_eq, hs, hj, h.reached]
  · simp [Front.step, Core.step_false, Core.toIfId, hs]
  · simp [Front.step, Core.step_false, Core.toIfId, hs, hj]
  · simp [Front.step, Core.step_false, Core.nextPc, hs, hj]

theorem passed_of_fetched (hk : f.kind = .fetched) :
    ∃ p : Passed, f.passed () = [p] ∧ p.pc = f.core.ifId.data.pc ∧ p.ins = f.core.ifId.data.ins ∧
      p.jump = f.core.ifidBubble ∧
      p.target = jumpPc f.core.ifId.data.ins f.core.ifId.data.pc f.core.iduRs1 := by
  let d := f.core.ifId.data
  refine ⟨⟨d.pc, d.ins, f.core.ifidBubble, jumpPc d.ins d.pc f.core.iduRs1⟩, ?_, rfl, rfl, rfl, rfl⟩
  simp [d, Front.passed, Core.enters_eq, hk, hs, h.valid]

end

theorem passed_of_not_fetched (hk : f.kind ≠ .fetched) : f.passed () = [] := by
  simp [Front.passed, hk]

theorem passed_of_stall (hs : f.core.idexBubble = true) : f.passed () = [] := by
  simp [Front.passed, Core.enters_eq, hs]

/-- The instruction that passes is in EX in the next cycle. -/
theorem step_carries (h : Flow f ps) {p : Passed} (hp : p ∈ f.passed ()) :
    (f.step ()).core.idEx.data.Carries p := by
  have hidEx : (f.step ()).core.idEx.data = f.core.toIdEx := by
    rw [Front.step, Core.step_idEx, h.valid, if_pos rfl]
  have hs : f.core.idexBubble = false := by
    by_contra hs
    rw [passed_of_stall (Bool.eq_true_of_not_eq_false hs)] at hp
    exact List.not_mem_nil hp
  have hk : f.kind = .fetched := by
    by_contra hk
    rw [passed_of_not_fetched hk] at hp
    exact List.not_mem_nil hp
  obtain ⟨q, hq, hpc, hins, -⟩ := h.passed_of_fetched hs hk
  rw [hq, List.mem_singleton] at hp
  subst hp
  rw [hidEx]
  constructor <;> simp [Core.toIdEx, hs, hpc, hins]

/-- If none passes, a bubble or a no-operation is in EX in the next cycle. -/
theorem step_inert (h : Flow f ps) (hp : f.passed () = []) :
    (f.step ()).core.idEx.data.Inert := by
  have hidEx : (f.step ()).core.idEx.data = f.core.toIdEx := by
    rw [Front.step, Core.step_idEx, h.valid, if_pos rfl]
  rw [hidEx]
  cases hs : f.core.idexBubble with
  | true => exact Core.toIdEx_of_stall hs
  | false =>
    have hk : f.kind ≠ .fetched := by
      intro hk
      obtain ⟨q, hq, -⟩ := h.passed_of_fetched hs hk
      rw [hq] at hp
      exact List.cons_ne_nil _ _ hp
    exact Core.toIdEx_of_nop (h.inIf hk).1

theorem passed_eq_waiting (h : Flow f ps) (hs : f.core.idexBubble = false) :
    (f.passed ()).map (fun p => (p.pc, p.ins)) = f.waiting := by
  by_cases hk : f.kind = .fetched
  · obtain ⟨p, hp, hpc, hins, -⟩ := h.passed_of_fetched hs hk
    simp [hp, hpc, hins, Front.waiting, hk]
  · simp [passed_of_not_fetched hk, Front.waiting, hk]

/-- The front end goes on behind the instruction that passes into EX. -/
theorem step (h : Flow f ps) : Flow (f.step ()) (ps ++ f.passed ()) := by
  cases hs : f.core.idexBubble with
  | true =>
    rw [passed_of_stall hs, List.append_nil]
    exact (h.step_of_stall hs).1
  | false =>
    have hvalid : (f.step ()).core.ifId.valid = true := by simp [Front.step, Core.step_false]
    have hreached := h.step_reached hs
    by_cases hk : f.kind = .fetched
    · obtain ⟨p, hp, hpc, -, hjump, htarget⟩ := h.passed_of_fetched hs hk
      obtain ⟨-, hnext⟩ := h.inId hk
      rw [hp]
      cases hj : f.core.ifidBubble with
      | true =>
        obtain ⟨hkind, hins, hto⟩ := step_of_jump hs hj
        refine ⟨hvalid, hreached, ?_, fun _ => ⟨hins, ?_⟩⟩
        · intro hk'
          rw [hkind] at hk'
          cases hk'
        · rw [hto, due_append, Passed.next, hjump, hj, htarget]
          rfl
      | false =>
        obtain ⟨hkind, hid, -, hto⟩ := h.step_of_no_jump hs hj
        refine ⟨hvalid, hreached, fun _ => ⟨?_, ?_⟩, fun hk' => absurd hkind hk'⟩
        · rw [hid, hnext, due_append, Passed.next, hjump, hj, hpc]
          rfl
        · rw [hto, hid]
    · -- a no-operation leaves, and the instruction that is due is fetched
      obtain ⟨hins, hdue⟩ := h.inIf hk
      obtain ⟨hkind, hid, -, hto⟩ := h.step_of_no_jump hs (jump_of_nop hins)
      rw [passed_of_not_fetched hk, List.append_nil]
      refine ⟨hvalid, hreached, fun _ => ⟨?_, ?_⟩, fun hk' => absurd hkind hk'⟩
      · rw [hid, hdue]
      · rw [hto, hid]

theorem linked (h : Flow f ps) (hl : Linked ps) : Linked (ps ++ f.passed ()) := by
  by_cases hk : f.kind = .fetched
  · cases hs : f.core.idexBubble with
    | true => rwa [passed_of_stall hs, List.append_nil]
    | false =>
      obtain ⟨p, hp, hpc, -⟩ := h.passed_of_fetched hs hk
      rw [hp]
      exact hl.append (hpc.trans (h.inId hk).1)
  · rw [passed_of_not_fetched hk, List.append_nil]
    exact hl

/-- A cycle loses and duplicates nothing: what IF/ID held and took over has passed or is there. -/
theorem waiting_step (h : Flow f ps) : f.waiting ++ f.taken () =
    (f.passed ()).map (fun p => (p.pc, p.ins)) ++ (f.step ()).waiting := by
  cases hs : f.core.idexBubble with
  | true =>
    rw [(h.step_of_stall hs).2, passed_of_stall hs]
    simp [Front.taken, Core.loads_eq, hs]
  | false =>
    rw [h.passed_eq_waiting hs]
    congr 1
    cases hj : f.core.ifidBubble with
    | true =>
      obtain ⟨hkind, -⟩ := step_of_jump hs hj
      simp [Front.taken, Front.waiting, hj, hkind]
    | false =>
      obtain ⟨hkind, hpc, hins, -⟩ := h.step_of_no_jump hs hj
      simp [Front.taken, Front.waiting, Core.loads_eq, h.reached, hs, hj, hkind, hpc, hins]

/-- A word from `ifu` is dropped exactly behind a taken jump, and it is the next one. -/
theorem dropped_eq (h : Flow f ps) :
    f.dropped () = ((f.passed ()).filter Passed.jump).map fun p => p.pc + 4#64 := by
  cases hs : f.core.idexBubble with
  | true => simp [Front.dropped, passed_of_stall hs, Core.loads_eq, hs]
  | false =>
    by_cases hk : f.kind = .fetched
    · obtain ⟨p, hp, hpc, -, hjump, -⟩ := h.passed_of_fetched hs hk
      obtain ⟨-, hnext⟩ := h.inId hk
      cases hj : f.core.ifidBubble with
      | true =>
        simp [Front.dropped, Core.loads_eq, h.reached, hs, hj, hp, hjump, hpc, hnext]
      | false => simp [Front.dropped, hj, hp, hjump]
    · rw [passed_of_not_fetched hk]
      simp [Front.dropped, jump_of_nop (h.inIf hk).1]

end Flow

/-! ## Runs -/

/-- The front end before it fetches the first instruction. -/
structure Booting (rf : Regs) (ram : Ram) (f : Front) : Prop where
  boot : Boot rf ram f.core
  started : f.started = false
  kind : f.kind ≠ .fetched
  ex : f.core.idEx.data.Inert

namespace Booting

variable {rf : Regs} {ram : Ram} {f : Front}

theorem not_reached (h : Booting rf ram f) : f.reached = false := by
  unfold Front.reached
  rcases h.boot.pc with hp | hp
  · rw [h.started, hp]
    rfl
  · rw [h.started, hp]
    rfl

theorem nextKind (h : Booting rf ram f) : f.nextKind = .boot := by
  simp [Front.nextKind, Core.loads_eq, h.boot.bubble, h.boot.jump, h.not_reached]

theorem emits_nothing (h : Booting rf ram f) :
    f.passed () = [] ∧ f.taken () = [] ∧ f.dropped () = [] ∧ f.waiting = [] := by
  simp [Front.passed, Front.taken, Front.dropped, Front.waiting, h.kind, h.not_reached]

theorem step_inert (h : Booting rf ram f) : (f.step ()).core.idEx.data.Inert := by
  rw [Front.step, Core.step_idEx]
  cases f.core.ifId.valid with
  | true => exact Core.toIdEx_of_nop (.inr h.boot.ins)
  | false => exact h.ex

/-- Either the next boot word is fetched, or IF/ID holds the last one and `ifu` is at `PC_START`. -/
theorem step (h : Booting rf ram f) (hz : BootZero ram) :
    Booting rf ram (f.step ()) ∨ Flow (f.step ()) [] ∧ (f.step ()).waiting = [] := by
  have hkind : (f.step ()).kind = .boot := h.nextKind
  rcases h.boot.pc with hp | hp
  · refine .inl ⟨h.boot.step_boot hz hp, ?_, ?_, h.step_inert⟩
    · simp [Front.step, h.started, hp, PC_START]
    · simp [hkind]
  · have hpc : (f.step ()).core.pc = PC_START := h.boot.step_start hp
    refine .inr ⟨⟨?_, ?_, ?_, ?_⟩, ?_⟩
    · simp [Front.step, Core.step_false]
    · simp [Front.reached, hpc]
    · simp [hkind]
    · exact fun _ => ⟨.inr (h.boot.step_ins hz), hpc⟩
    · simp [Front.waiting, hkind]

theorem start (released : Bool) (rf : Regs) (ram : Ram) (regldQ wdataQ : Word)
    (hz : released = true → BootZero ram) :
    Booting rf ram (Front.start released rf ram regldQ wdataQ) :=
  ⟨Boot.start released rf ram regldQ wdataQ hz, rfl, by simp [Front.start], by
    cases released <;> exact ⟨rfl, rfl, rfl⟩⟩

end Booting

/-- What has passed into EX, been taken over by IF/ID and been dropped when the front end is at `f`. -/
structure Account (f : Front) (ps : List Passed) (taken : List (Word × Ins)) (dropped : List Word) :
    Prop where
  linked : Linked ps
  taken_eq : taken = ps.map (fun p => (p.pc, p.ins)) ++ f.waiting
  dropped_eq : dropped = (ps.filter Passed.jump).map fun p => p.pc + 4#64

theorem Account.step {f : Front} {ps : List Passed} {taken : List (Word × Ins)}
    {dropped : List Word} (h : Account f ps taken dropped) (hf : Flow f ps) :
    Account (f.step ()) (ps ++ f.passed ()) (taken ++ f.taken ()) (dropped ++ f.dropped ()) where
  linked := hf.linked h.linked
  taken_eq := by
    rw [h.taken_eq, List.append_assoc, hf.waiting_step, List.map_append, List.append_assoc]
  dropped_eq := by
    rw [h.dropped_eq, hf.dropped_eq, List.filter_append, List.map_append]

theorem flow_run {rf : Regs} {ram : Ram} {f : Front} (h : Booting rf ram f) (hz : BootZero ram)
    (n : Nat) :
    let g := run Front.step f (fun _ => ()) n
    let ps := trace Front.step Front.passed f (fun _ => ()) n
    (Booting rf ram g ∧ ps = [] ∨ Flow g ps) ∧
      Account g ps (trace Front.step Front.taken f (fun _ => ()) n)
        (trace Front.step Front.dropped f (fun _ => ()) n) := by
  have hnil : Linked [] := ⟨by simp, List.isChain_nil⟩
  induction n with
  | zero => exact ⟨.inl ⟨h, rfl⟩, hnil, h.emits_nothing.2.2.2.symm, rfl⟩
  | succ n ih =>
    obtain ⟨hb | hf, hacc⟩ := ih
    · simp only [run_succ, trace_succ]
      obtain ⟨hb, hps⟩ := hb
      obtain ⟨hp, ht, hd, hw⟩ := hb.emits_nothing
      have htaken := hacc.taken_eq
      have hdropped := hacc.dropped_eq
      rw [hps, hw] at htaken
      rw [hps] at hdropped
      rw [hps, hp, htaken, ht, hdropped, hd]
      rcases hb.step hz with hb' | ⟨hf', hw'⟩
      · exact ⟨.inl ⟨hb', rfl⟩, hnil, hb'.emits_nothing.2.2.2.symm, rfl⟩
      · exact ⟨.inr hf', hnil, hw'.symm, rfl⟩
    · exact ⟨.inr hf.step, hacc.step hf⟩

/-- **Control flow.** From reset, whatever the program does: the instructions that pass into EX
follow each other as `bru` decides, they are the words IF/ID took over, in order and each one once,
and a word is dropped for each taken jump and for nothing else, the one behind it. An instruction
that passes is what ID/EX holds in the next cycle; if none does, ID/EX holds nothing that acts, and
IF/ID holds a no-operation unless it holds an instruction. A stalled cycle leaves the pc and IF/ID
as they are, and in the next cycle the instruction in IF/ID passes. -/
theorem control_flow (released : Bool) (rf : Regs) (ram : Ram) (regldQ wdataQ : Word)
    (hz : BootZero ram) (n : Nat) :
    let f := Front.start released rf ram regldQ wdataQ
    let g := run Front.step f (fun _ => ())
    let ps := trace Front.step Front.passed f (fun _ => ()) n
    Linked ps ∧
      trace Front.step Front.taken f (fun _ => ()) n =
        ps.map (fun p => (p.pc, p.ins)) ++ (g n).waiting ∧
      trace Front.step Front.dropped f (fun _ => ()) n =
        (ps.filter Passed.jump).map (fun p => p.pc + 4#64) ∧
      (∀ p ∈ (g n).passed (), (g (n + 1)).core.idEx.data.Carries p) ∧
      ((g n).passed () = [] → (g (n + 1)).core.idEx.data.Inert) ∧
      ((g n).waiting = [] → IsNop (g n).core.ifId.data.ins) ∧
      ((g n).core.idexBubble = true →
        (g (n + 1)).core.pc = (g n).core.pc ∧ (g (n + 1)).core.ifId = (g n).core.ifId ∧
          (g (n + 1)).kind = (g n).kind ∧ (g n).passed () = [] ∧
            ((g (n + 1)).passed ()).map (fun p => (p.pc, p.ins)) = (g n).waiting) := by
  intro f g ps
  obtain ⟨hinv, hacc⟩ := flow_run (Booting.start released rf ram regldQ wdataQ fun _ => hz) hz n
  refine ⟨hacc.linked, hacc.taken_eq, hacc.dropped_eq, ?_, ?_, ?_, ?_⟩
  · intro p hp
    rcases hinv with ⟨hb, -⟩ | hf
    · rw [hb.emits_nothing.1] at hp
      exact absurd hp List.not_mem_nil
    · exact hf.step_carries hp
  · intro hp
    rcases hinv with ⟨hb, -⟩ | hf
    · exact hb.step_inert
    · exact hf.step_inert hp
  · intro hw
    have hk : (g n).kind ≠ .fetched := by
      intro hk
      simp [Front.waiting, hk] at hw
    rcases hinv with ⟨hb, -⟩ | hf
    · exact .inr hb.boot.ins
    · exact (hf.inIf hk).1
  · intro hs
    have hf : Flow (g n) ps := by
      rcases hinv with ⟨hb, -⟩ | hf
      · rw [hb.boot.bubble] at hs
        exact absurd hs Bool.false_ne_true
      · exact hf
    obtain ⟨hpc, hid⟩ := Core.step_of_stall hs hf.valid
    obtain ⟨hf', hw⟩ := hf.step_of_stall hs
    have hgo : (g (n + 1)).core.idexBubble = false := Core.step_bubble_of_stall hs hf.valid
    refine ⟨hpc, hid, ?_, Flow.passed_of_stall hs, ?_⟩
    · change (g n).nextKind = (g n).kind
      simp [Front.nextKind, Core.loads_eq, hs]
    · rw [← hw]
      exact Flow.passed_eq_waiting hf' hgo

/-- `auipc x6, 0`, `ld x5, 0x100(x6)`, `beq x5, x0, 8`, `jal x0, 8`, `addi x5, x5, 1`, `jal x0, 0`,
and the word that is loaded. -/
def staleRam : Ram := fun i =>
  if i = 0#64 then 0x1003328300000317#64
  else if i = 1#64 then 0x0080006f00028463#64
  else if i = 2#64 then 0x0000006f00128293#64
  else if i = ramIdx 0x80000100#64 then 1#64
  else 0#64

/-- In cycle 4 the branch is stalled and finds the old `x5`, which is zero: it does not jump. The
instruction behind it does, and the one in its slot never passes. -/
theorem control_flow_stale :
    let f := Front.start true (fun _ => 0#64) staleRam 0#64 0#64
    let g := run Front.step f (fun _ => ())
    let ps := trace Front.step Front.passed f (fun _ => ()) 4
    (g 4).core.idexBubble = true ∧ (g 4).core.ifidBubble = true ∧
      ps.map Passed.pc = [0x80000000#64, 0x80000004#64] ∧
      (trace Front.step Front.passed f (fun _ => ()) 9).map Passed.pc =
        [0x80000000#64, 0x80000004#64, 0x80000008#64, 0x8000000c#64, 0x80000014#64] ∧
      Linked ps ∧
      trace Front.step Front.taken f (fun _ => ()) 4 =
        ps.map (fun p => (p.pc, p.ins)) ++ (g 4).waiting ∧
      trace Front.step Front.dropped f (fun _ => ()) 4 =
        (ps.filter Passed.jump).map (fun p => p.pc + 4#64) ∧
      (∀ p ∈ (g 4).passed (), (g 5).core.idEx.data.Carries p) ∧
      ((g 4).passed () = [] → (g 5).core.idEx.data.Inert) ∧
      ((g 4).waiting = [] → IsNop (g 4).core.ifId.data.ins) ∧
      ((g 4).core.idexBubble = true →
        (g 5).core.pc = (g 4).core.pc ∧ (g 5).core.ifId = (g 4).core.ifId ∧
          (g 5).kind = (g 4).kind ∧ (g 4).passed () = [] ∧
            ((g 5).passed ()).map (fun p => (p.pc, p.ins)) = (g 4).waiting) :=
  ⟨by decide +kernel, by decide +kernel, by decide +kernel, by decide +kernel,
    control_flow true _ staleRam _ _ (by unfold BootZero; decide +kernel) 4⟩

end Oscpu.Diff
