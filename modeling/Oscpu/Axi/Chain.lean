import Oscpu.Axi.Occupancy

/-!
# The pipeline registers as a queue

`pipe_if_id`, `pipe_id_ex`, `exu`, `pipe_ex_ls`, `lsu` and `pipe_ls_wb` on their own: what the rest
of the core feeds them is free in every cycle, and there is no flush. What leaves write-back is what
IF/ID accepted, in order, but for the zero words that a load-use bubble inserts.
-/

namespace Oscpu.Axi

open Oscpu.Rtl Oscpu.Lib

/-- The part of the data of `pipe_id_ex` and `pipe_ex_ls` that the chain reads. -/
structure Slot where
  ins : Ins
  pc : Word
  lden : Bool
  sten : Bool

/-- The four pipeline registers. -/
structure Chain where
  ifId : Stage IfId
  idEx : Stage Slot
  exLs : Stage Slot
  lsWb : Stage IfId

/-- The inputs of the chain in one cycle. -/
structure ChainIn where
  ifValid : Bool
  ifuIns : Ins
  ifuPc : Word
  /-- `i_bubble` of `pipe_if_id`, the jump of the instruction in ID. -/
  ifidBubble : Bool
  /-- The load-use stall: `pc_stall` of `pipe_if_id` and `i_bubble` of `pipe_id_ex`. -/
  idexBubble : Bool
  iduLden : Bool
  iduSten : Bool
  axiMemReady : Bool
  wbReady : Bool

namespace Chain

variable (c : Chain) (i : ChainIn)

def memReady : Bool := c.lsWb.ready i.wbReady

/-- `mem_wb_valid` of `lsu`. -/
def memValid : Bool :=
  if c.exLs.data.lden || c.exLs.data.sten then
    (c.exLs.valid && (c.exLs.data.lden || c.exLs.data.sten)) && i.axiMemReady
  else c.exLs.valid

/-- `mem_ex_ready` of `lsu`. -/
def memExReady : Bool := c.memValid i && c.memReady i

def exReady : Bool := c.exLs.ready (c.memExReady i)

def idReady : Bool := c.idEx.ready (c.exReady i)

def ifReady : Bool := c.ifId.ready (c.idReady i) && !i.idexBubble

/-- `{t_ifu_ins, t_ifu_pc}`. -/
def toIfId : IfId := ⟨if i.ifidBubble then 0#32 else i.ifuIns, i.ifuPc⟩

/-- The `t_idu_*` signals. -/
def toIdEx : Slot where
  ins := if i.idexBubble then 0#32 else c.ifId.data.ins
  pc := c.ifId.data.pc
  lden := if i.idexBubble then false else i.iduLden
  sten := if i.idexBubble then false else i.iduSten

/-- The `t_mem_*` signals. -/
def toLsWb : IfId := ⟨c.exLs.data.ins, c.exLs.data.pc⟩

/-- One clock edge. -/
def step : Chain where
  ifId := c.ifId.step (c.ifReady i) i.ifValid (toIfId i)
  idEx := c.idEx.step (c.idReady i) c.ifId.valid (c.toIdEx i)
  exLs := c.exLs.step (c.exReady i) c.idEx.valid c.idEx.data
  lsWb := c.lsWb.step (c.memReady i) (c.memValid i) c.toLsWb

end Chain

/-- The pc and the word of each item, without the zero words. -/
def nonzero (xs : List (Word × Ins)) : List (Word × Ins) := xs.filter fun x => x.2 != 0#32

theorem nonzero_append (xs ys : List (Word × Ins)) :
    nonzero (xs ++ ys) = nonzero xs ++ nonzero ys :=
  List.filter_append xs ys

def IfId.word (d : IfId) : Word × Ins := (d.pc, d.ins)

def Slot.word (d : Slot) : Word × Ins := (d.pc, d.ins)

namespace Chain

variable (c : Chain) (i : ChainIn)

/-- The items that IF/ID accepts: `if_valid` and `if_ready`. -/
def accepted : List (Word × Ins) :=
  nonzero (if i.ifValid && c.ifReady i then [(toIfId i).word] else [])

/-- The items that leave write-back: `wb_valid` and `wb_ready`. -/
def retired : List (Word × Ins) :=
  nonzero (if c.lsWb.valid && i.wbReady then [c.lsWb.data.word] else [])

/-- The items in the chain, the oldest first. -/
def contents : List (Word × Ins) :=
  nonzero (c.lsWb.items.map IfId.word ++ c.exLs.items.map Slot.word ++
    c.idEx.items.map Slot.word ++ c.ifId.items.map IfId.word)

/-- No register holds an item. -/
structure Empty (c : Chain) : Prop where
  ifId : c.ifId.valid = false
  idEx : c.idEx.valid = false
  exLs : c.exLs.valid = false
  lsWb : c.lsWb.valid = false

theorem Empty.contents {c : Chain} (h : c.Empty) : c.contents = [] := by
  simp [Chain.contents, Stage.items, h.ifId, h.idEx, h.exLs, h.lsWb, nonzero]

variable {c i}

/-! ## One edge, register by register -/

theorem memReady_of_valid (hv : c.lsWb.valid = true) : c.memReady i = i.wbReady := by
  simp [memReady, Stage.ready, hv]

theorem exReady_of_valid (hv : c.exLs.valid = true) : c.exReady i = c.memExReady i := by
  simp [exReady, Stage.ready, hv]

theorem idReady_of_valid (hv : c.idEx.valid = true) : c.idReady i = c.exReady i := by
  simp [idReady, Stage.ready, hv]

theorem ifReady_of_valid (hv : c.ifId.valid = true) :
    c.ifReady i = (c.idReady i && !i.idexBubble) := by
  simp [ifReady, Stage.ready, hv]

/-- `lsu` offers nothing that is not there. -/
theorem valid_of_memValid (hv : c.memValid i = true) : c.exLs.valid = true := by
  unfold memValid at hv
  split at hv
  · simp only [Bool.and_eq_true] at hv
    exact hv.1.1
  · exact hv

theorem step_lsWb : c.lsWb.items ++ (if c.memValid i && c.memReady i then [c.toLsWb] else []) =
    (if c.lsWb.valid && i.wbReady then [c.lsWb.data] else []) ++ (c.step i).lsWb.items :=
  Stage.items_step _ _ memReady_of_valid

theorem step_exLs :
    c.exLs.items ++ (if c.idEx.valid && c.exReady i then [c.idEx.data] else []) =
      (if c.exLs.valid && c.memExReady i then [c.exLs.data] else []) ++ (c.step i).exLs.items :=
  Stage.items_step _ _ exReady_of_valid

theorem step_idEx :
    c.idEx.items ++ (if c.ifId.valid && c.idReady i then [c.toIdEx i] else []) =
      (if c.idEx.valid && c.exReady i then [c.idEx.data] else []) ++ (c.step i).idEx.items :=
  Stage.items_step _ _ idReady_of_valid

theorem step_ifId :
    c.ifId.items ++ (if i.ifValid && c.ifReady i then [toIfId i] else []) =
      (if c.ifId.valid && (c.idReady i && !i.idexBubble) then [c.ifId.data] else []) ++
        (c.step i).ifId.items :=
  Stage.items_step _ _ ifReady_of_valid

theorem nonzero_toIdEx :
    nonzero ((if c.ifId.valid && c.idReady i then [c.toIdEx i] else []).map Slot.word) =
      nonzero ((if c.ifId.valid && (c.idReady i && !i.idexBubble) then [c.ifId.data] else []).map
        IfId.word) := by
  cases hb : i.idexBubble <;> cases c.ifId.valid <;> cases c.idReady i <;>
    simp [toIdEx, Slot.word, IfId.word, nonzero, hb]

theorem word_toLsWb :
    (if c.memValid i && c.memReady i then [c.toLsWb] else []).map IfId.word =
      (if c.exLs.valid && c.memExReady i then [c.exLs.data] else []).map Slot.word := by
  have hgive : (c.exLs.valid && c.memExReady i) = (c.memValid i && c.memReady i) := by
    unfold memExReady
    cases hv : c.memValid i with
    | true => simp [valid_of_memValid hv]
    | false => simp
  rw [hgive]
  split <;> rfl

/-- **One edge moves items along, in order.** -/
theorem contents_step (c : Chain) (i : ChainIn) :
    c.contents ++ c.accepted i = c.retired i ++ (c.step i).contents := by
  have hword {α : Type} (f : α → Word × Ins) {xs ys us vs : List α} (h : xs ++ ys = us ++ vs) :
      nonzero (xs.map f) ++ nonzero (ys.map f) = nonzero (us.map f) ++ nonzero (vs.map f) := by
    rw [← nonzero_append, ← List.map_append, h, List.map_append, nonzero_append]
  have hwb := hword IfId.word (step_lsWb (c := c) (i := i))
  have hmem := hword Slot.word (step_exLs (c := c) (i := i))
  have hex := hword Slot.word (step_idEx (c := c) (i := i))
  have hid := hword IfId.word (step_ifId (c := c) (i := i))
  rw [word_toLsWb] at hwb
  rw [nonzero_toIdEx] at hex
  have hacc : c.accepted i =
      nonzero ((if i.ifValid && c.ifReady i then [toIfId i] else []).map IfId.word) := by
    unfold accepted
    split <;> rfl
  have hret : c.retired i =
      nonzero ((if c.lsWb.valid && i.wbReady then [c.lsWb.data] else []).map IfId.word) := by
    unfold retired
    split <;> rfl
  simp only [contents, nonzero_append, hacc, hret, List.append_assoc]
  -- from IF/ID back to write-back, each register passes the difference on
  rw [hid, ← List.append_assoc (nonzero (c.idEx.items.map _)), hex, List.append_assoc,
    ← List.append_assoc (nonzero (c.exLs.items.map _)), hmem, List.append_assoc,
    ← List.append_assoc (nonzero (c.lsWb.items.map _)), hwb, List.append_assoc]

end Chain

/-- What IF/ID has accepted is what has left write-back and what is in the chain. -/
theorem trace_contents {c : Chain} (h : c.Empty) (is : Nat → ChainIn) (n : Nat) :
    trace Chain.step Chain.retired c is n ++ (run Chain.step c is n).contents =
      trace Chain.step Chain.accepted c is n := by
  induction n with
  | zero => exact h.contents
  | succ n ih =>
    rw [trace_succ, trace_succ, run_succ, List.append_assoc, ← Chain.contents_step,
      ← List.append_assoc, ih]

/-- **The pipeline is a queue.** From an empty chain and for every input stream, what leaves
write-back is a prefix of what IF/ID accepted, and the rest is in the chain. -/
theorem chain_fifo {c : Chain} (h : c.Empty) (is : Nat → ChainIn) (n : Nat) :
    trace Chain.step Chain.retired c is n <+: trace Chain.step Chain.accepted c is n ∧
      trace Chain.step Chain.retired c is n ++ (run Chain.step c is n).contents =
        trace Chain.step Chain.accepted c is n :=
  ⟨⟨_, trace_contents h is n⟩, trace_contents h is n⟩

/-- The chain after reset. -/
def Chain.zero : Chain :=
  ⟨⟨false, IfId.zero⟩, ⟨false, ⟨0#32, 0#64, false, false⟩⟩, ⟨false, ⟨0#32, 0#64, false, false⟩⟩,
    ⟨false, IfId.zero⟩⟩

/-- A load behind an `addi`, with a bubble between them and the memory answering late. -/
def chainInputs (k : Nat) : ChainIn where
  ifValid := k < 2
  ifuIns := if k = 0 then 0x13#32 else 0x3003#32
  ifuPc := if k = 0 then 0x80000000#64 else 0x80000004#64
  ifidBubble := false
  idexBubble := k = 2
  iduLden := 3 ≤ k
  iduSten := false
  axiMemReady := k = 7
  wbReady := true

theorem chain_fifo_load :
    trace Chain.step Chain.retired Chain.zero chainInputs 9 =
      [(0x80000000#64, 0x13#32), (0x80000004#64, 0x3003#32)] ∧
    trace Chain.step Chain.retired Chain.zero chainInputs 9 <+:
      trace Chain.step Chain.accepted Chain.zero chainInputs 9 ∧
      trace Chain.step Chain.retired Chain.zero chainInputs 9 ++
          (run Chain.step Chain.zero chainInputs 9).contents =
        trace Chain.step Chain.accepted Chain.zero chainInputs 9 :=
  ⟨by decide, chain_fifo ⟨rfl, rfl, rfl, rfl⟩ chainInputs 9⟩

/-! ## The chain in the core -/

def IdEx.slot (d : IdEx) : Slot := ⟨d.ins, d.pc, d.lden, d.sten⟩

def ExLs.slot (d : ExLs) : Slot := ⟨d.ins, d.pc, d.lden, d.sten⟩

def LsWb.word (d : LsWb) : IfId := ⟨d.ins, d.pc⟩

namespace Core

variable (s : Core) (i : AxiIn)

/-- The pipeline registers of the core. -/
def chain : Chain where
  ifId := s.ifId
  idEx := ⟨s.idEx.valid, s.idEx.data.slot⟩
  exLs := ⟨s.exLs.valid, s.exLs.data.slot⟩
  lsWb := ⟨s.lsWb.valid, s.lsWb.data.word⟩

/-- What the rest of the core feeds them. -/
def chainIn : ChainIn where
  ifValid := s.ifHs i
  ifuIns := s.ifuIns i
  ifuPc := s.ifuPc
  ifidBubble := s.jump i
  idexBubble := s.pcStall
  iduLden := oLsuLden s.ifId.data.ins
  iduSten := oLsuSten s.ifId.data.ins
  axiMemReady := s.memReadyAxi i
  wbReady := s.ifReadyAxi i

variable {s i}

/-- Without a flush, the pipeline of the core is the chain. -/
theorem chain_step (hfl : s.flush i = false) :
    (s.step false i).chain = s.chain.step (s.chainIn i) := by
  have hif : (s.step false i).chain.ifId = (s.chain.step (s.chainIn i)).ifId := by
    refine congrArg (Stage.mk _) ((step_ifId_data s i).trans ?_)
    rw [hfl, Bool.or_false, Bool.and_comm]
    simp only [toIfId, hfl, Bool.false_eq_true, if_false]
    rfl
  have hid : (s.step false i).chain.idEx = (s.chain.step (s.chainIn i)).idEx := by
    refine congrArg (Stage.mk _) ((congrArg IdEx.slot (step_idEx_data s i)).trans ?_)
    rw [hfl, Bool.or_false, apply_ite IdEx.slot]
    simp only [toIdEx, hfl, Bool.false_eq_true, if_false]
    rfl
  have hex : (s.step false i).chain.exLs = (s.chain.step (s.chainIn i)).exLs := by
    refine congrArg (Stage.mk _) ((congrArg ExLs.slot (step_exLs_data s i)).trans ?_)
    rw [hfl, Bool.or_false, apply_ite ExLs.slot]
    simp only [toExLs, hfl, Bool.false_eq_true, if_false]
    rfl
  have hwb : (s.step false i).chain.lsWb = (s.chain.step (s.chainIn i)).lsWb := by
    refine congrArg (Stage.mk _) ((congrArg LsWb.word (step_lsWb_data s i)).trans ?_)
    rw [hfl, Bool.or_false, apply_ite LsWb.word]
    simp only [toLsWb, hfl, Bool.false_eq_true, if_false]
    rfl
  exact congr (congr (congrArg₂ Chain.mk hif hid) hex) hwb

end Core

/-- In a run of the core without a flush, its pipeline is a run of the chain, so the words that
retire are those that IF/ID accepted. -/
theorem System.run_chain {y : System} {is : Nat → AxiIn} {n : Nat}
    (hfl : Admits System.step (fun y i => y.core.flush i = false) y is n) :
    (run System.step y is n).core.chain =
      run Chain.step y.core.chain (fun k => (run System.step y is k).core.chainIn (is k)) n := by
  induction n with
  | zero => rfl
  | succ n ih =>
    rw [run_succ, run_succ, ← ih (hfl.mono (Nat.le_succ n))]
    exact Core.chain_step hfl.last

end Oscpu.Axi
