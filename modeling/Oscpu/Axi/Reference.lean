import Oscpu.Axi.Redirect
import Oscpu.Axi.Restart

/-!
# The reference machine of `cpu_axi_diff`

One instruction at a time on the registers, the memory and the CSRs, through the functions of the
units and the update of `csr` itself: what the core computes when nothing overlaps. The machine knows
nothing about cycles or the bus. `smooth` names the cycles in which the overlap makes a difference.
-/

namespace Oscpu.Axi

open Oscpu.Rtl Oscpu.Lib

/-! ## Decoding -/

section

variable {ins : Ins}

theorem not_access_of_isCsr (h : isCsr ins = true) :
    oRdwen ins = false ∧ oLsuLden ins = false ∧ oLsuSten ins = false := by
  have hop : opcode ins = TYPE_CSR := by simpa [isCsr] using h
  refine ⟨?_, ?_, ?_⟩ <;> simp [oRdwen, oLsuLden, oLsuSten, hop, TYPE_CSR, TYPE_R, TYPE_R_W, TYPE_I,
    TYPE_I_W, TYPE_I_LOAD, TYPE_I_JALR, TYPE_U_LUI, TYPE_U_AUIPC, TYPE_J, TYPE_S]

theorem not_isCsr_of_rdwen (h : oRdwen ins = true) : isCsr ins = false := by
  by_contra hc
  rw [(not_access_of_isCsr (Bool.eq_true_of_not_eq_false hc)).1] at h
  exact Bool.false_ne_true h

theorem not_isCsr_of_lden (h : oLsuLden ins = true) : isCsr ins = false := by
  by_contra hc
  rw [(not_access_of_isCsr (Bool.eq_true_of_not_eq_false hc)).2.1] at h
  exact Bool.false_ne_true h

theorem not_isCsr_of_sten (h : oLsuSten ins = true) : isCsr ins = false := by
  by_contra hc
  rw [(not_access_of_isCsr (Bool.eq_true_of_not_eq_false hc)).2.2] at h
  exact Bool.false_ne_true h

theorem not_sten_of_lden (h : oLsuLden ins = true) : oLsuSten ins = false := by
  have hop : opcode ins = TYPE_I_LOAD := by simpa [oLsuLden] using h
  simp [oLsuSten, hop, TYPE_I_LOAD, TYPE_S]

theorem not_rdwen_of_sten (h : oLsuSten ins = true) : oRdwen ins = false := by
  have hop : opcode ins = TYPE_S := by simpa [oLsuSten] using h
  simp [oRdwen, hop, TYPE_S, TYPE_R, TYPE_R_W, TYPE_I, TYPE_I_W, TYPE_I_LOAD, TYPE_I_JALR,
    TYPE_U_LUI, TYPE_U_AUIPC, TYPE_J]

theorem not_jump_of_isCsr {rs1 rs2 : Word} (h : isCsr ins = true) : jump ins rs1 rs2 = false := by
  have hop : opcode ins = TYPE_CSR := by simpa [isCsr] using h
  simp [jump, oBrch, oJal, oJalr, hop, TYPE_CSR, TYPE_B, TYPE_J, TYPE_I_JALR]

theorem choose_of_not_isCsr (h : isCsr ins = false) : csrChoose ins = 0#3 := by
  simp [csrChoose, h]

theorem isCsr_of_csrWen (h : csrWen (csrChoose ins) = true) : isCsr ins = true := by
  by_contra hn
  rw [choose_of_not_isCsr (Bool.eq_false_iff.2 hn)] at h
  exact absurd h (by decide)

/-- An instruction that writes a CSR is one of the six. -/
theorem csrOp_of_csrWen (h : csrWen (csrChoose ins) = true) : ∃ op imm, csrOp ins = some (op, imm) := by
  have hcsr := isCsr_of_csrWen h
  by_contra hno
  have hnone : csrOp ins = none := by
    cases hop : csrOp ins with
    | none => rfl
    | some x => exact absurd ⟨x.1, x.2, hop⟩ hno
  unfold csrOp at hnone
  simp only [hcsr, Bool.not_true, Bool.false_eq_true, if_false] at hnone
  split_ifs at hnone with h1 h2 h3 h4 h5 h6
  simp [csrChoose, csrWen, hcsr, h1, h2, h3, h4, h5, h6] at h

theorem isCsr_of_trap (h : (isEcall ins || isMret ins) = true) : isCsr ins = true := by
  simp only [isEcall, isMret, Bool.or_eq_true, Bool.and_eq_true] at h
  exact h.elim And.left And.left

theorem not_isMret_of_isEcall (h : isEcall ins = true) : isMret ins = false := by
  simp only [isEcall, Bool.and_eq_true, beq_iff_eq] at h
  simp [isMret, h]

/-- The CSR number of an `ecall` or `mret` is that of no register. -/
theorem csrId_of_trap (h : (isEcall ins || isMret ins) = true) {n : BitVec 12}
    (hn : n ≠ 0b000000000000#12 ∧ n ≠ 0b001100000010#12) : (csrId ins == n) = false := by
  simp only [isEcall, isMret, Bool.or_eq_true, Bool.and_eq_true, beq_iff_eq] at h
  rw [beq_eq_false_iff_ne]
  rintro rfl
  exact h.elim (fun h => hn.1 h.2) fun h => hn.2 h.2

end

theorem decode_zero : isCsr 0#32 = false ∧ oRdwen 0#32 = false ∧ oLsuLden 0#32 = false ∧
    oLsuSten 0#32 = false ∧ csrChoose 0#32 = 0#3 ∧ isEcall 0#32 = false ∧ isMret 0#32 = false := by
  decide

/-! ## The instruction in write-back -/

/-- What MEM/WB holds for an instruction word at a pc, with what the stages before computed. -/
def LsWb.of (ins : Ins) (pc exres lsres csrRes csrData : Word) (mtimeInt : Bool) : LsWb where
  exres := exres
  lsres := lsres
  rdid := oRdid ins
  rdwen := oRdwen ins
  lden := oLsuLden ins
  sten := oLsuSten ins
  ins := ins
  pc := pc
  csr := csrId ins
  csrWen := Axi.csrWen (csrChoose ins)
  csrDataRes := csrRes
  exceptCode := Axi.exceptCode ins
  exceptEn := isEcall ins
  mret := isMret ins
  mtimeInt := mtimeInt
  csrToRf := Axi.csrToRf (csrChoose ins)
  csrData := csrData

namespace LsWb

variable (w : LsWb)

/-- It traps or returns from a trap. -/
def trap : Bool := w.exceptEn || w.mret

/-- It writes its destination register when it retires. -/
def wen : Bool := (w.rdwen || w.csrToRf) && !w.trap

/-- `wbu_rd`. -/
def rd : Word := wbu w.exres w.lsres w.lden w.csrToRf w.csrData

/-- The register write of its retirement. -/
def writes : List (RegId × Word) := if w.wen then [(w.rdid, w.rd)] else []

/-- What `csr` sees of it when no interrupt is enabled. -/
def csrIn (wbReady : Bool) : CsrIn where
  wdata := w.csrDataRes
  csrW := w.csr
  csrWen := w.csrWen
  exceptEn := w.exceptEn
  exceptCode := w.exceptCode
  exaddr := w.pc
  wbaddr := w.pc
  mret := w.mret
  mtimeInt := false
  wbIns := w.ins
  wbReady := wbReady

end LsWb

namespace Csr

variable (c : Csr) (w : LsWb) (r s : Bool)

/-- The CSRs without `keep`, which belongs to the bus. -/
def bare : Csr := { c with keep := false }

/-- The CSRs behind an edge with this instruction in write-back. -/
def settle : Csr := (c.step (w.csrIn r) false).bare

@[simp] theorem bare_read (n : BitVec 12) : c.bare.read n = c.read n := rfl

theorem settle_eq : c.settle w r =
    { keep := false
      mstatus :=
        if c.mstatus.getLsbD 3 && w.exceptEn then mstatusTrap c.mstatus
        else if (w.csrWen && w.csr == CSR_MSTATUS) && r then mstatusWrite w.csrDataRes
        else if w.mret then mstatusMret c.mstatus
        else c.mstatus
      mie := if (w.csrWen && w.csr == CSR_MIE) && r then w.csrDataRes else c.mie
      mtvec := if w.csrWen && w.csr == CSR_MTVEC then w.csrDataRes else c.mtvec
      mepc :=
        if w.exceptEn then alignPc w.pc
        else if w.csrWen && w.csr == CSR_MEPC then w.csrDataRes else c.mepc
      mcause :=
        if w.exceptEn then w.exceptCode
        else if w.csrWen && w.csr == CSR_MCAUSE then w.csrDataRes else c.mcause
      mip := if w.csrWen && w.csr == CSR_MIP then w.csrDataRes else c.mip &&& ~~~(1#64 <<< 11)
      mscratch := if w.csrWen && w.csr == CSR_MSCRATCH then w.csrDataRes else c.mscratch } := by
  simp only [settle, step, LsWb.csrIn, timeTrap, timeInt, writes, bare, Bool.false_and,
    Bool.or_false, Bool.not_false, Bool.and_true, Bool.false_eq_true, if_false]
  rfl

variable {c w r s}

/-- What acts twice acts as once, for an `mret` only acts in the cycle in which it flushes. -/
theorem settle_settle (hx : w.exceptEn = true → w.csr ≠ CSR_MSTATUS) (hm : w.mret = false) :
    (c.settle w s).settle w r = c.settle w (s || r) := by
  have hclear (x : Word) : x &&& ~~~(1#64 <<< 11) &&& ~~~(1#64 <<< 11) = x &&& ~~~(1#64 <<< 11) := by
    rw [BitVec.and_assoc, BitVec.and_self]
  simp only [settle_eq, hm, mk.injEq, true_and, Bool.false_eq_true, if_false]
  refine ⟨?_, ?_, ?_, ?_, ?_, ?_, ?_⟩
  · cases hex : w.exceptEn with
    | true =>
      have hne : (w.csr == CSR_MSTATUS) = false := by simpa using hx hex
      cases hb : c.mstatus.getLsbD 3 <;>
        simp only [hne, hb, getLsbD_mstatusTrap, Bool.and_false, Bool.and_true, Bool.false_and,
          if_true, Bool.false_eq_true, if_false]
    | false => cases (w.csrWen && w.csr == CSR_MSTATUS) <;> cases s <;> cases r <;> simp
  · cases (w.csrWen && w.csr == CSR_MIE) <;> cases s <;> cases r <;> rfl
  case refine_6 =>
    split_ifs
    · rfl
    · exact hclear _
  all_goals split_ifs <;> rfl

/-- Only `mstatus` and `mie` wait for the retirement. -/
theorem read_settle {n : BitVec 12}
    (h : w.csrWen = true → w.csr = n → n ≠ CSR_MSTATUS ∧ n ≠ CSR_MIE) :
    (c.settle w false).read n = (c.settle w true).read n := by
  have hno (hn : n = CSR_MSTATUS ∨ n = CSR_MIE) : (w.csrWen && w.csr == n) = false := by
    by_contra hw
    simp only [Bool.not_eq_false, Bool.and_eq_true, beq_iff_eq] at hw
    obtain ⟨hs, hi⟩ := h hw.1 hw.2
    exact hn.elim hs hi
  unfold read
  rw [settle_eq, settle_eq]
  by_cases h1 : n = CSR_MSTATUS
  · have hw := hno (.inl h1)
    rw [h1] at hw
    simp only [h1, hw, if_true, Bool.false_and]
  · by_cases h2 : n = CSR_MIE
    · have hw := hno (.inr h2)
      rw [h2] at hw
      have hne : CSR_MIE ≠ CSR_MSTATUS := by decide
      simp only [h2, hne, hw, if_true, if_false, Bool.false_and]
    · simp only [if_neg h1, if_neg h2]

end Csr

/-! ## The machine -/

/-- The state between two instructions. -/
structure Arch where
  pc : Word
  /-- The next word is fetched again, as the first one is when `keep` is low after reset. -/
  again : Bool
  rf : Regs
  mem : Mem
  csr : Csr
  mtimecmp : Word
  /-- The instruction words, which no store changes. -/
  code : Word → Ins
  /-- What `jalr_bp_tar_i` and `csrrci` hold. -/
  tarI : Word
  csrrci : Word

namespace Arch

variable (a : Arch)

def ins : Ins := a.code a.pc

def rs1 : Word := a.rf.read (oRs1id a.ins)

def rs2 : Word := a.rf.read (oRs2id a.ins)

/-- The result of the ALU, which is the address of a load or store. -/
def exres : Word := exu a.pc a.rs1 a.rs2 (oImm a.ins) (iduSrcSel a.ins) (iduExopt a.ins)

/-- What a load returns. A load of `mtime` has no meaning here. -/
def lsres : Word :=
  ldData (oLsuLden a.ins) (func3 a.ins)
    (memChooseData a.exres 0#64 a.mtimecmp (a.mem.content a.exres (memSize (func3 a.ins))))

def csrData : Word := a.csr.read (csrId a.ins)

def csrRes : Word := csrDataRes (csrChoose a.ins) a.csrData (csrWdata a.ins a.rs1) a.csrrci

/-- The instruction as it reaches write-back. -/
def lsWb : LsWb := LsWb.of a.ins a.pc a.exres a.lsres a.csrRes a.csrData false

def jump : Bool := Axi.jump a.ins a.rs1 a.rs2

/-- The memory behind a store. -/
def stored : Mem := a.mem.write a.exres (storeData (func3 a.ins) a.exres a.rs2)
  (storeMask (func3 a.ins) a.exres)

/-- The CSRs behind the instruction. -/
def nextCsr : Csr := a.csr.settle a.lsWb true

/-- Where the program goes on behind an instruction that does not trap. -/
def target : Word :=
  if a.jump then jumpPc a.ins a.pc a.rs1 a.tarI else if a.again then a.pc else a.pc + 4#64

def nextPc : Word :=
  if isEcall a.ins then a.nextCsr.mtvecPc else if isMret a.ins then a.csr.mepc else a.target

/-- One instruction. -/
def step : Arch where
  pc := a.nextPc
  again := false
  rf := a.rf.write a.lsWb.wen a.lsWb.rdid a.lsWb.rd
  mem := if oLsuSten a.ins then a.stored else a.mem
  csr := a.nextCsr
  mtimecmp := if oLsuSten a.ins && a.exres == MTIMECMP then a.rs2 else a.mtimecmp
  code := a.code
  tarI := a.tarI
  csrrci := a.csrrci

/-- The state before instruction `k` of the execution from `a`. -/
def exec (k : Nat) : Arch := step^[k] a

@[simp] theorem exec_zero : a.exec 0 = a := rfl

theorem exec_succ (k : Nat) : a.exec (k + 1) = (a.exec k).step := by
  simp only [exec, Function.iterate_succ_apply']

/-- The register writes of the first `k` instructions. -/
def writes (k : Nat) : List (RegId × Word) := history (fun j => (a.exec j).lsWb.writes) k

/-- The same state with a bubble at `pc` instead of the next instruction. -/
def bubble (pc : Word) : Arch := { a with pc := pc, code := fun _ => 0#32 }

end Arch

/-- The reference machine that starts with a system after reset. -/
def System.arch (y : System) : Arch where
  pc := PC_START
  again := !y.core.csr.keep
  rf := y.core.rf
  mem := y.slave.mem
  csr := y.core.csr.bare
  mtimecmp := y.core.clint.mtimecmp
  code := y.slave.mem.code
  tarI := y.core.bru.tarI
  csrrci := y.core.csrrci

/-! ## Bubbles -/

/-- An instruction that is none of `SYSTEM` leaves the CSRs alone, but for that bit. -/
theorem Csr.settle_of_not_isCsr {c : Csr} {ins : Ins} {pc x l d t : Word} {mt r : Bool}
    (h : isCsr ins = false) : c.settle (.of ins pc x l d t mt) r =
      { c.bare with mip := c.mip &&& ~~~(1#64 <<< 11) } := by
  have hno : csrWen (csrChoose ins) = false := by rw [choose_of_not_isCsr h]; rfl
  simp [settle_eq, LsWb.of, isEcall, isMret, h, hno, bare]

namespace Arch

variable {a : Arch} {pc : Word}

@[simp] theorem bubble_ins : (a.bubble pc).ins = 0#32 := rfl

theorem cleared_step (h : isCsr a.ins = false) : a.step.csr.Cleared := by
  change (a.csr.settle _ true).Cleared
  rw [lsWb, Csr.settle_of_not_isCsr h]
  change a.csr.mip &&& _ &&& _ = _
  rw [BitVec.and_assoc, BitVec.and_self]

theorem lsWb_wen (a : Arch) : a.lsWb.wen =
    ((oRdwen a.ins || csrToRf (csrChoose a.ins)) && !(isEcall a.ins || isMret a.ins)) := by
  simp only [lsWb, LsWb.wen, LsWb.trap, LsWb.of]

theorem bubble_wen : (a.bubble pc).lsWb.wen = false := by
  rw [lsWb_wen, bubble_ins]
  decide

@[simp] theorem writes_bubble : (a.bubble pc).lsWb.writes = [] := by
  simp [LsWb.writes, bubble_wen]

/-- A bubble does nothing. -/
theorem bubble_rf : (a.bubble pc).step.rf = a.rf := by
  change a.rf.write _ _ _ = a.rf
  rw [bubble_wen, Regs.write_false]

theorem bubble_mem : (a.bubble pc).step.mem = a.mem := by
  simp only [step, bubble_ins, decode_zero, Bool.false_eq_true, if_false]
  rfl

theorem bubble_mtimecmp : (a.bubble pc).step.mtimecmp = a.mtimecmp := by
  simp only [step, bubble_ins, decode_zero, Bool.false_and, Bool.false_eq_true, if_false]
  rfl

theorem bubble_settle (hk : a.csr.keep = false) (h : a.csr.Cleared) (r : Bool) :
    a.csr.settle (a.bubble pc).lsWb r = a.csr := by
  have hmip : a.csr.mip &&& ~~~(1#64 <<< 11) = a.csr.mip := h
  rw [lsWb, bubble_ins, Csr.settle_of_not_isCsr decode_zero.1, hmip]
  cases hc : a.csr with
  | mk keep => rw [hc] at hk; cases hk; rfl

theorem bubble_csr (hk : a.csr.keep = false) (h : a.csr.Cleared) :
    (a.bubble pc).step.csr = a.csr := bubble_settle hk h true

end Arch

/-! ## Where the pipeline goes wrong -/

/-- The instruction reads this register: `idu` for its operands, or `exu` for `csr_wdata`. -/
def readsReg (ins : Ins) (a : RegId) : Bool :=
  !(a == 0#5) &&
    if isCsr ins then
      (func3 ins = FUNC3_CSRRW || func3 ins = FUNC3_CSRRS || func3 ins = FUNC3_CSRRC) &&
        oRs1id ins == a
    else oRs1id ins == a || oRs2id ins == a

/-- The instruction right behind this one reads what it has not written yet: the result of a CSR
instruction, a register through the unforwarded `csr_wdata`, or `mstatus` or `mie`. -/
def LsWb.withholds (w : LsWb) (ins : Ins) : Bool :=
  (w.csrToRf || w.rdwen && isCsr ins) && readsReg ins w.rdid ||
    w.csrWen && (w.csr == CSR_MSTATUS || w.csr == CSR_MIE) && Axi.csrToRf (csrChoose ins) &&
      csrId ins == w.csr

namespace System

variable (y : System) (i : AxiIn)

/-- A fetch completes while an instruction in MEM traps or withholds something from it. -/
def sysHazard : Bool :=
  y.core.ifReadyAxi i && y.core.exLs.valid &&
    ((y.core.toLsWb i).trap || (y.core.toLsWb i).withholds (y.core.toIfId i).ins)

/-- An `ecall` goes to a vector before its cause is recorded. -/
def staleCause : Bool :=
  y.core.ifReadyAxi i && y.core.lsWb.data.exceptEn &&
    !(y.core.csr.mtvec.extractLsb' 0 2 == 0#2) && !(y.core.csr.mcause == y.core.lsWb.data.exceptCode)

/-- A store enters MEM with write-back empty when a read ends, and takes the completion for its own:
the id of the last write response is still on the bus. -/
def storeAnswered : Bool :=
  y.core.idEx.valid && y.core.idEx.data.sten && y.core.rw.rDone y.core.req i && i.bId == 2#4 &&
    !y.core.lsWb.valid

/-- None of the four, and no two-beat read is disturbed. -/
def smooth : Bool :=
  !y.splitRead i && !y.sysHazard i && !y.staleCause i && !y.storeAnswered i

/-- The timer interrupt is disabled. -/
def masked : Bool := !(y.core.csr.mstatus.getLsbD 3 && y.core.csr.mie.getLsbD 7)

/-- A load of `mtime` is in MEM. -/
def loadsMtime : Bool :=
  y.core.exLs.valid && y.core.exLs.data.lden && y.core.exLs.data.exres == MTIME

/-- The register write of this cycle. -/
def regWrites : List (RegId × Word) :=
  if y.core.rfWen i then [(y.core.lsWb.data.rdid, y.core.wbuRd)] else []

end System

end Oscpu.Axi
