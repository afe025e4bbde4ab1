import Oscpu.Axi.WriteBack

/-!
# The younger instruction

One instruction at most is in ID, EX or MEM, and its word is in IF/ID as long as it is there. `Young`
says that the registers hold what the machine computes for it, and there is one lemma for each stage
that it goes through. What it reads of the older one is what write-back leaves behind, unless that is
withheld from it.
-/

namespace Oscpu.Axi

open Oscpu.Rtl Oscpu.Lib

/-- What ID/EX holds for an instruction word at a pc, with its operands. -/
def IdEx.of (ins : Ins) (pc rs1 rs2 csrWdata : Word) (ldstbp mtimeInt : Bool) : IdEx where
  imm := oImm ins
  rs1 := rs1
  rs2 := rs2
  rdid := oRdid ins
  rdwen := oRdwen ins
  srcSel := iduSrcSel ins
  exopt := iduExopt ins
  func3 := Rtl.func3 ins
  lden := oLsuLden ins
  sten := oLsuSten ins
  ldstbp := ldstbp
  pc := pc
  csr := csrId ins
  csrWdata := csrWdata
  csrChoose := Axi.csrChoose ins
  exceptCode := Axi.exceptCode ins
  exceptEn := isEcall ins
  mret := isMret ins
  mtimeInt := mtimeInt
  ins := ins

/-- What EX/MEM holds. -/
def ExLs.of (ins : Ins) (pc exres rs2 csrRes csrData : Word) (mtimeInt : Bool) : ExLs where
  exres := exres
  rs2 := rs2
  rdid := oRdid ins
  rdwen := oRdwen ins
  func3 := Rtl.func3 ins
  lden := oLsuLden ins
  sten := oLsuSten ins
  ins := ins
  pc := pc
  csr := csrId ins
  csrWen := Axi.csrWen (csrChoose ins)
  csrDataRes := csrRes
  exceptCode := Axi.exceptCode ins
  exceptEn := isEcall ins
  mret := isMret ins
  mtimeInt := mtimeInt
  csrToRf := Axi.csrToRf (csrChoose ins)
  csrData := csrData

/-- ID/EX holds the instruction that the reference machine executes from `b`. -/
structure IdEx.Holds (e : IdEx) (b : Arch) : Prop where
  eq : e = .of b.ins b.pc e.rs1 e.rs2 e.csrWdata e.ldstbp e.mtimeInt
  rs1 : isCsr b.ins = false → e.rs1 = b.rs1
  rs2 : isCsr b.ins = false → e.rs2 = b.rs2

structure ExLs.Holds (m : ExLs) (b : Arch) : Prop where
  eq : m = .of b.ins b.pc m.exres m.rs2 m.csrDataRes m.csrData m.mtimeInt
  exres : isCsr b.ins = false → m.exres = b.exres
  rs2 : oLsuSten b.ins = true → m.rs2 = b.rs2
  csrRes : Axi.csrWen (csrChoose b.ins) = true → m.csrDataRes = b.csrRes
  csrData : Axi.csrToRf (csrChoose b.ins) = true → m.csrData = b.csrData

/-! ## The younger instruction -/

namespace Core

variable (s : Core)

/-- An instruction or a bubble is in ID, EX or MEM. -/
def busy : Bool := s.ifId.valid || s.idEx.valid || s.exLs.valid

end Core

/-- The instruction in ID, EX or MEM is the one that the machine executes from `b`. -/
structure Young (y : System) (b : Arch) : Prop where
  word : y.core.busy = true → y.core.ifId.data = ⟨b.ins, b.pc⟩
  calm : (y.core.ifId.valid || y.core.idEx.valid) = true → y.core.lsWb.valid = true →
    y.core.lsWb.data.withholds b.ins = false
  ex : y.core.idEx.valid = true → y.core.idEx.data.Holds b ∧
    (jalrBp b.ins = true → y.core.bru.tarO = b.tarI)
  mem : y.core.exLs.valid = true → y.core.exLs.data.Holds b ∧ y.core.idEx.data.pc = b.pc

/-- `b` is `a` as far as an instruction reads it. -/
structure Arch.Same (b a : Arch) : Prop where
  rf : b.rf = a.rf
  mem : b.mem = a.mem
  csr : b.csr = a.csr
  mtimecmp : b.mtimecmp = a.mtimecmp

/-- What nothing writes. -/
structure Wired (y : System) (b : Arch) : Prop where
  tarI : y.core.bru.tarI = b.tarI
  csrrci : y.core.csrrci = b.csrrci

namespace Occ

variable {y : System} {i : AxiIn}

theorem toIdEx_eq (hfl : y.core.flush i = false) (he : y.core.idEx.valid = false) :
    y.core.toIdEx i = .of y.core.ifId.data.ins y.core.ifId.data.pc (y.core.iduRs1 i)
      (y.core.iduRs2 i) y.core.idCsrWdata y.core.iduLdstbp y.core.clint.mtimeInt := by
  simp only [Core.toIdEx, hfl, not_pcStall he, Bool.false_eq_true, if_false]
  rfl

/-- With EX and MEM empty, only write-back forwards. -/
theorem bypassRs_of_empty (he : y.core.idEx.valid = false) (hm : y.core.exLs.valid = false)
    (r : RegId) : y.core.bypassRs i r = y.core.older r := by
  simp [Core.bypassRs, Core.older, he, memValid_of_empty hm]

end Occ

namespace Young

variable {y : System} {i : AxiIn} {a b : Arch} {out : List (RegId × Word)}

theorem of_free (hfree : y.core.busy = false) : Young y b := by
  simp only [Core.busy, Bool.or_eq_false_iff] at hfree
  obtain ⟨⟨hid, hex⟩, hmem⟩ := hfree
  refine ⟨?_, ?_, ?_, ?_⟩ <;> simp [Core.busy, hid, hex, hmem]

variable (h : Young y b) (hb : Back y a out) (hs : b.Same a)
include h hb hs

theorem operands (hv : (y.core.ifId.valid || y.core.idEx.valid) = true)
    (hins : isCsr b.ins = false) :
    y.core.older (oRs1id b.ins) = b.rs1 ∧ y.core.older (oRs2id b.ins) = b.rs2 := by
  rw [Arch.rs1, Arch.rs2, hs.rf]
  exact ⟨hb.older_eq (h.calm hv) hins (.inl rfl), hb.older_eq (h.calm hv) hins (.inr rfl)⟩

/-- From ID to EX. -/
theorem step_id (ho : Occ y) (hw : Wired y b) (hfl : y.core.flush i = false)
    (hid : y.core.ifId.valid = true) : Young (y.step i) b := by
  obtain ⟨he, hm, hr, -⟩ := ho.id hid
  have hf : y.core.ifReadyAxi i = false := by simp [Core.ifReadyAxi, hr]
  have hword : y.core.ifId.data = ⟨b.ins, b.pc⟩ := h.word (by simp [Core.busy, hid])
  have hins : y.core.ifId.data.ins = b.ins := congrArg IfId.ins hword
  have hpc : y.core.ifId.data.pc = b.pc := congrArg IfId.pc hword
  have hl : y.core.leaves i = false := by simp [Core.leaves, Occ.memValid_of_empty hm]
  have hvmem : (y.step i).core.exLs.valid = false := by
    rw [Occ.step_mem_of_not_ex he]
    simp [Core.exReady, Stage.ready, hm]
  refine ⟨?_, ?_, fun _ => ⟨?_, ?_⟩, ?_⟩
  · intro _
    rw [Occ.step_ifId_of_quiet hf hfl, hword]
  · intro _ hv
    have hold : y.core.lsWb.valid = true := by
      by_contra hn
      rw [Occ.step_wb_of_stay hl (.inl (Bool.eq_false_iff.2 hn))] at hv
      exact Bool.false_ne_true hv
    rw [Occ.step_lsWb_of_quiet hl hfl]
    exact h.calm (by simp [hid]) hold
  · have hop := h.operands hb hs (by simp [hid])
    rw [ho.step_idEx_of_id hid, Occ.toIdEx_eq hfl he, Core.iduRs1, Core.iduRs2,
      Occ.bypassRs_of_empty he hm, Occ.bypassRs_of_empty he hm, hins, hpc]
    exact ⟨rfl, fun hn => (hop hn).1, fun hn => (hop hn).2⟩
  · intro hj
    change (y.core.bruStep i false).tarO = _
    simp [Core.bruStep, Core.brHs, hid, ho.idReady i, hins, hj, hw.tarI]
  · intro hv
    rw [hvmem] at hv
    exact absurd hv Bool.false_ne_true

end Young

theorem csrDataRes_congr {ch : BitVec 3} {d d' v v' rc : Word}
    (hd : csrToRf ch = true → d = d') (hv : v = v') :
    csrDataRes ch d v rc = csrDataRes ch d' v' rc := by
  unfold csrDataRes
  split_ifs with h4 h2 h1
  · exact hv
  · rw [hd (by rw [h2]; rfl), hv]
  · rw [hd (by rw [h1]; rfl)]
  · rfl

namespace IdEx.Holds

variable {y : System} {i : AxiIn} {b : Arch}

theorem exuExres (h : y.core.idEx.data.Holds b) (hins : isCsr b.ins = false) :
    y.core.exuExres = b.exres := by
  have hexu : y.core.exuExres = exu y.core.idEx.data.pc y.core.idEx.data.rs1 y.core.idEx.data.rs2
      y.core.idEx.data.imm y.core.idEx.data.srcSel y.core.idEx.data.exopt := rfl
  rw [hexu, h.rs1 hins, h.rs2 hins, h.eq]
  rfl

theorem toExLs (h : y.core.idEx.data.Holds b) (hfl : y.core.flush i = false) :
    y.core.toExLs i = .of b.ins b.pc y.core.exuExres (y.core.exuRs2 i) y.core.exCsrDataRes
      y.core.csrData y.core.idEx.data.mtimeInt := by
  simp only [Core.toExLs, hfl, Bool.false_eq_true, if_false]
  rw [h.eq]
  rfl

end IdEx.Holds

namespace Young

variable {y : System} {i : AxiIn} {a b : Arch} {out : List (RegId × Word)}
  (h : Young y b) (hb : Back y a out) (hs : b.Same a)
include h hb hs

/-- A store takes its data from ID/EX or, behind a load, from the registers again. -/
theorem exuRs2_eq (hbh : Behind y) (hex : y.core.idEx.valid = true)
    (hst : oLsuSten b.ins = true) : y.core.exuRs2 i = b.rs2 := by
  have hword : y.core.ifId.data = ⟨b.ins, b.pc⟩ := h.word (by simp [Core.busy, hex])
  have hins : y.core.ifId.data.ins = b.ins := congrArg IfId.ins hword
  have hcsr : isCsr b.ins = false := not_isCsr_of_sten hst
  have hidu : y.core.iduRs2 i = b.rs2 := by
    rw [Core.iduRs2, hins, hbh.bypassRs_eq i (by rw [hins]; exact .inl (not_rdwen_of_sten hst))]
    exact (h.operands hb hs (by simp [hex]) hcsr).2
  unfold Core.exuRs2
  rw [hidu, (h.ex hex).1.rs2 hcsr, ite_self]

theorem exCsrDataRes_eq (hw : Wired y b) (hex : y.core.idEx.valid = true)
    (hwen : csrWen (csrChoose b.ins) = true) : y.core.exCsrDataRes = b.csrRes := by
  have hword : y.core.ifId.data = ⟨b.ins, b.pc⟩ := h.word (by simp [Core.busy, hex])
  have hcalm := h.calm (by simp [hex])
  have hch : y.core.idEx.data.csrChoose = csrChoose b.ins :=
    congrArg IdEx.csrChoose (h.ex hex).1.eq
  have hcsr : y.core.idEx.data.csr = csrId b.ins := congrArg IdEx.csr (h.ex hex).1.eq
  rw [Core.exCsrDataRes, hch, hw.csrrci, Arch.csrRes]
  refine csrDataRes_congr ?_ ?_
  · intro hrs
    rw [Core.csrData, hcsr, hb.csrData_eq hcalm hex hrs, ← hs.csr]
    rfl
  · rw [Core.idCsrWdata, Core.regfileRs1, hword, hb.csrWdata_eq hcalm hwen, Arch.rs1, hs.rf]

/-- From EX to MEM. -/
theorem step_ex (ho : Occ y) (hbh : Behind y) (hw : Wired y b) (hfl : y.core.flush i = false)
    (hex : y.core.idEx.valid = true) : Young (y.step i) b := by
  obtain ⟨hm, hr⟩ := ho.ex hex
  have hid := ho.not_id_of_ex hex
  have hf : y.core.ifReadyAxi i = false := by simp [Core.ifReadyAxi, hr]
  have hold := (h.ex hex).1
  have hcsr : y.core.idEx.data.csr = csrId b.ins := congrArg IdEx.csr hold.eq
  have hvid : (y.step i).core.ifId.valid = false := by rw [ho.step_id, hf]
  have hvex : (y.step i).core.idEx.valid = false := by rw [ho.step_ex, hid]
  refine ⟨?_, ?_, ?_, fun _ => ⟨?_, ?_⟩⟩
  · intro _
    rw [Occ.step_ifId_of_quiet hf hfl]
    exact h.word (by simp [Core.busy, hex])
  · intro hv
    rw [hvid, hvex] at hv
    exact absurd hv Bool.false_ne_true
  · intro hv
    rw [hvex] at hv
    exact absurd hv Bool.false_ne_true
  · rw [ho.step_exLs_of_ex hex, hold.toExLs hfl]
    refine ⟨rfl, fun hn => hold.exuExres hn, fun hst => h.exuRs2_eq hb hs hbh hex hst,
      fun hwen => h.exCsrDataRes_eq hb hs hw hex hwen, ?_⟩
    intro hrs
    change y.core.csr.read y.core.idEx.data.csr = b.csr.read _
    rw [hcsr, hb.csrData_eq (h.calm (by simp [hex])) hex hrs, hs.csr]
  · rw [Occ.step_idEx_of_quiet hid hfl]
    exact congrArg IdEx.pc hold.eq

end Young

namespace Young

variable {y : System} {i : AxiIn} {b : Arch} (h : Young y b)
include h

/-- Waiting in MEM. -/
theorem step_mem (ho : Occ y) (hfl : y.core.flush i = false) (hm : y.core.exLs.valid = true)
    (hl : y.core.leaves i = false) : Young (y.step i) b := by
  have hr : y.core.exReady i = false := (Occ.exReady_of_mem hm).trans hl
  have hf : y.core.ifReadyAxi i = false := by
    by_contra hf
    rw [Occ.exReady_of_fetch (Bool.eq_true_of_not_eq_false hf)] at hr
    exact Bool.false_ne_true hr.symm
  have hid := ho.not_id_of_mem hm
  have hsame := ho.step_exLs_of_hold hm hr hfl
  have hvid : (y.step i).core.ifId.valid = false := by rw [ho.step_id, hf]
  have hvex : (y.step i).core.idEx.valid = false := by rw [ho.step_ex, hid]
  refine ⟨?_, ?_, ?_, ?_⟩
  · intro _
    rw [Occ.step_ifId_of_quiet hf hfl]
    exact h.word (by simp [Core.busy, hm])
  · intro hv
    rw [hvid, hvex] at hv
    exact absurd hv Bool.false_ne_true
  · intro hv
    rw [hvex] at hv
    exact absurd hv Bool.false_ne_true
  · intro _
    rw [hsame, Occ.step_idEx_of_quiet hid hfl]
    exact h.mem hm

/-- What write-back takes over, when a load reads the memory and `mtimecmp` of the machine. -/
theorem toLsWb_holds (hm : y.core.exLs.valid = true) (hfl : y.core.flush i = false)
    (hmtime : y.loadsMtime = false)
    (hcmp : oLsuLden b.ins = true → y.core.clint.mtimecmp = b.mtimecmp)
    (hload : oLsuLden b.ins = true →
      y.core.memDataRead i = b.mem.content b.exres (memSize (func3 b.ins))) :
    (y.core.toLsWb i).Holds b := by
  have hold := (h.mem hm).1
  have hdata : y.core.toLsWb i = .of b.ins b.pc y.core.exLs.data.exres (y.core.lsuLsres i)
      y.core.exLs.data.csrDataRes y.core.exLs.data.csrData y.core.exLs.data.mtimeInt := by
    simp only [Core.toLsWb, hfl, Bool.false_eq_true, if_false]
    rw [hold.eq]
    simp only [ExLs.of, LsWb.of]
  have hlden : y.core.exLs.data.lden = oLsuLden b.ins := congrArg ExLs.lden hold.eq
  have hf3 : y.core.exLs.data.func3 = func3 b.ins := congrArg ExLs.func3 hold.eq
  rw [hdata]
  refine LsWb.holds_of (fun hrd => hold.exres (not_isCsr_of_rdwen hrd)) ?_ hold.csrRes hold.csrData
  intro hrd
  have hx := hold.exres (not_isCsr_of_rdwen hrd)
  change y.core.lsuLsres i = b.lsres
  rw [Core.lsuLsres, Arch.lsres, hlden, hf3, hx]
  cases hl : oLsuLden b.ins with
  | false =>
    have hno (d : Word) : ldData false (func3 b.ins) d = 0#64 := rfl
    rw [hno, hno]
  | true =>
    have hne : b.exres ≠ MTIME := by
      simpa [System.loadsMtime, hm, hlden, hl, hx] using hmtime
    rw [hcmp hl, hload hl]
    unfold memChooseData
    rw [if_neg hne, if_neg hne]

end Young

end Oscpu.Axi
