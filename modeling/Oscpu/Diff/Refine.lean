import Oscpu.Diff.Reference
import Oscpu.Diff.SimTop

/-!
# The pipeline of `cpu_diff` refines the reference machine

Between two edges the pipeline holds up to four instructions of the execution: one in ID that has
not issued, and at most one each in EX, MEM and WB. `Sim` places them: `w` instructions have written
back, and the flags `bw`, `bm`, `be` say which stages carry one. The register file is then that of
instruction `w` and the RAM that of the instruction in MEM.
-/

namespace Oscpu.Diff

open Oscpu.Rtl Oscpu.Lib

/-! ## Handshakes -/

namespace Core

variable (s : Core)

@[simp] theorem memReady_eq : s.memReady = true := by simp [memReady]

@[simp] theorem exeReady_eq : s.exeReady = true := by simp [exeReady]

@[simp] theorem idReady_eq : s.idReady = true := by simp [idReady]

@[simp] theorem ifReady_eq : s.ifReady = true := by simp [ifReady]

/-- Every stage moves at every edge, IF/ID and the pc unless there is a bubble. -/
theorem step_false : s.step false =
    { pc := if s.idexBubble then s.pc else s.nextPc
      ifId := ⟨true, if s.idexBubble then s.ifId.data else s.toIfId⟩
      idEx := ⟨s.ifId.valid, if s.ifId.valid then s.toIdEx else s.idEx.data⟩
      exLs := ⟨true, s.toExLs⟩
      lsWb := ⟨s.exLs.valid, if s.exLs.valid then s.toLsWb else s.lsWb.data⟩
      rf := s.rf.write s.lsWb.data.rdwen s.lsWb.data.rdid s.wbuRd
      ram := Ram.write s.ram s.exLs.data.sten (ramIdx s.exLs.data.exres) s.memWdata
        (lsuWmask s.exLs.data.func3 s.exLs.data.exres)
      regldQ := s.lsuLsres
      wdataQ := s.memWdata } := by
  unfold step
  cases s.idexBubble <;> simp [stlReg, Stage.nextValid]

/-! ## Pending writes -/

/-- The register that EX forwards; a load in EX forwards nothing. -/
def exWrite : Write RegId Word :=
  if !s.idEx.data.lden && s.idEx.data.rdwen then some (s.idEx.data.rdid, s.exuExres) else none

def memWrite : Write RegId Word :=
  if s.exLs.data.rdwen then some (s.exLs.data.rdid, s.memRd) else none

def wbWrite : Write RegId Word :=
  if s.lsWb.data.rdwen then some (s.lsWb.data.rdid, s.wbuRd) else none

/-- `bypass` is forwarding through the three stages. -/
theorem bypassRs_eq (q : RegId) :
    s.bypassRs q = forward s.rf.read q [s.exWrite, s.memWrite, s.wbWrite] := by
  have hcons (b : Bool) (k : RegId) (v : Word) (ws : List (Write RegId Word)) :
      forward s.rf.read q ((if b then some (k, v) else none) :: ws) =
        if b && k == q then v else forward s.rf.read q ws := by
    cases b <;> simp [forward]
  unfold bypassRs exWrite memWrite wbWrite
  rw [hcons, hcons, hcons]
  rfl

end Core

/-! ## Units whose unused inputs are free -/

theorem exu_imm (pc rs1 rs2 rs2' imm : Word) (opt : BitVec 6) :
    exu pc rs1 rs2 imm EXU_SEL_IMM opt = exu pc rs1 rs2' imm EXU_SEL_IMM opt := by
  have hkeys (a b c d : Word) : ([(EXU_SEL_REG, a), (EXU_SEL_IMM, b), (EXU_SEL_PC4, c),
      (EXU_SEL_PCI, d)].map Prod.fst).Nodup := by
    simp [EXU_SEL_REG, EXU_SEL_IMM, EXU_SEL_PC4, EXU_SEL_PCI]
  have hreg : (EXU_SEL_IMM == EXU_SEL_REG) = false := by decide
  simp only [exu]
  rw [stlMuxDefault_concatLut _ _ (hkeys ..), stlMuxDefault_concatLut _ _ (hkeys rs2 ..),
    stlMuxDefault_concatLut _ _ (hkeys rs2' ..)]
  simp [List.lookup_cons, hreg]

/-- Under the mask the data of a store does not depend on what the latch held. -/
theorem lsuWdata_and_lsuWmask (f3 : BitVec 3) (addr v held held' : Word) :
    lsuWdata true f3 v held &&& lsuWmask f3 addr = lsuWdata true f3 v held' &&& lsuWmask f3 addr := by
  unfold lsuWdata lsuWmask
  -- the held value shows in the default case only, where the mask is zero
  split_ifs <;> simp_all

/-- A RAM write reads the data under the mask only. -/
theorem Ram.write_congr (ram : Ram) (wen : Bool) (idx : Word) {d d' m : Word}
    (h : d &&& m = d' &&& m) : Ram.write ram wen idx d m = Ram.write ram wen idx d' m := by
  unfold Ram.write
  rw [h]

theorem wbu_lsuRegld (exres : Word) (lden : Bool) (f3 : BitVec 3) (addr rdata held held' : Word) :
    wbu exres (lsuRegld lden f3 addr rdata held) lden =
      wbu exres (lsuRegld true f3 addr rdata held') lden := by
  cases lden <;> rfl

/-! ## What the stages carry -/

namespace Core

/-- The write of the register file at the next edge. -/
def rfWrites (s : Core) (_ : Bool) : List (RegId × Word) := s.wbWrite.toList

/-- The write of the RAM at the next edge. -/
def ramWrites (s : Core) (_ : Bool) : List RamWrite :=
  let mask := lsuWmask s.exLs.data.func3 s.exLs.data.exres
  if s.exLs.data.sten then [(ramIdx s.exLs.data.exres, mask, s.memWdata &&& mask)] else []

end Core

/-- MEM carries the instruction that `r` executes, or nothing that acts. -/
structure MemSlot (r : Arch) (busy : Bool) (s : Core) : Prop where
  idle : busy = false → s.exLs.data.rdwen = false ∧ s.exLs.data.sten = false
  exres : busy = true → s.exLs.data.exres = r.exres
  rs2 : busy = true → s.exLs.data.rs2 = r.rs2
  rdid : busy = true → s.exLs.data.rdid = r.rdid
  rdwen : busy = true → s.exLs.data.rdwen = r.rdwen
  func3 : busy = true → s.exLs.data.func3 = func3 r.ins
  lden : busy = true → s.exLs.data.lden = r.lden
  sten : busy = true → s.exLs.data.sten = r.sten

/-- EX carries the instruction that `r` executes, or nothing that acts. The data of a store is what
EX sends on, since the shortcut takes it from the load in MEM. -/
structure ExSlot (r : Arch) (busy : Bool) (s : Core) : Prop where
  idle : busy = false → s.idEx.data.rdwen = false ∧ s.idEx.data.sten = false
  exres : busy = true → s.exuExres = r.exres
  rs2 : busy = true → s.exuRs2 = r.rs2
  rdid : busy = true → s.idEx.data.rdid = r.rdid
  rdwen : busy = true → s.idEx.data.rdwen = r.rdwen
  func3 : busy = true → s.idEx.data.func3 = func3 r.ins
  lden : busy = true → s.idEx.data.lden = r.lden
  sten : busy = true → s.idEx.data.sten = r.sten

theorem MemSlot.of_idle {r : Arch} {s : Core}
    (h : s.exLs.data.rdwen = false ∧ s.exLs.data.sten = false) : MemSlot r false s :=
  ⟨fun _ => h, nofun, nofun, nofun, nofun, nofun, nofun, nofun⟩

theorem ExSlot.of_idle {r : Arch} {s : Core}
    (h : s.idEx.data.rdwen = false ∧ s.idEx.data.sten = false) : ExSlot r false s :=
  ⟨fun _ => h, nofun, nofun, nofun, nofun, nofun, nofun, nofun⟩

/-- The words without an effect: what a squash loads and what the boot words are. -/
def IsNop (ins : Ins) : Prop := ins = 0x13#32 ∨ ins = 0#32

/-- ID holds the next instruction, or a word without effect and the pc is about to fetch it. -/
inductive IdSlot (r : Arch) (s : Core) : Prop
  | held (hins : s.ifId.data.ins = r.ins) (hpc : s.ifId.data.pc = r.pc)
      (hnext : s.pc = r.pc + 4#64)
  | empty (hins : IsNop s.ifId.data.ins) (hpc : s.pc = r.pc)

/-- The pipeline in the middle of the execution from `a`. -/
structure Sim (a : Arch) (s : Core) (w : Nat) (bw bm be : Bool) : Prop where
  ifValid : s.ifId.valid = true
  exValid : s.exLs.valid = true
  rf : s.rf = (a.exec w).regs
  wb : s.wbWrite = if bw then (a.exec w).rfWrite else none
  ram : s.ram = (a.exec (w + bw.toNat)).ram
  mem : MemSlot (a.exec (w + bw.toNat)) bm s
  ex : ExSlot (a.exec (w + bw.toNat + bm.toNat)) be s
  id : IdSlot (a.exec (w + bw.toNat + bm.toNat + be.toNat)) s

namespace Arch

variable (a : Arch)

theorem read_exec_add (k : Nat) (b : Bool) : (a.exec (k + b.toNat)).regs.read =
    commit (a.exec k).regs.read (if b then (a.exec k).rfWrite else none) := by
  cases b with
  | false => rfl
  | true => exact (congrArg (fun r : Arch => r.regs.read) (a.exec_succ k)).trans (read_step _)

end Arch

/-! ## Words without an effect -/

section

variable {ins : Ins}

theorem IsNop.rdwen (h : IsNop ins) : oRdwen ins = false := by
  rcases h with rfl | rfl <;> decide

theorem IsNop.lden (h : IsNop ins) : oLsuLden ins = false := by
  rcases h with rfl | rfl <;> decide

theorem IsNop.sten (h : IsNop ins) : oLsuSten ins = false := by
  rcases h with rfl | rfl <;> decide

theorem IsNop.rs1id (h : IsNop ins) : oRs1id ins = 0#5 := by
  rcases h with rfl | rfl <;> decide

theorem IsNop.rs2id (h : IsNop ins) : oRs2id ins = 0#5 := by
  rcases h with rfl | rfl <;> decide

theorem IsNop.jump (h : IsNop ins) (rs1 rs2 : Word) : jump ins rs1 rs2 = false := by
  have hop : oBrch ins = false ∧ oJal ins = false ∧ oJalr ins = false := by
    rcases h with rfl | rfl <;> decide
  simp [Diff.jump, hop]

end

/-! ## Forwarding in a simulated state -/

namespace Sim

variable {a : Arch} {s : Core} {w : Nat} {bw bm be : Bool}

theorem wbuLsres_eq (h : Sim a s w bw bm be) (hb : bm = true) :
    wbu s.exLs.data.exres s.lsuLsres s.exLs.data.lden = (a.exec (w + bw.toNat)).rd := by
  unfold Core.lsuLsres
  rw [wbu_lsuRegld _ _ _ _ _ _ 0#64, h.mem.exres hb, h.mem.func3 hb, h.mem.lden hb, h.ram]
  rfl

theorem memWrite_eq (h : Sim a s w bw bm be) :
    s.memWrite = if bm then (a.exec (w + bw.toNat)).rfWrite else none := by
  cases bm with
  | false => simp [Core.memWrite, h.mem.idle rfl]
  | true =>
    have hrd : s.memRd = (a.exec (w + bw.toNat)).rd := h.wbuLsres_eq rfl
    simp [Core.memWrite, Arch.rfWrite, h.mem.rdwen rfl, h.mem.rdid rfl, hrd]

theorem exWrite_eq (h : Sim a s w bw bm be) (hl : s.idEx.data.lden = false) :
    s.exWrite = if be then (a.exec (w + bw.toNat + bm.toNat)).rfWrite else none := by
  cases be with
  | false => simp [Core.exWrite, h.ex.idle rfl]
  | true =>
    have hrl : (a.exec (w + bw.toNat + bm.toNat)).lden = false := (h.ex.lden rfl).symm.trans hl
    have hrd : s.exuExres = (a.exec (w + bw.toNat + bm.toNat)).rd := by
      rw [h.ex.exres rfl, Arch.rd, hrl]
      rfl
    simp [Core.exWrite, Arch.rfWrite, hl, h.ex.rdwen rfl, h.ex.rdid rfl, hrd]

/-- A register of ID reads as in the execution, unless a load in EX is about to write it. -/
theorem bypassRs_eq (h : Sim a s w bw bm be) (q : RegId)
    (hq : s.idEx.data.lden = true → s.idEx.data.rdwen = true → s.idEx.data.rdid ≠ q) :
    s.bypassRs q = (a.exec (w + bw.toNat + bm.toNat + be.toNat)).regs.read q := by
  have hmem : forward s.rf.read q [s.memWrite, s.wbWrite] =
      (a.exec (w + bw.toNat + bm.toNat)).regs.read q := by
    rw [forward_eq, h.memWrite_eq, h.wb, h.rf, Arch.read_exec_add, Arch.read_exec_add]
    rfl
  rw [Core.bypassRs_eq, Arch.read_exec_add]
  cases hl : s.idEx.data.lden with
  | false =>
    rw [← h.exWrite_eq hl]
    cases hw : s.exWrite with
    | none => exact hmem
    | some p => rw [forward, commit_some_apply, hmem]
  | true =>
    have hnone : s.exWrite = none := by simp [Core.exWrite, hl]
    rw [hnone, forward, hmem]
    cases be with
    | false => rfl
    | true =>
      -- the load writes another register, so the execution reads past it too
      simp only [Arch.rfWrite, if_true, ← h.ex.rdwen rfl, ← h.ex.rdid rfl]
      cases hw : s.idEx.data.rdwen with
      | false => rfl
      | true => rw [if_pos rfl, commit_some_apply, if_neg (hq hl hw)]

/-- Only a load of the execution can cause a bubble or the shortcut. -/
theorem busy_of_rdwen (h : Sim a s w bw bm be) (hw : s.idEx.data.rdwen = true) : be = true := by
  by_contra hb
  rw [(h.ex.idle (by simpa using hb)).1] at hw
  exact Bool.false_ne_true hw

theorem rdid_ne_zero (h : Sim a s w bw bm be) (hw : s.idEx.data.rdwen = true) :
    s.idEx.data.rdid ≠ 0#5 := by
  have hb := h.busy_of_rdwen hw
  rw [h.ex.rdid hb]
  exact Arch.rdid_ne_zero ((h.ex.rdwen hb).symm.trans hw)

theorem not_bubble_of_nop (h : Sim a s w bw bm be) (hn : IsNop s.ifId.data.ins) :
    s.idexBubble = false := by
  by_contra hb
  simp only [Core.idexBubble, hn.rs1id, hn.rs2id, Bool.not_eq_false, Bool.and_eq_true,
    Bool.or_self, beq_iff_eq] at hb
  exact h.rdid_ne_zero hb.1.1.2 hb.1.2

/-! ## One edge -/

theorem step_rf (h : Sim a s w bw bm be) :
    s.rf.write s.lsWb.data.rdwen s.lsWb.data.rdid s.wbuRd = (a.exec (w + bw.toNat)).regs := by
  have hwb := h.wb
  cases bw with
  | false =>
    have hw : s.lsWb.data.rdwen = false := by simpa [Core.wbWrite] using hwb
    rw [hw, Regs.write_false, h.rf]
    rfl
  | true =>
    rw [Regs.write_congr s.rf hwb, h.rf]
    exact (congrArg Arch.regs (a.exec_succ w)).symm

theorem busy_of_sten (h : Sim a s w bw bm be) (hst : s.exLs.data.sten = true) : bm = true := by
  by_contra hb
  rw [(h.mem.idle (by simpa using hb)).2] at hst
  exact Bool.false_ne_true hst

theorem wmask_eq (h : Sim a s w bw bm be) (hb : bm = true) :
    lsuWmask s.exLs.data.func3 s.exLs.data.exres = (a.exec (w + bw.toNat)).wmask := by
  rw [h.mem.func3 hb, h.mem.exres hb]
  rfl

theorem memWdata_and (h : Sim a s w bw bm be) (hb : bm = true) (hst : s.exLs.data.sten = true) :
    s.memWdata &&& lsuWmask s.exLs.data.func3 s.exLs.data.exres =
      (a.exec (w + bw.toNat)).wdata &&& lsuWmask s.exLs.data.func3 s.exLs.data.exres := by
  rw [Core.memWdata, hst, h.mem.func3 hb, h.mem.rs2 hb, h.mem.exres hb,
    lsuWdata_and_lsuWmask _ _ _ _ 0#64]
  rfl

theorem step_ram (h : Sim a s w bw bm be) :
    Ram.write s.ram s.exLs.data.sten (ramIdx s.exLs.data.exres) s.memWdata
      (lsuWmask s.exLs.data.func3 s.exLs.data.exres) =
        (a.exec (w + bw.toNat + bm.toNat)).ram := by
  cases hst : s.exLs.data.sten with
  | false =>
    have hnoop (r : Ram) (i d m : Word) : Ram.write r false i d m = r := rfl
    cases bm with
    | false => rw [hnoop, h.ram]; rfl
    | true =>
      rw [hnoop, h.ram, Bool.toNat_true, Arch.exec_succ, Arch.step, ← h.mem.sten rfl, hst, hnoop]
  | true =>
    have hb : bm = true := h.busy_of_sten hst
    subst hb
    rw [Ram.write_congr _ _ _ (h.memWdata_and rfl hst), h.wmask_eq rfl, h.mem.exres rfl, h.ram,
      Bool.toNat_true, Arch.exec_succ, Arch.step, ← h.mem.sten rfl, hst]

theorem step_wb (h : Sim a s w bw bm be) :
    (s.step false).wbWrite = if bm then (a.exec (w + bw.toNat)).rfWrite else none := by
  have hrd : (s.step false).wbuRd = wbu s.exLs.data.exres s.lsuLsres s.exLs.data.lden := by
    simp [Core.step_false, Core.wbuRd, Core.toLsWb, h.exValid]
  unfold Core.wbWrite
  rw [hrd, Core.step_false]
  cases bm with
  | false => simp [Core.toLsWb, h.exValid, (h.mem.idle rfl).1]
  | true =>
    simp [Core.toLsWb, h.exValid, h.wbuLsres_eq rfl, h.mem.rdwen rfl, h.mem.rdid rfl, Arch.rfWrite]

theorem step_mem (h : Sim a s w bw bm be) :
    MemSlot (a.exec (w + bw.toNat + bm.toNat)) be (s.step false) := by
  rw [Core.step_false]
  exact
    { idle := h.ex.idle
      exres := h.ex.exres
      rs2 := h.ex.rs2
      rdid := h.ex.rdid
      rdwen := h.ex.rdwen
      func3 := h.ex.func3
      lden := h.ex.lden
      sten := h.ex.sten }

/-- The slot of EX after an edge at which ID issues nothing that acts. -/
theorem step_ex_idle (h : Sim a s w bw bm be) (r : Arch)
    (hn : s.idexBubble = true ∨ IsNop s.ifId.data.ins) : ExSlot r false (s.step false) := by
  refine .of_idle ?_
  rw [Core.step_false]
  rcases hn with hb | hn
  · simp [h.ifValid, Core.toIdEx, hb]
  · simp [h.ifValid, Core.toIdEx, h.not_bubble_of_nop hn, hn.rdwen, hn.sten]

/-- The shortcut: the load in EX reaches MEM with the store, and returns what the store reads. -/
theorem step_lsuLsres_of_ldstbp (h : Sim a s w bw bm be) (hbp : s.iduLdstbp = true) :
    (s.step false).lsuLsres =
      (a.exec (w + bw.toNat + bm.toNat + be.toNat)).regs.read (oRs2id s.ifId.data.ins) := by
  simp only [Core.iduLdstbp, Bool.and_eq_true, beq_iff_eq] at hbp
  obtain ⟨⟨⟨hl, hw⟩, hd⟩, -⟩ := hbp
  have hbe := h.busy_of_rdwen hw
  subst hbe
  have hmem := h.step_mem
  have hram : (s.step false).ram = (a.exec (w + bw.toNat + bm.toNat)).ram := by
    rw [Core.step_false]
    exact h.step_ram
  have hlden : (a.exec (w + bw.toNat + bm.toNat)).lden = true := by rw [← h.ex.lden rfl, hl]
  rw [Arch.read_exec_add, if_pos rfl, Arch.rfWrite, ← h.ex.rdwen rfl, ← h.ex.rdid rfl, hw,
    if_pos rfl, commit_some_apply, if_pos hd, Core.lsuLsres, hmem.lden rfl, hmem.func3 rfl,
    hmem.exres rfl, hram, Arch.rd, hlden]
  rfl

section Held

variable {r : Arch} (hr : r = a.exec (w + bw.toNat + bm.toNat + be.toNat))
  (hins : s.ifId.data.ins = r.ins) (hb : s.idexBubble = false)
include hr hins hb

theorem iduRs1_eq (h : Sim a s w bw bm be) (hls : ∀ k, ¬ a.LoadStoreSame k) :
    s.iduRs1 = r.rs1 := by
  rw [Core.iduRs1, hins, hr]
  apply h.bypassRs_eq
  intro hl hw hd
  -- no bubble although the load writes `rs1`: the shortcut was taken
  have hbe := h.busy_of_rdwen hw
  subst hbe
  rw [← hr, ← hins] at hd
  have hbp : s.iduLdstbp = true := by
    simpa [Core.idexBubble, hl, hw, hd] using hb
  simp only [Core.iduLdstbp, hl, hw, Bool.true_and, Bool.and_eq_true, beq_iff_eq] at hbp
  refine hls (w + bw.toNat + bm.toNat) ⟨?_, ?_, ?_, ?_, ?_⟩
  · rw [← h.ex.lden rfl, hl]
  · rw [← h.ex.rdwen rfl, hw]
  · exact (congrArg oLsuSten (hins.trans (congrArg Arch.ins hr))).symm.trans hbp.2
  · rw [← h.ex.rdid rfl, hd, hins, hr]; rfl
  · rw [← h.ex.rdid rfl, hbp.1, hins, hr]; rfl

theorem iduRs2_eq (h : Sim a s w bw bm be) (hbp : s.iduLdstbp = false) : s.iduRs2 = r.rs2 := by
  rw [Core.iduRs2, hins, hr]
  apply h.bypassRs_eq
  intro hl hw hd
  rw [← hr, ← hins] at hd
  have hbub : s.idexBubble = true := by simp [Core.idexBubble, hl, hw, hd, hbp]
  rw [hb] at hbub
  exact Bool.false_ne_true hbub

omit hr hb in
theorem sten_of_ldstbp (hbp : s.iduLdstbp = true) : opcode r.ins = TYPE_S := by
  simp only [Core.iduLdstbp, Bool.and_eq_true, hins] at hbp
  simpa [oLsuSten] using hbp.2

/-- A store does not jump, so the stale `rs2` of the shortcut does not matter to `bru`. -/
theorem ifidBubble_eq (h : Sim a s w bw bm be) (hls : ∀ k, ¬ a.LoadStoreSame k) :
    s.ifidBubble = jump r.ins r.rs1 r.rs2 := by
  rw [Core.ifidBubble, hins, h.iduRs1_eq hr hins hb hls]
  cases hbp : s.iduLdstbp with
  | false => rw [h.iduRs2_eq hr hins hb hbp]
  | true =>
    have hst := sten_of_ldstbp hins hbp
    simp [jump, oBrch, oJal, oJalr, hst, TYPE_S, TYPE_B, TYPE_J, TYPE_I_JALR]

theorem step_ex_busy (h : Sim a s w bw bm be) (hpc : s.ifId.data.pc = r.pc)
    (hls : ∀ k, ¬ a.LoadStoreSame k) : ExSlot r true (s.step false) := by
  have hrs1 := h.iduRs1_eq hr hins hb hls
  refine ⟨nofun, ?_, ?_, ?_, ?_, ?_, ?_, ?_⟩
  · intro _
    rw [Core.step_false]
    simp only [Core.exuExres, h.ifValid, if_true, Core.toIdEx, hb, Bool.false_eq_true, if_false]
    rw [hpc, hrs1, hins]
    cases hbp : s.iduLdstbp with
    | false => rw [h.iduRs2_eq hr hins hb hbp]; rfl
    | true =>
      have hst := sten_of_ldstbp hins hbp
      have hsel : iduSrcSel r.ins = EXU_SEL_IMM := by
        simp [iduSrcSel, oSrcSel, hst, TYPE_S, TYPE_CSR, TYPE_I_JALR, TYPE_J, TYPE_U_AUIPC, TYPE_R,
          TYPE_R_W]
      rw [Arch.exres, hsel]
      exact exu_imm ..
  · intro _
    cases hbp : s.iduLdstbp with
    | false =>
      rw [Core.step_false]
      simp [Core.exuRs2, h.ifValid, Core.toIdEx, hb, hbp, h.iduRs2_eq hr hins hb hbp]
    | true =>
      have hsel : (s.step false).exuRs2 = (s.step false).lsuLsres := by
        simp [Core.step_false, Core.exuRs2, h.ifValid, Core.toIdEx, hb, hbp]
      rw [hsel, h.step_lsuLsres_of_ldstbp hbp, hins, ← hr]
      rfl
  · intro _
    simp [Core.step_false, h.ifValid, Core.toIdEx, hb, hins, Arch.rdid]
  · intro _
    simp [Core.step_false, h.ifValid, Core.toIdEx, hb, hins, Arch.rdwen]
  · intro _
    simp [Core.step_false, h.ifValid, Core.toIdEx, hins]
  · intro _
    simp [Core.step_false, h.ifValid, Core.toIdEx, hb, hins, Arch.lden]
  · intro _
    simp [Core.step_false, h.ifValid, Core.toIdEx, hb, hins, Arch.sten]

/-- After an issue ID holds the next instruction, or is empty and the pc is the jump target. -/
theorem step_id_issue (h : Sim a s w bw bm be) (hpc : s.ifId.data.pc = r.pc)
    (hnext : s.pc = r.pc + 4#64) (hcode : a.CodeStable) (hls : ∀ k, ¬ a.LoadStoreSame k) :
    IdSlot r.step (s.step false) := by
  have hjump := h.ifidBubble_eq hr hins hb hls
  have hstep : r.step = a.exec (w + bw.toNat + bm.toNat + be.toNat + 1) := by
    rw [hr, ← Arch.exec_succ]
  cases hj : jump r.ins r.rs1 r.rs2 with
  | true =>
    refine .empty (.inl ?_) ?_
    · simp [Core.step_false, hb, Core.toIfId, hjump, hj]
    · simp [Core.step_false, hb, Core.nextPc, hjump, hj, Arch.step, hins, hpc,
        h.iduRs1_eq hr hins hb hls]
  | false =>
    have hpc' : s.pc = r.step.pc := by simp [Arch.step, hj, hnext]
    refine .held ?_ ?_ ?_
    · have hfetch : ifu s.ram s.pc = r.step.ins := by
        rw [hpc', h.ram, hstep]
        exact hcode _ _ (by omega)
      simp [Core.step_false, hb, Core.toIfId, hjump, hj, hfetch]
    · simp [Core.step_false, hb, Core.toIfId, hpc']
    · simp [Core.step_false, hb, Core.nextPc, hjump, hj, hpc']

end Held

theorem step_id_fetch (h : Sim a s w bw bm be) {r : Arch}
    (hr : r = a.exec (w + bw.toNat + bm.toNat + be.toNat)) (hn : IsNop s.ifId.data.ins)
    (hpc : s.pc = r.pc) (hcode : a.CodeStable) : IdSlot r (s.step false) := by
  have hb := h.not_bubble_of_nop hn
  have hj : s.ifidBubble = false := hn.jump _ _
  have hfetch : ifu s.ram s.pc = r.ins := by
    rw [hpc, h.ram, hr]
    exact hcode _ _ (by omega)
  refine .held ?_ ?_ ?_
  · simp [Core.step_false, hb, Core.toIfId, hj, hfetch]
  · simp [Core.step_false, hb, Core.toIfId, hpc]
  · simp [Core.step_false, hb, Core.nextPc, hj, hpc]

/-- **One edge of the pipeline.** Every instruction moves on, and ID issues or waits. -/
theorem step (h : Sim a s w bw bm be) (hcode : a.CodeStable) (hls : ∀ k, ¬ a.LoadStoreSame k) :
    ∃ be', Sim a (s.step false) (w + bw.toNat) bm be be' := by
  have hvalid : (s.step false).ifId.valid = true ∧ (s.step false).exLs.valid = true := by
    simp [Core.step_false]
  have hrf : (s.step false).rf = (a.exec (w + bw.toNat)).regs := by
    rw [Core.step_false]
    exact h.step_rf
  have hram : (s.step false).ram = (a.exec (w + bw.toNat + bm.toNat)).ram := by
    rw [Core.step_false]
    exact h.step_ram
  cases hb : s.idexBubble with
  | true =>
    -- the word in ID waits one cycle for the load in EX
    refine ⟨false, hvalid.1, hvalid.2, hrf, h.step_wb, hram, h.step_mem, h.step_ex_idle _ (.inl hb),
      ?_⟩
    have hkeep : (s.step false).ifId.data = s.ifId.data ∧ (s.step false).pc = s.pc := by
      simp [Core.step_false, hb]
    cases h.id with
    | held hins hpc hnext => exact .held (hkeep.1 ▸ hins) (hkeep.1 ▸ hpc) (hkeep.2 ▸ hnext)
    | empty hn hpc => exact .empty (hkeep.1 ▸ hn) (hkeep.2 ▸ hpc)
  | false =>
    cases h.id with
    | held hins hpc hnext =>
      refine ⟨true, hvalid.1, hvalid.2, hrf, h.step_wb, hram, h.step_mem,
        h.step_ex_busy rfl hins hb hpc hls, ?_⟩
      rw [Bool.toNat_true, Arch.exec_succ]
      exact h.step_id_issue rfl hins hb hpc hnext hcode hls
    | empty hn hpc =>
      exact ⟨false, hvalid.1, hvalid.2, hrf, h.step_wb, hram, h.step_mem,
        h.step_ex_idle _ (.inr hn), h.step_id_fetch rfl hn hpc hcode⟩

/-- The register-file write of an edge is that of the instruction in WB. -/
theorem rfWrites_eq (h : Sim a s w bw bm be) (rst : Bool) :
    history (fun k => (a.exec k).rfWrite.toList) (w + bw.toNat) =
      history (fun k => (a.exec k).rfWrite.toList) w ++ s.rfWrites rst := by
  rw [Core.rfWrites, h.wb]
  cases bw <;> simp

/-- The RAM write of an edge is that of the instruction in MEM. -/
theorem ramWrites_eq (h : Sim a s w bw bm be) (rst : Bool) :
    history (fun k => (a.exec k).ramWrites) (w + bw.toNat + bm.toNat) =
      history (fun k => (a.exec k).ramWrites) (w + bw.toNat) ++ s.ramWrites rst := by
  cases bm with
  | false => simp [Core.ramWrites, (h.mem.idle rfl).2]
  | true =>
    rw [Bool.toNat_true, history_succ]
    congr 1
    unfold Arch.ramWrites Core.ramWrites
    rw [← h.mem.sten rfl]
    cases hst : s.exLs.data.sten with
    | false => rfl
    | true =>
      simp only [if_true]
      rw [h.memWdata_and rfl hst, h.wmask_eq rfl, h.mem.exres rfl]

end Sim

end Oscpu.Diff
