import Oscpu.Diff.Units
import Oscpu.Lib.Stage
import Oscpu.Rtl.Reset

/-!
# `SimTop` of `cpu_diff`: the five-stage pipeline

The state is every register of the design that a modelled output depends on, the RAM and the two
values that the latches of `lsu` hold. `step` is one rising clock edge. `release` is the falling
edge of `rst_n_sync`: the `stl_reg`s are sensitive to it, find the reset low and load.
-/

namespace Oscpu.Diff

open Oscpu.Rtl Oscpu.Lib

/-- The data of `pipe_if_id`. -/
structure IfId where
  ins : Ins
  pc : Word
  diffpc : Word

/-- The data of `pipe_id_ex`. -/
structure IdEx where
  imm : Word
  rs1 : Word
  rs2 : Word
  rdid : RegId
  rdwen : Bool
  srcSel : BitVec 2
  exopt : BitVec 6
  func3 : BitVec 3
  lden : Bool
  sten : Bool
  ldstbp : Bool
  pc : Word
  diffpc : Word
  ins : Ins

/-- The data of `pipe_ex_ls`. -/
structure ExLs where
  exres : Word
  rs2 : Word
  rdid : RegId
  rdwen : Bool
  func3 : BitVec 3
  lden : Bool
  sten : Bool
  diffpc : Word
  ins : Ins

/-- The data of `pipe_ls_wb`. -/
structure LsWb where
  exres : Word
  lsres : Word
  rdid : RegId
  rdwen : Bool
  lden : Bool
  diffpc : Word
  ins : Ins

def IfId.zero : IfId := ⟨0#32, 0#64, 0#64⟩

def IdEx.zero : IdEx :=
  ⟨0#64, 0#64, 0#64, 0#5, false, 0#2, 0#6, 0#3, false, false, false, 0#64, 0#64, 0#32⟩

def ExLs.zero : ExLs := ⟨0#64, 0#64, 0#5, false, 0#3, false, false, 0#64, 0#32⟩

def LsWb.zero : LsWb := ⟨0#64, 0#64, 0#5, false, false, 0#64, 0#32⟩

structure Core where
  /-- `o_pc` of `bru`. -/
  pc : Word
  ifId : Stage IfId
  idEx : Stage IdEx
  exLs : Stage ExLs
  lsWb : Stage LsWb
  rf : Regs
  ram : Ram
  /-- What the latch `o_regld` of `lsu` holds. -/
  regldQ : Word
  /-- What the latch `wdata` of `lsu` holds. -/
  wdataQ : Word

namespace Core

variable (s : Core)

/-! ## Write back and memory -/

/-- `wbu_rd`. -/
def wbuRd : Word := wbu s.lsWb.data.exres s.lsWb.data.lsres s.lsWb.data.lden

/-- `lsu_lsres`. -/
def lsuLsres : Word :=
  let m := s.exLs.data
  lsuRegld m.lden m.func3 m.exres (s.ram (ramIdx m.exres)) s.regldQ

/-- `wdata` of `lsu`. -/
def memWdata : Word :=
  let m := s.exLs.data
  lsuWdata m.sten m.func3 m.rs2 s.wdataQ

/-- The value of the instruction in MEM that `bypass` forwards. -/
def memRd : Word := if s.exLs.data.lden then s.lsuLsres else s.exLs.data.exres

/-! ## Execution -/

/-- `exu_exres`. -/
def exuExres : Word :=
  let e := s.idEx.data
  exu e.pc e.rs1 e.rs2 e.imm e.srcSel e.exopt

/-- `o_exu_rs2` of `bypass`. -/
def exuRs2 : Word := if s.idEx.data.ldstbp then s.lsuLsres else s.idEx.data.rs2

/-! ## Decode and forwarding -/

/-- `o_idu_rs1` and `o_idu_rs2` of `bypass`, for the source id `a`. -/
def bypassRs (a : RegId) : Word :=
  let e := s.idEx.data
  let m := s.exLs.data
  let w := s.lsWb.data
  if !e.lden && e.rdwen && e.rdid == a then s.exuExres
  else if m.rdwen && m.rdid == a then s.memRd
  else if w.rdwen && w.rdid == a then s.wbuRd
  else s.rf.read a

/-- `idu_rs1`. -/
def iduRs1 : Word := s.bypassRs (oRs1id s.ifId.data.ins)

/-- `idu_rs2`. -/
def iduRs2 : Word := s.bypassRs (oRs2id s.ifId.data.ins)

/-- `o_idu_ldstbp`: a load in EX feeds the data of the store in ID. -/
def iduLdstbp : Bool :=
  let e := s.idEx.data
  e.lden && e.rdwen && e.rdid == oRs2id s.ifId.data.ins && oLsuSten s.ifId.data.ins

/-- `o_idex_bubble`, which is also `o_ifid_stall`. -/
def idexBubble : Bool :=
  let e := s.idEx.data
  e.lden && e.rdwen &&
    (e.rdid == oRs1id s.ifId.data.ins || e.rdid == oRs2id s.ifId.data.ins) && !s.iduLdstbp

/-- `o_ifid_bubble`, the `jump` of `bru`. -/
def ifidBubble : Bool := jump s.ifId.data.ins s.iduRs1 s.iduRs2

/-- `next_pc` of `bru`. -/
def nextPc : Word :=
  if s.ifidBubble then jumpPc s.ifId.data.ins s.ifId.data.pc s.iduRs1 else s.pc + 4#64

/-! ## Handshakes -/

/-- `mem_ready`; `wb_ready` is tied high. -/
def memReady : Bool := s.lsWb.ready true

/-- `mem_alu_ready`. -/
def exeReady : Bool := s.exLs.ready s.memReady

/-- `id_ready`; `alu_ready_out` is tied high in `cpu_diff`. -/
def idReady : Bool := s.idEx.ready true

/-- `if_ready`. -/
def ifReady : Bool := s.ifId.ready s.idReady

/-! ## Inputs of the pipeline registers -/

/-- `{t_ifu_ins, t_ifu_pc, t_ifu_diffpc}`. -/
def toIfId : IfId where
  ins := if s.ifidBubble then 0x13#32 else ifu s.ram s.pc
  pc := s.pc
  diffpc := if s.ifidBubble then 0#64 else s.pc

/-- The `t_idu_*` signals of `pipe_id_ex`. -/
def toIdEx : IdEx :=
  let ins := s.ifId.data.ins
  let b := s.idexBubble
  { imm := if b then 0#64 else oImm ins
    rs1 := if b then 0#64 else s.iduRs1
    rs2 := if b then 0#64 else s.iduRs2
    rdid := if b then 0#5 else oRdid ins
    rdwen := if b then false else oRdwen ins
    srcSel := if b then EXU_SEL_IMM else iduSrcSel ins
    exopt := if b then EXU_ADD else iduExopt ins
    func3 := func3 ins
    lden := if b then false else oLsuLden ins
    sten := if b then false else oLsuSten ins
    ldstbp := if b then false else s.iduLdstbp
    pc := s.ifId.data.pc
    diffpc := if b then 1#64 else s.ifId.data.diffpc
    ins := ins }

/-- `i_din` of `pipe_ex_ls`. -/
def toExLs : ExLs :=
  let e := s.idEx.data
  { exres := s.exuExres
    rs2 := s.exuRs2
    rdid := e.rdid
    rdwen := e.rdwen
    func3 := e.func3
    lden := e.lden
    sten := e.sten
    diffpc := e.diffpc
    ins := e.ins }

/-- `i_din` of `pipe_ls_wb`. -/
def toLsWb : LsWb :=
  let m := s.exLs.data
  { exres := m.exres
    lsres := s.lsuLsres
    rdid := m.rdid
    rdwen := m.rdwen
    lden := m.lden
    diffpc := m.diffpc
    ins := m.ins }

/-! ## The clock edge -/

/-- One rising edge of `clock`, with `rst` the level of `rst_n_sync`. `if_valid` and the valid bit
behind the ALU are tied high. -/
def step (rst : Bool) : Core where
  pc := stlReg 0x7ffffff8#64 rst (!s.idexBubble) s.nextPc s.pc
  ifId :=
    { valid := s.ifId.nextValid rst s.ifReady true
      data := stlReg IfId.zero rst (!s.idexBubble && s.ifReady) s.toIfId s.ifId.data }
  idEx :=
    { valid := s.idEx.nextValid rst s.idReady s.ifId.valid
      data := stlReg IdEx.zero rst (s.ifId.valid && s.idReady) s.toIdEx s.idEx.data }
  exLs :=
    { valid := s.exLs.nextValid rst s.exeReady true
      data := stlReg ExLs.zero rst s.exeReady s.toExLs s.exLs.data }
  lsWb :=
    { valid := s.lsWb.nextValid rst s.memReady s.exLs.valid
      data := stlReg LsWb.zero rst (s.exLs.valid && s.memReady) s.toLsWb s.lsWb.data }
  rf := s.rf.write s.lsWb.data.rdwen s.lsWb.data.rdid s.wbuRd
  ram := Ram.write s.ram s.exLs.data.sten (ramIdx s.exLs.data.exres) s.memWdata
    (lsuWmask s.exLs.data.func3 s.exLs.data.exres)
  regldQ := s.lsuLsres
  wdataQ := s.memWdata

/-- The falling edge of `rst_n_sync`. Only the `stl_reg`s see it. -/
def release : Core :=
  { s with
    pc := stlReg 0x7ffffff8#64 false (!s.idexBubble) s.nextPc s.pc
    ifId.data := stlReg IfId.zero false (!s.idexBubble && s.ifReady) s.toIfId s.ifId.data
    idEx.data := stlReg IdEx.zero false (s.ifId.valid && s.idReady) s.toIdEx s.idEx.data
    exLs.data := stlReg ExLs.zero false s.exeReady s.toExLs s.exLs.data
    lsWb.data := stlReg LsWb.zero false (s.exLs.valid && s.memReady) s.toLsWb s.lsWb.data }

end Core

end Oscpu.Diff
