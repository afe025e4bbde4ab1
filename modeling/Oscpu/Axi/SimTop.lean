import Oscpu.Axi.AxiRw
import Oscpu.Axi.Csr
import Oscpu.Lib.Stage

/-!
# `SimTop` of `cpu_axi_diff`: the elastic pipeline, the arbiter and the bus master

The state is every register of `cpu` and `axi_rw` that a modelled output depends on. The signals
that depend on the registers alone come first; the others also read the inputs `i` from the slave.
`step` is one rising edge of `clock`.
-/

namespace Oscpu.Axi

open Oscpu.Rtl Oscpu.Lib

/-- The data of `pipe_if_id`. -/
structure IfId where
  ins : Ins
  pc : Word

/-- The data of `pipe_id_ex`. -/
structure IdEx where
  imm : Word
  rs1 : Word
  rs2 : Word
  rdid : RegId
  rdwen : Bool
  srcSel : BitVec 2
  exopt : BitVec 6
  func3 : BitVec 3
  lden : Bool
  sten : Bool
  ldstbp : Bool
  pc : Word
  csr : BitVec 12
  csrWdata : Word
  csrChoose : BitVec 3
  exceptCode : Word
  exceptEn : Bool
  mret : Bool
  mtimeInt : Bool
  ins : Ins

/-- The data of `pipe_ex_ls`. -/
structure ExLs where
  exres : Word
  rs2 : Word
  rdid : RegId
  rdwen : Bool
  func3 : BitVec 3
  lden : Bool
  sten : Bool
  ins : Ins
  pc : Word
  csr : BitVec 12
  csrWen : Bool
  csrDataRes : Word
  exceptCode : Word
  exceptEn : Bool
  mret : Bool
  mtimeInt : Bool
  csrToRf : Bool
  csrData : Word

/-- The data of `pipe_ls_wb`. -/
structure LsWb where
  exres : Word
  lsres : Word
  rdid : RegId
  rdwen : Bool
  lden : Bool
  sten : Bool
  ins : Ins
  pc : Word
  csr : BitVec 12
  csrWen : Bool
  csrDataRes : Word
  exceptCode : Word
  exceptEn : Bool
  mret : Bool
  mtimeInt : Bool
  csrToRf : Bool
  csrData : Word

def IfId.zero : IfId := ⟨0#32, 0#64⟩

def IdEx.zero : IdEx where
  imm := 0#64
  rs1 := 0#64
  rs2 := 0#64
  rdid := 0#5
  rdwen := false
  srcSel := 0#2
  exopt := 0#6
  func3 := 0#3
  lden := false
  sten := false
  ldstbp := false
  pc := 0#64
  csr := 0#12
  csrWdata := 0#64
  csrChoose := 0#3
  exceptCode := 0#64
  exceptEn := false
  mret := false
  mtimeInt := false
  ins := 0#32

def ExLs.zero : ExLs where
  exres := 0#64
  rs2 := 0#64
  rdid := 0#5
  rdwen := false
  func3 := 0#3
  lden := false
  sten := false
  ins := 0#32
  pc := 0#64
  csr := 0#12
  csrWen := false
  csrDataRes := 0#64
  exceptCode := 0#64
  exceptEn := false
  mret := false
  mtimeInt := false
  csrToRf := false
  csrData := 0#64

def LsWb.zero : LsWb where
  exres := 0#64
  lsres := 0#64
  rdid := 0#5
  rdwen := false
  lden := false
  sten := false
  ins := 0#32
  pc := 0#64
  csr := 0#12
  csrWen := false
  csrDataRes := 0#64
  exceptCode := 0#64
  exceptEn := false
  mret := false
  mtimeInt := false
  csrToRf := false
  csrData := 0#64

/-- The registers of `bru`. -/
structure Bru where
  pc : Word
  /-- `delay`, without reset. -/
  delay : Bool
  /-- `jalr_bp_tar_i`: declared with an initialiser and driven by nothing else. -/
  tarI : Word
  /-- `jalr_bp_tar_o`. -/
  tarO : Word

structure Core where
  /-- The two flip-flops of `stl_rst`. -/
  rstR1 : Bool
  rstR2 : Bool
  /-- `o_pc` of `ifu`, the address being fetched. -/
  ifuPc : Word
  ifId : Stage IfId
  idEx : Stage IdEx
  exLs : Stage ExLs
  lsWb : Stage LsWb
  bru : Bru
  rf : Regs
  csr : Csr
  clint : Clint
  /-- `serial_valid` of `exu`, without reset. -/
  serialValid : Bool
  /-- `csrrci` of `exu`: declared with an initialiser and driven by nothing else. -/
  csrrci : Word
  /-- What the latches `mem_wdata` and `wmask` of `lsu` hold. -/
  wdataQ : Word
  wmaskQ : BitVec 8
  rw : AxiRw

namespace Core

variable (s : Core) (i : AxiIn)

/-! ## Memory stage and arbiter, from the registers -/

/-- `axi_mem_valid`: a load or store waits in MEM. It is also `axi_sig_mem`. -/
def axiSigMem : Bool := s.exLs.valid && (s.exLs.data.lden || s.exLs.data.sten)

/-- `axi_sig_write`. -/
def axiSigWrite : Bool := s.axiSigMem && s.exLs.data.sten

/-- `mem_wdata` of `lsu`, latched while no store is in MEM. -/
def memWdata : Word :=
  let m := s.exLs.data
  if m.sten then storeData m.func3 m.exres m.rs2 else s.wdataQ

/-- `wmask` of `lsu`, latched while no store is in MEM. -/
def memWmask : BitVec 8 :=
  let m := s.exLs.data
  if m.sten then storeMask m.func3 m.exres else s.wmaskQ

/-- `mtime_en`. -/
def mtimeEn : Bool := s.exLs.data.sten && s.exLs.data.exres == MTIME

/-- `mtimecmp_en`. -/
def mtimecmpEn : Bool := s.exLs.data.sten && s.exLs.data.exres == MTIMECMP

/-! ## Execution -/

/-- `exu_exres`. -/
def exuExres : Word :=
  let e := s.idEx.data
  exu e.pc e.rs1 e.rs2 e.imm e.srcSel e.exopt

/-- `csr_data`, read for the instruction in EX. -/
def csrData : Word := s.csr.read s.idEx.data.csr

/-- `regfile_rs1`, the unforwarded register of the instruction in ID. -/
def regfileRs1 : Word := s.rf.read (oRs1id s.ifId.data.ins)

/-- `id_csr_wdata`, which is wired to `exu`. -/
def idCsrWdata : Word := csrWdata s.ifId.data.ins s.regfileRs1

/-- `ex_csr_data_res`. -/
def exCsrDataRes : Word := csrDataRes s.idEx.data.csrChoose s.csrData s.idCsrWdata s.csrrci

/-! ## Stall -/

/-- `o_idu_ldstbp`. -/
def iduLdstbp : Bool :=
  let e := s.idEx.data
  e.lden && e.rdwen && e.rdid == oRs2id s.ifId.data.ins && oLsuSten s.ifId.data.ins

/-- `o_idex_bubble`, which is `ifid_stall` and every `pc_stall`. -/
def pcStall : Bool :=
  let e := s.idEx.data
  e.lden && e.rdwen &&
    (e.rdid == oRs1id s.ifId.data.ins || e.rdid == oRs2id s.ifId.data.ins) && !s.iduLdstbp &&
    s.idEx.valid

/-- The request that the arbiter presents to `axi_rw`. `axi_if_valid` is `!pc_stall`. -/
def req : RwReq where
  valid := if s.axiSigMem then true else !s.pcStall
  write := s.axiSigWrite
  addr := if s.axiSigMem then s.exLs.data.exres else s.ifuPc
  size := if s.axiSigMem then memSize s.exLs.data.func3 else SIZE_W
  sigMem := s.axiSigMem
  wdata := s.memWdata
  strb := s.memWmask

/-- The outputs to the slave. -/
def out : AxiOut := s.rw.out s.req

/-! ## Responses -/

/-- `arb_ret_id`, a live wire. -/
def retId : BitVec 4 := if s.axiSigWrite then i.bId else i.rId

/-- `if_rw_ready_o`, which is also `wb_ready`. -/
def ifReadyAxi : Bool := if s.axiSigMem then false else s.retId i == 1#4 && s.rw.rwReady

/-- `mem_rw_ready_o`. -/
def memReadyAxi : Bool := s.axiSigMem && s.retId i == 2#4 && s.rw.rwReady

/-- `if_data_read`: the ids of request and response are compared, and a fetch has id 1. -/
def ifDataRead : Word :=
  if !s.axiSigMem && s.retId i == 1#4 then s.rw.dataRead else 0#64

/-- `mem_data_read`. -/
def memDataRead : Word :=
  if s.axiSigMem && s.retId i == 2#4 then s.rw.dataRead else 0#64

/-- `lsu_lsres`. -/
def lsuLsres : Word :=
  let m := s.exLs.data
  ldData m.lden m.func3 (memChooseData m.exres s.clint.mtime s.clint.mtimecmp (s.memDataRead i))

/-! ## Handshakes -/

/-- `handshake_done` of `ifu`, which is `if_valid`. -/
def ifHs : Bool := !s.pcStall && s.ifReadyAxi i

/-- `mem_ready`. -/
def memReady : Bool := s.lsWb.ready (s.ifReadyAxi i)

/-- `mem_valid`, the `mem_wb_valid` of `lsu`. -/
def memValid : Bool :=
  if s.exLs.data.lden || s.exLs.data.sten then s.axiSigMem && s.memReadyAxi i else s.exLs.valid

/-- `mem_ex_ready_i`. -/
def memExReady : Bool := s.memValid i && s.memReady i

/-- `ex_ready`, which passes the ALU as `ex_id_ready_i`. -/
def exReady : Bool := s.exLs.ready (s.memExReady i)

/-- `id_ready`. -/
def idReady : Bool := s.idEx.ready (s.exReady i)

/-- `if_ready`. -/
def ifReady : Bool := s.ifId.ready (s.idReady i) && !s.pcStall

/-- `br_handshake` of `bru`. -/
def brHs : Bool := s.ifId.valid && s.idReady i

/-- `wb_hs`. -/
def wbHs : Bool := s.lsWb.valid && s.ifReadyAxi i

/-! ## Write back, traps -/

/-- The inputs of `csr`. -/
def csrIn : CsrIn :=
  let w := s.lsWb.data
  { wdata := w.csrDataRes
    csrW := w.csr
    csrWen := w.csrWen
    exceptEn := w.exceptEn
    exceptCode := w.exceptCode
    exaddr := s.idEx.data.pc
    wbaddr := w.pc
    mret := w.mret
    mtimeInt := w.mtimeInt
    wbIns := w.ins
    wbReady := s.ifReadyAxi i }

/-- `flush`. -/
def flush : Bool := s.csr.flush (s.csrIn i)

/-- `wbu_rd`. -/
def wbuRd : Word :=
  let w := s.lsWb.data
  wbu w.exres w.lsres w.lden w.csrToRf w.csrData

/-- `rf_wen` of `bypass`. -/
def rfWen : Bool := (s.lsWb.data.rdwen || s.lsWb.data.csrToRf) && s.wbHs i && !s.flush i

/-! ## Forwarding -/

/-- `o_idu_rs1` and `o_idu_rs2` of `bypass`, for the source id `a`. -/
def bypassRs (a : RegId) : Word :=
  let e := s.idEx.data
  let m := s.exLs.data
  let w := s.lsWb.data
  if s.idEx.valid && !e.lden && e.rdwen && e.rdid == a then s.exuExres
  else if s.memValid i && m.rdwen && m.rdid == a then
    if m.lden then s.lsuLsres i else m.exres
  else if s.lsWb.valid && w.rdwen && w.rdid == a then s.wbuRd
  else s.rf.read a

/-- `idu_rs1`. -/
def iduRs1 : Word := s.bypassRs i (oRs1id s.ifId.data.ins)

/-- `idu_rs2`. -/
def iduRs2 : Word := s.bypassRs i (oRs2id s.ifId.data.ins)

/-- `o_exu_rs2` of `bypass`. -/
def exuRs2 : Word := if s.idEx.data.ldstbp then s.iduRs2 i else s.idEx.data.rs2

/-! ## Branch unit -/

/-- `jump` of `bru`, which is `ifid_bubble`. -/
def jump : Bool := Axi.jump s.ifId.data.ins (s.iduRs1 i) (s.iduRs2 i)

/-- `next_pc`. -/
def nextPc : Word :=
  if s.jump i then jumpPc s.ifId.data.ins s.ifId.data.pc (s.iduRs1 i) s.bru.tarO
  else s.bru.pc + 4#64

/-- `pc_wen`. -/
def pcWen : Bool := (s.brHs i || s.jump i || s.bru.delay) && !s.pcStall && !s.csr.keep

/-- The registers of `bru` after a clock edge. Its input `mret` is the decode of the word in ID. -/
def bruStep (rst : Bool) : Bru where
  pc :=
    if rst then PC_START
    else if s.flush i && (Csr.ecall (s.csrIn i) || s.csr.timeInt (s.csrIn i)) then s.csr.mtvecPc
    else if s.flush i && isMret s.ifId.data.ins then s.csr.mepc
    else if s.pcWen i then s.nextPc i
    else s.bru.pc
  delay := if s.jump i then s.brHs i else false
  tarI := s.bru.tarI
  tarO := stlReg PC_START rst (jalrBp s.ifId.data.ins && s.brHs i) s.bru.tarI s.bru.tarO

/-! ## Inputs of the pipeline registers -/

/-- `o_ins` of `ifu`. -/
def ifuIns : Ins := if s.csr.keep then 0#32 else (s.ifDataRead i).extractLsb' 0 32

/-- `{t_ifu_ins, t_ifu_pc}`. -/
def toIfId : IfId :=
  if s.flush i then IfId.zero
  else { ins := if s.jump i then 0#32 else s.ifuIns i, pc := s.ifuPc }

/-- The `t_idu_*` and `t_id_*` signals of `pipe_id_ex`. A bubble clears only some of them. -/
def toIdEx : IdEx :=
  let ins := s.ifId.data.ins
  let b := s.pcStall
  if s.flush i then IdEx.zero
  else
    { imm := if b then 0#64 else oImm ins
      rs1 := if b then 0#64 else s.iduRs1 i
      rs2 := if b then 0#64 else s.iduRs2 i
      rdid := if b then 0#5 else oRdid ins
      rdwen := if b then false else oRdwen ins
      srcSel := if b then EXU_SEL_IMM else iduSrcSel ins
      exopt := if b then EXU_ADD else iduExopt ins
      func3 := func3 ins
      lden := if b then false else oLsuLden ins
      sten := if b then false else oLsuSten ins
      ldstbp := if b then false else s.iduLdstbp
      pc := s.ifId.data.pc
      csr := csrId ins
      csrWdata := s.idCsrWdata
      csrChoose := csrChoose ins
      exceptCode := exceptCode ins
      exceptEn := isEcall ins
      mret := isMret ins
      mtimeInt := s.clint.mtimeInt
      ins := if b then 0#32 else ins }

/-- The `t_exu_*` signals of `pipe_ex_ls`. -/
def toExLs : ExLs :=
  let e := s.idEx.data
  if s.flush i then ExLs.zero
  else
    { exres := s.exuExres
      rs2 := s.exuRs2 i
      rdid := e.rdid
      rdwen := e.rdwen
      func3 := e.func3
      lden := e.lden
      sten := e.sten
      ins := e.ins
      pc := e.pc
      csr := e.csr
      csrWen := csrWen e.csrChoose
      csrDataRes := s.exCsrDataRes
      exceptCode := e.exceptCode
      exceptEn := e.exceptEn
      mret := e.mret
      mtimeInt := e.mtimeInt
      csrToRf := csrToRf e.csrChoose
      csrData := s.csrData }

/-- The `t_lsu_*` and `t_mem_*` signals of `pipe_ls_wb`. -/
def toLsWb : LsWb :=
  let m := s.exLs.data
  if s.flush i then LsWb.zero
  else
    { exres := m.exres
      lsres := s.lsuLsres i
      rdid := m.rdid
      rdwen := m.rdwen
      lden := m.lden
      sten := m.sten
      ins := m.ins
      pc := m.pc
      csr := m.csr
      csrWen := m.csrWen
      csrDataRes := m.csrDataRes
      exceptCode := m.exceptCode
      exceptEn := m.exceptEn
      mret := m.mret
      mtimeInt := m.mtimeInt
      csrToRf := m.csrToRf
      csrData := m.csrData }

/-! ## The clock edge -/

/-- `o_pc` of `ifu` after a clock edge. -/
def nextIfuPc (rst : Bool) : Word :=
  if rst then PC_START
  else if s.flush i then 0#64
  else if s.ifHs i && !s.pcStall then s.bru.pc
  else s.ifuPc

/-- One rising edge of `clock`. `axi_rw` sees `reset` itself; the rest of the core sees the output
of `stl_rst`, which falls with `reset` and rises two edges after it. -/
def step (reset : Bool) (i : AxiIn) : Core :=
  let rst := reset && s.rstR2
  { rstR1 := reset
    rstR2 := reset && s.rstR1
    ifuPc := s.nextIfuPc i rst
    ifId :=
      { valid := s.ifId.nextValid rst (s.ifReady i) (s.ifHs i)
        data := stlReg IfId.zero rst (s.ifReady i && s.ifHs i || s.flush i) (s.toIfId i)
          s.ifId.data }
    idEx :=
      { valid := s.idEx.nextValid rst (s.idReady i) s.ifId.valid
        data := stlReg IdEx.zero rst (s.ifId.valid && s.idReady i || s.flush i) (s.toIdEx i)
          s.idEx.data }
    exLs :=
      { valid := s.exLs.nextValid rst (s.exReady i) s.idEx.valid
        data := stlReg ExLs.zero rst (s.idEx.valid && s.exReady i || s.flush i) (s.toExLs i)
          s.exLs.data }
    lsWb :=
      { valid := s.lsWb.nextValid rst (s.memReady i) (s.memValid i)
        data := stlReg LsWb.zero rst (s.memValid i && s.memReady i || s.flush i) (s.toLsWb i)
          s.lsWb.data }
    bru := s.bruStep i rst
    rf := s.rf.write (s.rfWen i) s.lsWb.data.rdid s.wbuRd
    csr := s.csr.step (s.csrIn i) rst
    clint := s.clint.step rst s.mtimeEn s.mtimecmpEn s.exLs.data.rs2
    serialValid := s.idEx.data.ins == 0x7b#32
    csrrci := s.csrrci
    wdataQ := s.memWdata
    wmaskQ := s.memWmask
    rw := s.rw.step s.req i reset }

end Core

end Oscpu.Axi
