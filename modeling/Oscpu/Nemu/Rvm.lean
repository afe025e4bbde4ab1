import Oscpu.Nemu.Fetch
import Oscpu.Nemu.Stores
import Oscpu.Nemu.Values

/-!
# NEMU executes RV64M

From the fetch on: the tables lead every word of RV64M to its helper, and the helper writes the value
that the instruction set asks for, with no trace but in the scratch registers.
-/

namespace Oscpu.Nemu

open Oscpu.Rtl Oscpu.Lib Oscpu.Lib.Pattern

/-! ## Registers -/

/-- What an instruction can be seen to do. -/
structure Visible where
  gpr : RegId → Word
  pc : Word
  mode : Word
  csrArray : BitVec 12 → Word
  storage : Storage

def Visible.set (m : Visible) : Reg → Word → Visible
  | .gpr r, v => { m with gpr := Function.update m.gpr r v }
  | _, _ => m

namespace State

def visible (n : State) : Visible := ⟨n.regs.gpr, n.pc, n.mode, n.csrArray, n.storage⟩

variable {n : State}

theorem visible_set (n : State) (r : Reg) (v : Word) : (n.set r v).visible = n.visible.set r v := by
  cases r <;> rfl

theorem get_set_self {r : Reg} (hr : r ≠ .rz) (n : State) (v : Word) : (n.set r v).get r = v :=
  (n.regs.get_set r r v hr).trans (if_pos rfl)

theorem get_set_of_ne {r r' : Reg} (hr : r ≠ .rz) (hne : r' ≠ r) (n : State) (v : Word) :
    (n.set r v).get r' = n.get r' :=
  (n.regs.get_set r r' v hr).trans (if_neg hne)

theorem set_set (n : State) (r : Reg) (v v' : Word) : (n.set r v).set r v' = n.set r v' := by
  cases r with
  | gpr r => simp [set, RegFile.set]
  | _ => rfl

theorem rtlSext_eq {dest : Reg} (hd : dest ≠ .rz) (src : Reg) (n : State) :
    rtlSext dest src 4 n = n.set dest (((n.get src).setWidth 32).signExtend 64) := by
  have hself := get_set_self hd n (cShl (n.get src) 32#64)
  change (n.set dest (cShl (n.get src) 32#64)).set dest
    (cSar ((n.set dest (cShl (n.get src) 32#64)).get dest) 32#64) = _
  rw [hself, set_set, sext_eq]

theorem rtlZext_eq {dest : Reg} (hd : dest ≠ .rz) (src : Reg) (n : State) :
    rtlZext dest src 4 n = n.set dest (((n.get src).setWidth 32).zeroExtend 64) := by
  have hself := get_set_self hd n (cShl (n.get src) 32#64)
  change (n.set dest (cShl (n.get src) 32#64)).set dest
    (cShr ((n.set dest (cShl (n.get src) 32#64)).get dest) 32#64) = _
  rw [hself, set_set, zext_eq]

theorem rtlLi_eq (dest : Reg) (imm : Word) (n : State) : rtlLi dest imm n = n.set dest imm := by
  change n.set dest (0#64 + imm) = _
  rw [BitVec.zero_add]

theorem rtlMv_eq (dest src : Reg) (n : State) : rtlMv dest src n = n.set dest (n.get src) := by
  change n.set dest (n.get src + 0#64) = _
  rw [BitVec.add_zero]

/-! ## The helpers -/

/-- The operands of an instruction of format R. -/
structure Operands (n : State) (a b : Word) : Prop where
  dest : n.ddest ≠ .rz
  src1 : n.get n.dsrc1 = a
  src2 : n.get n.dsrc2 = b
  src1S0 : n.dsrc1 ≠ .s0
  src2S0 : n.dsrc2 ≠ .s0
  src2S1 : n.dsrc2 ≠ .s1

variable {a b : Word}

/-- `m` differs from `n` by the scratch registers. -/
structure Scratch (n m : State) (x y : Word) : Prop where
  visible : m.visible = n.visible
  ddest : m.ddest = n.ddest
  s0 : m.get .s0 = x
  s1 : m.get .s1 = y

namespace Scratch

variable {m m' : State} {x x' y : Word}

theorem set (h : Scratch n m x y) (v : Word) : Scratch n (m.set .s0 v) v y where
  visible := h.visible
  ddest := h.ddest
  s0 := get_set_self (by decide) ..
  s1 := (get_set_of_ne (by decide) (by decide) ..).trans h.s1

theorem li (h : Scratch n m x y) (v : Word) : Scratch n (rtlLi .s0 v m) v y := by
  rw [rtlLi_eq]
  exact h.set v

theorem zero (h : Scratch n m x y) : Scratch n (rtlMv .s0 .rz m) 0#64 y := by
  rw [rtlMv_eq]
  exact h.set _

theorem reg (h : Scratch n m x y) (c : Word → Word → Word) :
    Scratch n (rtlReg c .s0 .s0 .s1 m) (c x y) y := by
  rw [rtlReg, h.s0, h.s1]
  exact h.set _

theorem ite {c d : Prop} [Decidable c] [Decidable d] (hcd : c ↔ d) (h : Scratch n m x y)
    (h' : Scratch n m' x' y) : Scratch n (if c then m else m') (if d then x else x') y := by
  simp only [hcd]
  split
  · exact h
  · exact h'

/-- The word in `s0` is the result. -/
theorem result (h : Scratch n m x y) (hd : n.ddest ≠ .rz) : (rtlSext m.ddest .s0 4 m).visible =
    (n.set n.ddest ((x.setWidth 32).signExtend 64)).visible := by
  rw [h.ddest, rtlSext_eq hd, h.s0, visible_set, visible_set, h.visible]

end Scratch

namespace Operands

/-- Both operands are extended, in the same way. -/
theorem scratch (h : Operands n a b) (f : Word → Word) :
    Scratch n ((n.set .s0 (f a)).set .s1 (f ((n.set .s0 (f a)).get n.dsrc2))) (f a) (f b) := by
  have hb : (n.set .s0 (f a)).get n.dsrc2 = b :=
    (get_set_of_ne (by decide) h.src2S0 ..).trans h.src2
  rw [hb]
  refine ⟨rfl, rfl, ?_, get_set_self (by decide) ..⟩
  rw [get_set_of_ne (by decide) (by decide), get_set_self (by decide)]

theorem sext (h : Operands n a b) :
    Scratch n (rtlSext .s1 (rtlSext .s0 n.dsrc1 4 n).dsrc2 4 (rtlSext .s0 n.dsrc1 4 n))
      ((a.setWidth 32).signExtend 64) ((b.setWidth 32).signExtend 64) := by
  rw [rtlSext_eq (by decide) n.dsrc1, h.src1, rtlSext_eq (by decide)]
  exact h.scratch fun x => (x.setWidth 32).signExtend 64

theorem zext (h : Operands n a b) :
    Scratch n (rtlZext .s1 (rtlZext .s0 n.dsrc1 4 n).dsrc2 4 (rtlZext .s0 n.dsrc1 4 n))
      ((a.setWidth 32).zeroExtend 64) ((b.setWidth 32).zeroExtend 64) := by
  rw [rtlZext_eq (by decide) n.dsrc1, h.src1, rtlZext_eq (by decide)]
  exact h.scratch fun x => (x.setWidth 32).zeroExtend 64

theorem divw (h : Operands n a b) :
    n.execDivw.visible = (n.set n.ddest (Rv64.DivOp.divw.value a b)).visible := by
  unfold execDivw
  extract_lets n₁ n₂ n₃
  have h₂ : Scratch n n₂ _ _ := h.sext
  clear_value n₂
  have h₃ : Scratch n n₃ _ _ := .ite (by rw [h₂.s1]) (h₂.li (~~~0#64))
    (.ite (by rw [h₂.s0, h₂.s1]) h₂ (h₂.reg cDivsQ))
  have hresult := h₃.result h.dest
  rw [divw_eq] at hresult
  exact hresult

theorem remw (h : Operands n a b) :
    n.execRemw.visible = (n.set n.ddest (Rv64.DivOp.remw.value a b)).visible := by
  unfold execRemw
  extract_lets n₁ n₂ n₃
  have h₂ : Scratch n n₂ _ _ := h.sext
  clear_value n₂
  have h₃ : Scratch n n₃ _ _ := .ite (by rw [h₂.s1]) h₂
    (.ite (by rw [h₂.s0, h₂.s1]) h₂.zero (h₂.reg cDivsR))
  have hresult := h₃.result h.dest
  rw [remw_eq] at hresult
  exact hresult

theorem divuw (h : Operands n a b) :
    n.execDivuw.visible = (n.set n.ddest (Rv64.DivOp.divuw.value a b)).visible := by
  unfold execDivuw
  extract_lets n₁ n₂ n₃
  have h₂ : Scratch n n₂ _ _ := h.zext
  clear_value n₂
  have h₃ : Scratch n n₃ _ _ := .ite (by rw [h₂.s1]) (h₂.li (~~~0#64)) (h₂.reg cDivuQ)
  have hresult := h₃.result h.dest
  rw [divuw_eq] at hresult
  exact hresult

theorem remuw (h : Operands n a b) :
    n.execRemuw.visible = (n.set n.ddest (Rv64.DivOp.remuw.value a b)).visible := by
  unfold execRemuw
  extract_lets n₁ n₂ n₃
  have h₂ : Scratch n n₂ _ _ := h.zext
  clear_value n₂
  have h₃ : Scratch n n₃ _ _ := .ite (by rw [h₂.s1]) h₂ (h₂.reg cDivuR)
  have hresult := h₃.result h.dest
  rw [remuw_eq] at hresult
  exact hresult

theorem div (h : Operands n a b) :
    n.execDiv.visible = (n.set n.ddest (Rv64.DivOp.div.value a b)).visible := by
  have hexec : n.execDiv = n.set n.ddest (if b == 0#64 then ~~~0#64
      else if a == 0x8000000000000000#64 && b == ~~~0#64 then a else cDivsQ a b) := by
    rw [execDiv, h.src2, h.src1, rtlLi_eq, rtlMv_eq, h.src1, rtlDivsQ, rtlReg, h.src1, h.src2]
    split_ifs <;> rfl
  rw [hexec, div_eq]
  rfl

theorem divu (h : Operands n a b) :
    n.execDivu.visible = (n.set n.ddest (Rv64.DivOp.divu.value a b)).visible := by
  have hexec : n.execDivu = n.set n.ddest (if b == 0#64 then ~~~0#64 else cDivuQ a b) := by
    rw [execDivu, h.src2, rtlLi_eq, rtlDivuQ, rtlReg, h.src1, h.src2]
    split_ifs <;> rfl
  rw [hexec, divu_eq]
  rfl

theorem rem (h : Operands n a b) :
    n.execRem.visible = (n.set n.ddest (Rv64.DivOp.rem.value a b)).visible := by
  have hexec : n.execRem = n.set n.ddest (if b == 0#64 then a
      else if a == 0x8000000000000000#64 && b == ~~~0#64 then 0#64 else cDivsR a b) := by
    rw [execRem, h.src2, h.src1, rtlMv_eq, rtlMv_eq, h.src1, rtlDivsR, rtlReg, h.src1, h.src2]
    split_ifs <;> rfl
  rw [hexec, rem_eq]
  rfl

theorem remu (h : Operands n a b) :
    n.execRemu.visible = (n.set n.ddest (Rv64.DivOp.remu.value a b)).visible := by
  have hexec : n.execRemu = n.set n.ddest (if b == 0#64 then a else cDivuR a b) := by
    rw [execRemu, h.src2, rtlMv_eq, h.src1, rtlDivuR, rtlReg, h.src1, h.src2]
    split_ifs <;> rfl
  rw [hexec, remu_eq]
  rfl

/-- The sign of `a` selects `b`, which is taken off the upper half of the unsigned product. -/
theorem mulhsu (h : Operands n a b) :
    n.execMulhsu.visible = (n.set n.ddest (Rv64.MulOp.mulhsu.value a b)).visible := by
  have h₁ : rtlSari .s0 n.dsrc1 63#64 n = n.set .s0 (cSar a 63#64) := by
    rw [rtlSari, rtlImm, h.src1]
  have h₂ : rtlAnd .s0 n.dsrc2 .s0 (n.set .s0 (cSar a 63#64)) = n.set .s0 (b &&& cSar a 63#64) := by
    rw [rtlAnd, rtlReg, get_set_of_ne (by decide) h.src2S0, h.src2, get_set_self (by decide),
      set_set]
    rfl
  have h₃ : rtlMuluHi .s1 n.dsrc1 n.dsrc2 (n.set .s0 (b &&& cSar a 63#64)) =
      (n.set .s0 (b &&& cSar a 63#64)).set .s1 (cMuluHi a b) := by
    rw [rtlMuluHi, rtlReg, get_set_of_ne (by decide) h.src1S0, get_set_of_ne (by decide) h.src2S0,
      h.src1, h.src2]
  have h₄ : rtlSub n.ddest .s1 .s0 ((n.set .s0 (b &&& cSar a 63#64)).set .s1 (cMuluHi a b)) =
      ((n.set .s0 (b &&& cSar a 63#64)).set .s1 (cMuluHi a b)).set n.ddest
        (cMuluHi a b - (b &&& cSar a 63#64)) := by
    rw [rtlSub, rtlReg, get_set_self (by decide), get_set_of_ne (by decide) (by decide),
      get_set_self (by decide)]
    rfl
  have hexec : n.execMulhsu = rtlSub n.ddest .s1 .s0 (rtlMuluHi .s1 n.dsrc1 n.dsrc2
      (rtlAnd .s0 n.dsrc2 .s0 (rtlSari .s0 n.dsrc1 63#64 n))) := rfl
  rw [hexec, h₁, h₂, h₃, h₄, mulhsu_eq, visible_set, visible_set n n.ddest]
  rfl

/-- One RTL instruction. -/
theorem reg (h : Operands n a b) (c : Word → Word → Word) :
    (rtlReg c n.ddest n.dsrc1 n.dsrc2 n).visible = (n.set n.ddest (c a b)).visible := by
  rw [rtlReg, h.src1, h.src2]

end Operands

end State

/-! ## Instructions -/

/-- The instructions of RV64M. -/
inductive RvmOp where
  | mul (o : Rv64.MulOp)
  | mulw
  | div (o : Rv64.DivOp)

namespace RvmOp

def format : RvmOp → Rv64.Format
  | mul o => o.format
  | mulw => Rv64.op32 0b000#3 0b0000001#7
  | div o => o.format

def value (a b : Word) : RvmOp → Word
  | mul o => o.value a b
  | mulw => Rv64.sextW (a.setWidth 32 * b.setWidth 32)
  | div o => o.value a b

/-- The helper. -/
def execId : RvmOp → ExecId
  | mul .mul => .mul
  | mul .mulh => .mulh
  | mul .mulhsu => .mulhsu
  | mul .mulhu => .mulhu
  | mulw => .mulw
  | div .div => .div
  | div .divu => .divu
  | div .rem => .rem
  | div .remu => .remu
  | div .divw => .divw
  | div .divuw => .divuw
  | div .remw => .remw
  | div .remuw => .remuw

end RvmOp

/-! ## Decoding -/

section

variable {s : Decode} {f3 : BitVec 3} {x : ExecId} {i : Nat}

/-- The patterns of a table do not depend on the instruction. -/
def MAIN_PATTERNS : List String :=
  (Decode.mainRows ⟨0#64, 0#64, 0#32, ⟨.rz, 0#64⟩, ⟨.rz, 0#64⟩, ⟨.rz, 0#64⟩⟩ false).map Prod.fst

/-- The row of the main table, then that of the table it leads to. -/
theorem tableMain_rvm {op : BitVec 7} {rows : List (String × ExecId)} {j : Nat} {translate : Bool}
    (h : (Rv64.Format.mk op (some f3) (.seven 0b0000001#7)).Matches s.instr)
    (hmain : resolve (ofBits op ++ (any 18 ++ ofBits 0b0000001#7)) MAIN_PATTERNS = some j)
    (hrow : ((s.mainRows translate).map Prod.snd)[j]? =
      some (s.decodeR, dispatch s.instr .inv rows))
    (hr : resolve (any 12 ++ ofBits f3) (rows.map Prod.fst) = some i)
    (hx : (rows.map Prod.snd)[i]? = some x) : s.tableMain translate = (s.decodeR, x) := by
  obtain ⟨hop, hf3, hf7⟩ := h
  have hf3 : s.instr.extractLsb' 12 3 = f3 := hf3 f3 rfl
  have hf7 : s.instr.extractLsb' 25 7 = 0b0000001#7 := hf7
  have hfits : Fits s.instr 0 (ofBits op ++ (any 18 ++ ofBits 0b0000001#7)) := by
    simp only [fits_append, fits_ofBits, fits_any, length_ofBits, length_any]
    exact ⟨hop, trivial, hf7⟩
  have htable : dispatch s.instr .inv rows = x := by
    refine dispatch_of_resolve ?_ hr hx
    simp only [fits_append, fits_ofBits, fits_any, length_any]
    exact ⟨trivial, hf3⟩
  rw [← htable]
  exact dispatch_of_resolve hfits hmain hrow

theorem tableMain_op (h : (Rv64.op f3 0b0000001#7).Matches s.instr)
    (hr : resolve (any 12 ++ ofBits f3) (Decode.rvmRows.map Prod.fst) = some i)
    (hx : (Decode.rvmRows.map Prod.snd)[i]? = some x) (translate : Bool) :
    s.tableMain translate = (s.decodeR, x) :=
  tableMain_rvm (j := 9) h (by decide +kernel) rfl hr hx

theorem tableMain_op32 (h : (Rv64.op32 f3 0b0000001#7).Matches s.instr)
    (hr : resolve (any 12 ++ ofBits f3) (Decode.rvm32Rows.map Prod.fst) = some i)
    (hx : (Decode.rvm32Rows.map Prod.snd)[i]? = some x) (translate : Bool) :
    s.tableMain translate = (s.decodeR, x) :=
  tableMain_rvm (j := 12) h (by decide +kernel) rfl hr hx

theorem RvmOp.tableMain {o : RvmOp} (h : o.format.Matches s.instr) (translate : Bool) :
    s.tableMain translate = (s.decodeR, o.execId) := by
  cases o with
  | mul o =>
    cases o with
    | mul => exact tableMain_op (i := 0) h (by decide +kernel) rfl _
    | mulh => exact tableMain_op (i := 1) h (by decide +kernel) rfl _
    | mulhsu => exact tableMain_op (i := 2) h (by decide +kernel) rfl _
    | mulhu => exact tableMain_op (i := 3) h (by decide +kernel) rfl _
  | mulw => exact tableMain_op32 (i := 0) h (by decide +kernel) rfl _
  | div o =>
    cases o with
    | div => exact tableMain_op (i := 4) h (by decide +kernel) rfl _
    | divu => exact tableMain_op (i := 5) h (by decide +kernel) rfl _
    | rem => exact tableMain_op (i := 6) h (by decide +kernel) rfl _
    | remu => exact tableMain_op (i := 7) h (by decide +kernel) rfl _
    | divw => exact tableMain_op32 (i := 1) h (by decide +kernel) rfl _
    | divuw => exact tableMain_op32 (i := 2) h (by decide +kernel) rfl _
    | remw => exact tableMain_op32 (i := 3) h (by decide +kernel) rfl _
    | remuw => exact tableMain_op32 (i := 4) h (by decide +kernel) rfl _

end

/-! ## One instruction -/

/-- A write of `rd`; the first register keeps its value. -/
def Visible.write (m : Visible) (rd : RegId) (v : Word) : Visible :=
  if rd = 0#5 then m else { m with gpr := Function.update m.gpr rd v }

namespace State

variable {n : State}

theorem operands_decodeR {s : Decode} (hs : n.s = s.decodeR) :
    Operands n (n.regs.gpr s.rs1) (n.regs.gpr s.rs2) := by
  have h1 : n.dsrc1 = .gpr s.rs1 := by
    rw [dsrc1, hs]
    rfl
  have h2 : n.dsrc2 = .gpr s.rs2 := by
    rw [dsrc2, hs]
    rfl
  have hd : n.ddest = .gpr s.rd ∨ n.ddest = .zeroNull := by
    rw [ddest, hs]
    by_cases h0 : s.rd = 0#5
    · simp [Decode.decodeR, Decode.opR, h0]
    · simp [Decode.decodeR, Decode.opR, h0]
  have hdest : n.ddest ≠ .rz := by
    rcases hd with hd | hd <;> simp [hd]
  refine ⟨hdest, ?_, ?_, ?_, ?_, ?_⟩ <;> simp [h1, h2]
  · rfl
  · rfl

theorem visible_write {s : Decode} (hs : n.s = s.decodeR) (v : Word) :
    (n.set n.ddest v).visible = n.visible.write s.rd v := by
  rw [visible_set, ddest, hs]
  by_cases h0 : s.rd = 0#5
  · simp [Decode.decodeR, Decode.opR, h0, Visible.set, Visible.write]
  · simp [Decode.decodeR, Decode.opR, h0, Visible.set, Visible.write]

theorem ehelper_rvm {a b : Word} (h : Operands n a b) (o : RvmOp) :
    ∃ n', n.ehelper o.execId = .ok n' ∧ n'.visible = (n.set n.ddest (o.value a b)).visible := by
  cases o with
  | mul o =>
    cases o with
    | mul => exact ⟨_, rfl, (h.reg cMuluLo).trans (by rw [cMuluLo_eq]; rfl)⟩
    | mulh => exact ⟨_, rfl, (h.reg cMulsHi).trans (by rw [cMulsHi_eq]; rfl)⟩
    | mulhsu => exact ⟨_, rfl, h.mulhsu⟩
    | mulhu => exact ⟨_, rfl, (h.reg cMuluHi).trans (by rw [cMuluHi_eq]; rfl)⟩
  | mulw => exact ⟨_, rfl, (h.reg cMulw).trans (by rw [cMulw_eq]; rfl)⟩
  | div o =>
    cases o with
    | div => exact ⟨_, rfl, h.div⟩
    | divu => exact ⟨_, rfl, h.divu⟩
    | rem => exact ⟨_, rfl, h.rem⟩
    | remu => exact ⟨_, rfl, h.remu⟩
    | divw => exact ⟨_, rfl, h.divw⟩
    | divuw => exact ⟨_, rfl, h.divuw⟩
    | remw => exact ⟨_, rfl, h.remw⟩
    | remuw => exact ⟨_, rfl, h.remuw⟩

end State

theorem RvmOp.long {o : RvmOp} {ins : Ins} (h : o.format.Matches ins) :
    ins.extractLsb' 0 2 = 3#2 := by
  have hop : ins.extractLsb' 0 7 = 0b0110011#7 ∨ ins.extractLsb' 0 7 = 0b0111011#7 := by
    rcases o with (_ | _ | _ | _) | _ | (_ | _ | _ | _ | _ | _ | _ | _)
    all_goals first | exact .inl h.1 | exact .inr h.1
  have hlow : ins.extractLsb' 0 2 = (ins.extractLsb' 0 7).extractLsb' 0 2 := by
    apply BitVec.eq_of_getLsbD_eq
    intro k hk
    simp [BitVec.getLsbD_extractLsb']
  rcases hop with hop | hop <;> rw [hlow, hop] <;> rfl

/-- **NEMU executes RV64M.** -/
theorem cpuExec_rvm {n : State} {ins : Ins} {o : RvmOp} (hf : n.Fetches ins)
    (hm : o.format.Matches ins) :
    n.cpuExec.map State.visible = some
      { n.visible.write (Rv64.rd ins)
          (o.value (n.regs.gpr (Rv64.rs1 ins)) (n.regs.gpr (Rv64.rs2 ins))) with
        pc := n.pc + 4#64 } := by
  have hrun : ¬ (n.nemuState == .ended || n.nemuState == .abort) = true := by
    simp [hf.ended, hf.abort]
  -- the state that the helper starts from
  let s : Decode := ⟨n.pc, n.pc + 4#64, ins, n.s.dest, n.s.src1, n.s.src2⟩
  let n₁ : State := { n with nemuState := .running, s := s.decodeR, pc := n.pc + 4#64 }
  have hfetch : State.Fetches { n with nemuState := .running } ins :=
    ⟨by simp, by simp, hf.vm, hf.mmu, hf.lo, hf.hi, hf.word⟩
  have hexec : State.execute { n with nemuState := .running } = n₁.ehelper o.execId := by
    rw [State.execute, State.fetchDecode_eq hfetch (RvmOp.long hm), RvmOp.tableMain hm]
    rfl
  obtain ⟨n', hn', hvis⟩ := State.ehelper_rvm (State.operands_decodeR (n := n₁) (s := s) rfl) o
  have hstop : n.cpuExec = some { n' with nemuState := .stop } := by
    rw [State.cpuExec, if_neg hrun, hexec, hn']
  rw [hstop, Option.map_some]
  have hwrite := State.visible_write (n := n₁) (s := s) rfl
    (o.value (n₁.regs.gpr s.rs1) (n₁.regs.gpr s.rs2))
  refine congrArg some ((hvis.trans hwrite).trans ?_)
  unfold Visible.write
  split_ifs <;> first | rfl | contradiction

/-- `mulhsu x3, x1, x2` is at the pc. -/
def multiplying : State :=
  { storing with pmem := ByteMem.store (fun _ => 0#8) 0x80000000#32 4 0x0220a1b3#32 }

theorem cpuExec_rvm_multiplying : multiplying.cpuExec.map State.visible = some
    { multiplying.visible.write 3#5
        (Rv64.MulOp.mulhsu.value 0x1122334455667788#64 0x80000100#64) with
      pc := 0x80000004#64 } := by
  have hfetch : multiplying.Fetches 0x0220a1b3#32 :=
    ⟨by decide, by decide, rfl, rfl, by decide, by decide, by decide +kernel⟩
  have hformat : (RvmOp.mul .mulhsu).format.Matches 0x0220a1b3#32 := by decide
  exact cpuExec_rvm hfetch hformat

end Oscpu.Nemu
