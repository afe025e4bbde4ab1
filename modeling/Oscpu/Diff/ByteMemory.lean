import Oscpu.Diff.SimTop
import Oscpu.Lib.Bytes

/-!
# The memory of `cpu_diff` as bytes

`lsu` reads and writes `RAMHelper` by 64-bit words, the lanes of an access picked by tables over the
low bits of its address. Seen as bytes the words are a little-endian memory, for aligned accesses
within the RAM.
-/

namespace Oscpu.Diff

open Oscpu.Rtl Oscpu.Lib

/-- `ram_read_helper`. -/
def ramReadHelper (ram : Ram) (en : Bool) (rIdx : Word) : Word :=
  let words := EMU_RAM_SIZE / 8
  let idx := if en && words ≤ rIdx.toNat then rIdx % BitVec.ofNat 64 words else rIdx
  if en then ram idx else 0#64

/-- `ram_write_helper`. A write out of bounds fails its assertion. -/
def ramWriteHelper (ram : Ram) (wIdx wdata wmask : Word) (wen : Bool) : Option Ram :=
  if !wen then some ram
  else if EMU_RAM_SIZE / 8 ≤ wIdx.toNat then none
  else some (Ram.write ram true wIdx wdata wmask)

/-- The state of `lsu`: the RAM and what its two latches hold. -/
structure Lsu where
  ram : Ram
  regld : Word
  wdata : Word

/-- The inputs of `lsu`. -/
structure LsuIn where
  lsfunc3 : BitVec 3
  lden : Bool
  sten : Bool
  addr : Word
  regst : Word

/-- `lsu` for one cycle, the clock edge included. -/
def Lsu.step (l : Lsu) (i : LsuIn) : Option Lsu :=
  let en := i.lden || i.sten
  let rdata := ramReadHelper l.ram en (ramIdx i.addr)
  let wdata := lsuWdata i.sten i.lsfunc3 i.regst l.wdata
  (ramWriteHelper l.ram (ramIdx i.addr) wdata (lsuWmask i.lsfunc3 i.addr) (i.sten && en)).map
    fun ram => ⟨ram, lsuRegld i.lden i.lsfunc3 i.addr rdata l.regld, wdata⟩

theorem ramReadHelper_of_lt {ram : Ram} {rIdx : Word} (h : rIdx.toNat < EMU_RAM_SIZE / 8) :
    ramReadHelper ram true rIdx = ram rIdx := by
  simp [ramReadHelper, Nat.not_le.2 h]

theorem ramWriteHelper_of_lt {ram : Ram} {wIdx : Word} (h : wIdx.toNat < EMU_RAM_SIZE / 8)
    (wdata wmask : Word) (wen : Bool) :
    ramWriteHelper ram wIdx wdata wmask wen = some (Ram.write ram wen wIdx wdata wmask) := by
  cases wen with
  | false => rfl
  | true => simp [ramWriteHelper, Nat.not_le.2 h]

/-- Within the RAM the helpers are the array itself. -/
theorem Lsu.step_eq {l : Lsu} {i : LsuIn}
    (h : (i.lden || i.sten) = true → (ramIdx i.addr).toNat < EMU_RAM_SIZE / 8) :
    l.step i = some
      ⟨Ram.write l.ram i.sten (ramIdx i.addr) (lsuWdata i.sten i.lsfunc3 i.regst l.wdata)
          (lsuWmask i.lsfunc3 i.addr),
        lsuRegld i.lden i.lsfunc3 i.addr (l.ram (ramIdx i.addr)) l.regld,
        lsuWdata i.sten i.lsfunc3 i.regst l.wdata⟩ := by
  unfold Lsu.step
  cases hen : i.lden || i.sten with
  | true =>
    rw [hen] at h
    dsimp only
    rw [ramReadHelper_of_lt (h rfl), ramWriteHelper_of_lt (h rfl), Bool.and_true]
    rfl
  | false =>
    rw [Bool.or_eq_false_iff] at hen
    rw [hen.1, hen.2]
    rfl

/-- `lsu` in the core, with the instruction in MEM. -/
def Core.lsu (s : Core) : Lsu := ⟨s.ram, s.regldQ, s.wdataQ⟩

def Core.lsuIn (s : Core) : LsuIn :=
  let m := s.exLs.data
  ⟨m.func3, m.lden, m.sten, m.exres, m.rs2⟩

/-- The core does what `lsu` does, for accesses within the RAM. -/
theorem Core.step_lsu {s : Core}
    (h : (s.exLs.data.lden || s.exLs.data.sten) = true →
      (ramIdx s.exLs.data.exres).toNat < EMU_RAM_SIZE / 8) :
    s.lsu.step s.lsuIn = some (s.step false).lsu :=
  Lsu.step_eq (l := s.lsu) (i := s.lsuIn) h

/-! ## The bytes of the RAM -/

/-- The byte at an address. -/
def Ram.byte (ram : Ram) : ByteMem 64 :=
  fun x => ByteMem.lane (ram (ramIdx x)) (x.toNat % 8)

theorem toNat_PC_START : PC_START.toNat = 2147483648 := rfl

theorem ramIdx_toNat (x : Word) :
    (ramIdx x).toNat = (2 ^ 64 - 2147483648 + x.toNat) % 2 ^ 64 / 8 := by
  rw [ramIdx, BitVec.toNat_ushiftRight, Nat.shiftRight_eq_div_pow, BitVec.toNat_sub, toNat_PC_START]

/-- The bytes of one word have addresses without a carry out of the low three bits. -/
theorem ramIdx_add {a : Word} {j : Nat} (h : a.toNat % 8 + j < 8) :
    ramIdx (a + BitVec.ofNat 64 j) = ramIdx a := by
  apply BitVec.eq_of_toNat_eq
  rw [ramIdx_toNat, ramIdx_toNat, BitVec.toNat_add, BitVec.toNat_ofNat]
  omega

theorem ramIdx_eq_iff {x a : Word} {n : Nat} (h : a.toNat % 8 + n ≤ 8) :
    (x - a).toNat < n ↔
      ramIdx x = ramIdx a ∧ a.toNat % 8 ≤ x.toNat % 8 ∧ x.toNat % 8 < a.toNat % 8 + n := by
  rw [← BitVec.toNat_inj, ramIdx_toNat, ramIdx_toNat, BitVec.toNat_sub]
  omega

theorem toNat_sub_of_ramIdx_eq {x a : Word} (hidx : ramIdx x = ramIdx a)
    (hle : a.toNat % 8 ≤ x.toNat % 8) : (x - a).toNat = x.toNat % 8 - a.toNat % 8 := by
  rw [← BitVec.toNat_inj, ramIdx_toNat, ramIdx_toNat] at hidx
  rw [BitVec.toNat_sub]
  omega

/-! ## Lanes -/

/-- The number of bytes of an access. -/
def accessBytes (f3 : BitVec 3) : Nat := 2 ^ (f3.extractLsb' 0 2).toNat

/-- The value of a load whose bytes are the lowest of `v`. -/
def extended (f3 : BitVec 3) (v : Word) : Word :=
  if f3.getLsbD 2 then (v.extractLsb' 0 (8 * accessBytes f3)).zeroExtend 64
  else (v.extractLsb' 0 (8 * accessBytes f3)).signExtend 64

section

variable {f3 : BitVec 3} {a : Word}

theorem accessBytes_cases (f3 : BitVec 3) :
    accessBytes f3 = 1 ∨ accessBytes f3 = 2 ∨ accessBytes f3 = 4 ∨ accessBytes f3 = 8 := by
  revert f3
  decide

theorem shift_toNat (a : Word) : (a.extractLsb' 0 3).toNat = a.toNat % 8 := by
  rw [BitVec.extractLsb'_toNat, Nat.shiftRight_zero]

/-- An aligned access stays in one word. -/
theorem offset_add_accessBytes_le (ha : accessBytes f3 ∣ a.toNat) :
    a.toNat % 8 + accessBytes f3 ≤ 8 := by
  rcases accessBytes_cases f3 with h | h | h | h <;> rw [h] at ha ⊢ <;> omega

theorem dvd_shift (ha : accessBytes f3 ∣ a.toNat) : accessBytes f3 ∣ (a.extractLsb' 0 3).toNat := by
  rw [shift_toNat]
  rcases accessBytes_cases f3 with h | h | h | h <;> rw [h] at ha ⊢ <;> omega

theorem extended_congr {v v' : Word}
    (h : ∀ k, k < 8 * accessBytes f3 → v.getLsbD k = v'.getLsbD k) :
    extended f3 v = extended f3 v' := by
  have hcut : v.extractLsb' 0 (8 * accessBytes f3) = v'.extractLsb' 0 (8 * accessBytes f3) := by
    apply BitVec.eq_of_getLsbD_eq
    intro k hk
    rw [BitVec.getLsbD_extractLsb', BitVec.getLsbD_extractLsb', Nat.zero_add, h k hk]
  rw [extended, extended, hcut]

theorem load_cases (hf : f3 ≠ 7#3) :
    f3 = 0#3 ∨ f3 = 1#3 ∨ f3 = 2#3 ∨ f3 = 3#3 ∨ f3 = 4#3 ∨ f3 = 5#3 ∨ f3 = 6#3 := by
  revert f3
  decide

theorem store_cases (hf : f3.getLsbD 2 = false) : f3 = 0#3 ∨ f3 = 1#3 ∨ f3 = 2#3 ∨ f3 = 3#3 := by
  revert f3
  decide

/-- The selection tables of a load. -/
theorem lsuRegld_eq (hf : f3 ≠ 7#3) (ha : accessBytes f3 ∣ a.toNat) (rdata held : Word) :
    lsuRegld true f3 a rdata held = extended f3 (rdata >>> (8 * (a.toNat % 8))) := by
  have hsel (o n : Nat) : rdata.extractLsb' o n = (rdata >>> o).extractLsb' 0 n := by
    apply BitVec.eq_of_getLsbD_eq
    intro k hk
    rw [BitVec.getLsbD_extractLsb', BitVec.getLsbD_extractLsb', BitVec.getLsbD_ushiftRight,
      Nat.zero_add]
  have hdvd := dvd_shift ha
  have hhalf (o : BitVec 3) : 2 ∣ o.toNat → (o.extractLsb' 0 1 == 0#1) = true := by
    revert o
    decide
  have hword (o : BitVec 3) : 4 ∣ o.toNat → (o.extractLsb' 0 2 == 0#2) = true := by
    revert o
    decide
  unfold lsuRegld
  dsimp only
  rw [← shift_toNat]
  simp only [hsel (8 * _) _]
  rcases load_cases hf with rfl | rfl | rfl | rfl | rfl | rfl | rfl
  · rfl
  · rw [hhalf _ hdvd]
    rfl
  · rw [hword _ hdvd]
    rfl
  · have hzero : (a.extractLsb' 0 3).toNat = 0 :=
      Nat.eq_zero_of_dvd_of_lt hdvd (a.extractLsb' 0 3).isLt
    rw [hzero]
    change rdata = ((rdata >>> 0).extractLsb' 0 64).signExtend 64
    simp
  · rfl
  · rw [hhalf _ hdvd]
    rfl
  · rw [hword _ hdvd]
    rfl

/-- The mask tables of a store. -/
theorem lsuWmask_eq (hf : f3.getLsbD 2 = false) (ha : accessBytes f3 ∣ a.toNat) :
    lsuWmask f3 a = BitVec.ofNat 64 (2 ^ (8 * accessBytes f3) - 1) <<< (8 * (a.toNat % 8)) := by
  have hdvd := dvd_shift ha
  rw [← shift_toNat]
  unfold lsuWmask
  clear ha
  generalize a.extractLsb' 0 3 = o at *
  revert o f3
  decide

theorem getLsbD_lsuWmask (hf : f3.getLsbD 2 = false) (ha : accessBytes f3 ∣ a.toNat) {j k : Nat}
    (hj : j < 8) (hk : k < 8) : (lsuWmask f3 a).getLsbD (8 * j + k) =
      decide (a.toNat % 8 ≤ j ∧ j < a.toNat % 8 + accessBytes f3) := by
  have hn : 8 * accessBytes f3 ≤ 64 := by
    rcases accessBytes_cases f3 with h | h | h | h <;> omega
  have hbit : 8 * j + k < 64 := by omega
  rw [lsuWmask_eq hf ha, BitVec.getLsbD_shiftLeft, getLsbD_ones hn]
  by_cases hle : a.toNat % 8 ≤ j
  · have h1 : ¬ 8 * j + k < 8 * (a.toNat % 8) := by omega
    have h2 : 8 * j + k - 8 * (a.toNat % 8) < 8 * accessBytes f3 ↔
        j < a.toNat % 8 + accessBytes f3 := by omega
    simp [h1, h2, hle, hbit]
  · have h1 : 8 * j + k < 8 * (a.toNat % 8) := by omega
    simp [h1, hle]

/-- The data of a store are its bytes over and over. -/
theorem getLsbD_lsuWdata (hf : f3.getLsbD 2 = false) (v held : Word) {k : Nat} (hk : k < 64) :
    (lsuWdata true f3 v held).getLsbD k = v.getLsbD (k % (8 * accessBytes f3)) := by
  have hrep (n c : Nat) (hn : 0 < n) (hnc : n * c = 64) :
      ((v.extractLsb' 0 n).replicate c).getLsbD k = v.getLsbD (k % n) := by
    rw [BitVec.getLsbD_replicate, BitVec.getLsbD_extractLsb', Nat.zero_add, hnc]
    simp [hk, Nat.mod_lt k hn]
  rcases store_cases hf with rfl | rfl | rfl | rfl
  · exact hrep 8 8 (by omega) rfl
  · exact hrep 16 4 (by omega) rfl
  · exact hrep 32 2 (by omega) rfl
  · exact congrArg v.getLsbD (Nat.mod_eq_of_lt hk).symm

/-- A load returns its bytes. -/
theorem lsuRegld_load (hf : f3 ≠ 7#3) (ha : accessBytes f3 ∣ a.toNat) (ram : Ram) (held : Word) :
    lsuRegld true f3 a (ram (ramIdx a)) held =
      extended f3 (ByteMem.load 64 ram.byte a (accessBytes f3)) := by
  have hfit := offset_add_accessBytes_le ha
  rw [lsuRegld_eq hf ha]
  apply extended_congr
  intro k hk
  have hlt : a.toNat % 8 + k / 8 < 8 := by omega
  have hoff : (a + BitVec.ofNat 64 (k / 8)).toNat % 8 = a.toNat % 8 + k / 8 := by
    rw [BitVec.toNat_add, BitVec.toNat_ofNat]
    omega
  have hbit : 8 * (a.toNat % 8 + k / 8) + k % 8 = 8 * (a.toNat % 8) + k := by omega
  have hmod : k % 8 < 8 := Nat.mod_lt k (by omega)
  rw [BitVec.getLsbD_ushiftRight, ByteMem.getLsbD_load _ _ _ (by omega), Ram.byte,
    ByteMem.getLsbD_lane, ramIdx_add hlt, hoff, hbit]
  simp [hk, hmod]

/-- A store changes its bytes and no others. -/
theorem byte_write (hf : f3.getLsbD 2 = false) (ha : accessBytes f3 ∣ a.toNat) (ram : Ram)
    (v held : Word) :
    Ram.byte (Ram.write ram true (ramIdx a) (lsuWdata true f3 v held) (lsuWmask f3 a)) =
      ram.byte.store a (accessBytes f3) v := by
  have hfit := offset_add_accessBytes_le ha
  funext x
  have hin := ramIdx_eq_iff (x := x) hfit
  unfold Ram.byte ByteMem.store Ram.write
  by_cases hidx : ramIdx x = ramIdx a
  · apply BitVec.eq_of_getLsbD_eq
    intro k hk
    have hx : x.toNat % 8 < 8 := Nat.mod_lt _ (by omega)
    have hbit : 8 * (x.toNat % 8) + k < 64 := by omega
    have hmask := getLsbD_lsuWmask hf ha hx hk
    have hsel : (true && ramIdx x == ramIdx a) = true := beq_iff_eq.2 hidx
    rw [hsel, if_pos rfl, ByteMem.getLsbD_lane, BitVec.getLsbD_or, BitVec.getLsbD_and,
      BitVec.getLsbD_and, BitVec.getLsbD_not, hmask, getLsbD_lsuWdata hf v held hbit]
    have hmem : (x - a).toNat < accessBytes f3 ↔ _ := hin.trans (and_iff_right hidx)
    rw [← decide_eq_decide.2 hmem]
    by_cases hlt : (x - a).toNat < accessBytes f3
    · have hdist := toNat_sub_of_ramIdx_eq hidx (hin.1 hlt).2.1
      have hle := (hin.1 hlt).2.1
      have hmod : (8 * (x.toNat % 8) + k) % (8 * accessBytes f3) = 8 * (x - a).toNat + k := by
        rcases accessBytes_cases f3 with h | h | h | h <;> rw [h] at ha hlt ⊢ <;> omega
      rw [if_pos hlt, decide_eq_true hlt, ByteMem.getLsbD_lane, hmod]
      simp [hk]
    · rw [if_neg hlt, decide_eq_false hlt, ByteMem.getLsbD_lane]
      simp [hk, hbit]
  · have hout : ¬ (x - a).toNat < accessBytes f3 := fun h => hidx (hin.1 h).1
    have hne : (ramIdx x == ramIdx a) = false := beq_eq_false_iff_ne.2 hidx
    rw [hne, if_neg hout]
    rfl

end

/-! ## Sequences of accesses -/

/-- A load or a store as `lsu` sees it. A load carries a register content too, which is not used. -/
structure Access where
  write : Bool
  f3 : BitVec 3
  addr : Word
  rs2 : Word

namespace Access

variable (c : Access)

def input : LsuIn := ⟨c.f3, !c.write, c.write, c.addr, c.rs2⟩

/-- An aligned access of one of the eleven kinds within the RAM. -/
structure Legal : Prop where
  kind : if c.write then c.f3.getLsbD 2 = false else c.f3 ≠ 7#3
  aligned : accessBytes c.f3 ∣ c.addr.toNat
  lower : PC_START.toNat ≤ c.addr.toNat
  upper : c.addr.toNat < PC_START.toNat + EMU_RAM_SIZE

instance : Decidable c.Legal :=
  decidable_of_iff ((if c.write then c.f3.getLsbD 2 = false else c.f3 ≠ 7#3) ∧
      accessBytes c.f3 ∣ c.addr.toNat ∧ PC_START.toNat ≤ c.addr.toNat ∧
        c.addr.toNat < PC_START.toNat + EMU_RAM_SIZE)
    ⟨fun h => ⟨h.1, h.2.1, h.2.2.1, h.2.2.2⟩, fun h => ⟨h.kind, h.aligned, h.lower, h.upper⟩⟩

/-- The store of bytes that an access is. -/
def stored : Option (ByteMem.Store 64 64) :=
  if c.write then some ⟨c.addr, accessBytes c.f3, c.rs2⟩ else none

end Access

namespace Lsu

variable {l : Lsu} {c : Access}

/-- The state after a sequence of accesses. -/
def run (l : Lsu) : List Access → Option Lsu
  | [] => some l
  | c :: cs => (l.step c.input).bind fun l' => l'.run cs

theorem ramIdx_lt (hc : c.Legal) : (ramIdx c.addr).toNat < EMU_RAM_SIZE / 8 := by
  have hlo := hc.lower
  have hhi := hc.upper
  rw [toNat_PC_START] at hlo hhi
  rw [ramIdx_toNat]
  unfold EMU_RAM_SIZE at *
  omega

theorem step_load (hc : c.Legal) (hw : c.write = false) :
    ∃ l', l.step c.input = some l' ∧ l'.ram.byte = l.ram.byte ∧
      l'.regld = extended c.f3 (ByteMem.load 64 l.ram.byte c.addr (accessBytes c.f3)) := by
  have hkind := hc.kind
  rw [hw, if_neg Bool.false_ne_true] at hkind
  refine ⟨_, step_eq fun _ => ramIdx_lt hc, ?_, ?_⟩
  · rw [Access.input, hw]
    rfl
  · rw [Access.input, hw]
    exact lsuRegld_load hkind hc.aligned l.ram l.regld

theorem step_store (hc : c.Legal) (hw : c.write = true) :
    ∃ l', l.step c.input = some l' ∧
      l'.ram.byte = l.ram.byte.store c.addr (accessBytes c.f3) c.rs2 := by
  have hkind := hc.kind
  rw [hw, if_pos rfl] at hkind
  refine ⟨_, step_eq fun _ => ramIdx_lt hc, ?_⟩
  rw [Access.input, hw]
  exact byte_write hkind hc.aligned l.ram c.rs2 l.wdata

/-- The bytes after a sequence are those that were stored last. -/
theorem run_byte (cs : List Access) (h : ∀ c ∈ cs, c.Legal) :
    ∃ l', l.run cs = some l' ∧ ∀ x,
      l'.ram.byte x = (ByteMem.latest x (cs.filterMap Access.stored)).getD (l.ram.byte x) := by
  induction cs generalizing l with
  | nil => exact ⟨l, rfl, fun _ => rfl⟩
  | cons c cs ih =>
    have hc := h c List.mem_cons_self
    cases hw : c.write with
    | false =>
      obtain ⟨l₁, hstep, hbyte, -⟩ := step_load (l := l) hc hw
      obtain ⟨l', hrun, hx⟩ := ih (l := l₁) fun d hd => h d (List.mem_cons_of_mem c hd)
      have hnone : c.stored = none := by simp [Access.stored, hw]
      refine ⟨l', by rw [run, hstep]; exact hrun, ?_⟩
      intro x
      rw [hx, List.filterMap_cons_none hnone, hbyte]
    | true =>
      obtain ⟨l₁, hstep, hbyte⟩ := step_store (l := l) hc hw
      obtain ⟨l', hrun, hx⟩ := ih (l := l₁) fun d hd => h d (List.mem_cons_of_mem c hd)
      have hsome : c.stored = some ⟨c.addr, accessBytes c.f3, c.rs2⟩ := by simp [Access.stored, hw]
      refine ⟨l', by rw [run, hstep]; exact hrun, ?_⟩
      intro x
      rw [hx, List.filterMap_cons_some hsome, ← ByteMem.foldl_store, ← ByteMem.foldl_store,
        List.foldl_cons, hbyte]

end Lsu

/-- **Byte memory.** After any aligned accesses within the RAM a load returns the extension of the
bytes stored last at its address, and a store changes the bytes it addresses and no others. -/
theorem lsu_byteMemory (l : Lsu) {cs : List Access} (h : ∀ c ∈ cs, c.Legal) :
    let last : ByteMem 64 := fun x =>
      (ByteMem.latest x (cs.filterMap Access.stored)).getD (l.ram.byte x)
    ∃ l₁, l.run cs = some l₁ ∧ l₁.ram.byte = last ∧
      ∀ c : Access, c.Legal →
        (c.write = false → ∃ l₂, l₁.step c.input = some l₂ ∧ l₂.ram.byte = last ∧
          l₂.regld = extended c.f3 (ByteMem.load 64 last c.addr (accessBytes c.f3))) ∧
        (c.write = true → ∃ l₂, l₁.step c.input = some l₂ ∧
          ∀ x, l₂.ram.byte x = if (x - c.addr).toNat < accessBytes c.f3 then
              ByteMem.lane c.rs2 (x - c.addr).toNat
            else last x) := by
  intro last
  obtain ⟨l₁, hrun, hbyte⟩ := Lsu.run_byte (l := l) cs h
  have hlast : l₁.ram.byte = last := funext hbyte
  refine ⟨l₁, hrun, hlast, fun c hc => ⟨?_, ?_⟩⟩
  · intro hw
    rw [← hlast]
    exact Lsu.step_load hc hw
  · intro hw
    obtain ⟨l₂, hstep, hstore⟩ := Lsu.step_store (l := l₁) hc hw
    refine ⟨l₂, hstep, ?_⟩
    intro x
    rw [hstore, ← hlast]
    rfl

/-- `sd` of a word and `lb` of its fourth byte. -/
theorem lsu_byteMemory_lb :
    let l : Lsu := ⟨fun _ => 0#64, 0#64, 0#64⟩
    let sd : Access := ⟨true, 3#3, 0x80000008#64, 0x1122334485667788#64⟩
    let lb : Access := ⟨false, 0#3, 0x8000000b#64, 0#64⟩
    ∃ l₁ l₂, l.run [sd] = some l₁ ∧ l₁.step lb.input = some l₂ ∧
      l₂.regld = 0xffffffffffffff85#64 := by
  intro l sd lb
  have hlegal : sd.Legal ∧ lb.Legal := by decide
  have hall : ∀ c ∈ [sd], c.Legal := by simpa using hlegal.1
  obtain ⟨l₁, hrun, -, hnext⟩ := lsu_byteMemory l hall
  obtain ⟨l₂, hstep, -, hval⟩ := (hnext lb hlegal.2).1 rfl
  refine ⟨l₁, l₂, hrun, hstep, hval.trans (by decide)⟩

end Oscpu.Diff
