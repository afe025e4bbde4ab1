import Oscpu.Axi.System
import Oscpu.Lib.Bytes

/-!
# The lanes of a read

`axi_rw` cuts the requested bytes out of the one or two words that a burst returns, with masks and
shifts made from the address. Here they are compared with the bytes themselves.
-/

namespace Oscpu.Axi

open Oscpu.Rtl Oscpu.Lib

/-- The number of bytes of a transfer. -/
def sizeBytes (size : BitVec 2) : Nat :=
  if size = SIZE_B then 1 else if size = SIZE_H then 2 else if size = SIZE_W then 4 else 8

/-- The lowest `n` bytes of a word. -/
def lowBytes (n : Nat) (w : Word) : Word := w &&& BitVec.ofNat 64 (2 ^ (8 * n) - 1)

/-- The place of a byte in its word. -/
def byteOffset (addr : Word) : Nat := (addr.extractLsb' 0 3).toNat

/-- The bytes from `addr` on, out of the two words at its address. -/
def Mem.content (m : Mem) (addr : Word) (size : BitVec 2) : Word :=
  let k := Mem.wordIdx addr
  lowBytes (sizeBytes size)
    (((m (k + 1#64) ++ m k) >>> (8 * byteOffset addr)).extractLsb' 0 64)

theorem sizeBytes_cases (size : BitVec 2) :
    sizeBytes size = 1 ∨ sizeBytes size = 2 ∨ sizeBytes size = 4 ∨ sizeBytes size = 8 := by
  unfold sizeBytes
  split_ifs <;> simp

theorem getLsbD_lowBytes (size : BitVec 2) (w : Word) (k : Nat) :
    (lowBytes (sizeBytes size) w).getLsbD k = (w.getLsbD k && decide (k < 8 * sizeBytes size)) := by
  rw [lowBytes, BitVec.getLsbD_and, getLsbD_ones]
  rcases sizeBytes_cases size with h | h | h | h <;> omega

theorem getLsbD_content (m : Mem) (addr : Word) (size : BitVec 2) {k : Nat} (hk : k < 64) :
    (m.content addr size).getLsbD k =
      ((if 8 * byteOffset addr + k < 64 then
          (m (Mem.wordIdx addr)).getLsbD (8 * byteOffset addr + k)
        else (m (Mem.wordIdx addr + 1#64)).getLsbD (8 * byteOffset addr + k - 64)) &&
        decide (k < 8 * sizeBytes size)) := by
  rw [Mem.content, getLsbD_lowBytes, BitVec.getLsbD_extractLsb', BitVec.getLsbD_ushiftRight,
    BitVec.getLsbD_append]
  simp only [hk, decide_true, Bool.true_and, Nat.zero_add]

namespace RwReq

variable (r : RwReq)

theorem byteOffset_lt : byteOffset r.addr < 8 := (r.addr.extractLsb' 0 3).isLt

theorem offsetL_toNat : r.offsetL.toNat = 8 * byteOffset r.addr := by
  unfold offsetL byteOffset
  generalize r.addr.extractLsb' 0 3 = o
  revert o
  decide

theorem offsetH_toNat : r.offsetH.toNat = (64 - 8 * byteOffset r.addr) % 64 := by
  unfold offsetH offsetL byteOffset
  generalize r.addr.extractLsb' 0 3 = o
  revert o
  decide

/-- Two words are read exactly when the bytes do not fit into one. -/
theorem axiLen_eq : r.axiLen = if 8 < byteOffset r.addr + sizeBytes r.size then 1#8 else 0#8 := by
  unfold axiLen aligned overstep addrEnd byteOffset
  generalize r.addr.extractLsb' 0 3 = o
  generalize r.size = size
  revert o size
  decide

theorem axiLen_eq_ite : r.axiLen = if !r.aligned && r.overstep then 1#8 else 0#8 := by
  unfold axiLen
  cases r.aligned <;> cases r.overstep <;> decide

theorem mask_getLsbD {k : Nat} (hk : k < 64) :
    r.mask.getLsbD (8 * byteOffset r.addr + k) = decide (k < 8 * sizeBytes r.size) := by
  have ho := r.byteOffset_lt
  have hmask : r.mask = BitVec.ofNat 128 (2 ^ (8 * sizeBytes r.size) - 1) <<< (8 * byteOffset r.addr) := by
    rw [← offsetL_toNat, mask]
    congr 1
    generalize r.size = size
    revert size
    decide
  rw [hmask, BitVec.getLsbD_shiftLeft, Nat.add_sub_cancel_left, getLsbD_ones]
  · have hlt : 8 * byteOffset r.addr + k < 128 := by omega
    simp [hlt]
  · rcases sizeBytes_cases r.size with h | h | h | h <;> omega

theorem getLsbD_dataL (w : Word) {k : Nat} (hk : k < 64) :
    (r.dataL w).getLsbD k =
      (w.getLsbD (8 * byteOffset r.addr + k) && decide (8 * byteOffset r.addr + k < 64) &&
        decide (k < 8 * sizeBytes r.size)) := by
  rw [dataL, offsetL_toNat, BitVec.getLsbD_ushiftRight, BitVec.getLsbD_and,
    BitVec.getLsbD_extractLsb', Nat.zero_add, mask_getLsbD r hk, Bool.and_assoc]

theorem getLsbD_dataH (w : Word) (ho : 0 < byteOffset r.addr) {k : Nat} (hk : k < 64) :
    (r.dataH w).getLsbD k =
      (decide (64 ≤ 8 * byteOffset r.addr + k) && w.getLsbD (8 * byteOffset r.addr + k - 64) &&
        decide (k < 8 * sizeBytes r.size)) := by
  have hlt := r.byteOffset_lt
  have hh : (64 - 8 * byteOffset r.addr) % 64 = 64 - 8 * byteOffset r.addr := Nat.mod_eq_of_lt (by omega)
  rw [dataH, offsetH_toNat, hh, BitVec.getLsbD_shiftLeft, BitVec.getLsbD_and,
    BitVec.getLsbD_extractLsb']
  by_cases hge : 64 ≤ 8 * byteOffset r.addr + k
  · have hidx : 64 + (k - (64 - 8 * byteOffset r.addr)) = 8 * byteOffset r.addr + k := by omega
    have hidx' : k - (64 - 8 * byteOffset r.addr) = 8 * byteOffset r.addr + k - 64 := by omega
    have hle : ¬ k < 64 - 8 * byteOffset r.addr := by omega
    have hword : 8 * byteOffset r.addr + k - 64 < 64 := by omega
    rw [hidx, hidx', mask_getLsbD r hk]
    simp [hk, hge, hle, hword]
  · have hlt : k < 64 - 8 * byteOffset r.addr := by omega
    simp [hge, hlt]

/-- One word holds all the bytes. -/
theorem dataL_eq_content (m : Mem) (hl : r.axiLen = 0#8) :
    r.dataL (m (Mem.wordIdx r.addr)) = m.content r.addr r.size := by
  have hfit : byteOffset r.addr + sizeBytes r.size ≤ 8 := by
    rw [axiLen_eq] at hl
    by_contra h
    rw [if_pos (by omega)] at hl
    exact absurd hl (by decide)
  apply BitVec.eq_of_getLsbD_eq
  intro k hk
  rw [getLsbD_dataL r _ hk, getLsbD_content m _ _ hk]
  by_cases hs : k < 8 * sizeBytes r.size
  · have hlt : 8 * byteOffset r.addr + k < 64 := by omega
    simp [hs, hlt]
  · simp [hs]

theorem dataL_or_dataH_eq_content (m : Mem) (hl : r.axiLen ≠ 0#8) :
    r.dataL (m (Mem.wordIdx r.addr)) ||| r.dataH (m (Mem.wordIdx r.addr + 1#64)) =
      m.content r.addr r.size := by
  have hbytes : sizeBytes r.size ≤ 8 := by
    rcases sizeBytes_cases r.size with h | h | h | h <;> omega
  have ho : 0 < byteOffset r.addr := by
    by_contra h
    rw [axiLen_eq, if_neg (by omega)] at hl
    exact hl rfl
  apply BitVec.eq_of_getLsbD_eq
  intro k hk
  rw [BitVec.getLsbD_or, getLsbD_dataL r _ hk, getLsbD_dataH r _ ho hk, getLsbD_content m _ _ hk]
  by_cases hlt : 8 * byteOffset r.addr + k < 64
  · have hge : ¬ 64 ≤ 8 * byteOffset r.addr + k := by omega
    simp [hlt, hge]
  · have hge : 64 ≤ 8 * byteOffset r.addr + k := by omega
    simp [hlt, hge]

/-- The bus word of an address is the word of its aligned address. -/
theorem wordIdx_axiAddr : Mem.wordIdx r.axiAddr = Mem.wordIdx r.addr := by
  unfold Mem.wordIdx axiAddr
  apply BitVec.eq_of_getLsbD_eq
  intro k hk
  have hge : ¬ 3 + k < 3 := by omega
  simp only [BitVec.getLsbD_ushiftRight, BitVec.getLsbD_append, BitVec.getLsbD_extractLsb', hge]
  by_cases h : k < 61
  · simp [h]
  · simp [h, BitVec.getLsbD_of_ge r.addr (3 + k) (by omega)]

end RwReq

end Oscpu.Axi
