import Mathlib.Data.BitVec

/-!
# Byte-addressed memory

A memory is a function from addresses to bytes; addresses wrap around. Values are little-endian.
`load` reads some bytes as a word, `store` writes the lowest bytes of a word, and `writeStrb` writes
those lanes of a word that a strobe selects, as a bus does.
-/

namespace Oscpu.Lib

theorem getLsbD_ones {w n k : Nat} (hn : n ≤ w) :
    (BitVec.ofNat w (2 ^ n - 1)).getLsbD k = decide (k < n) := by
  rw [BitVec.getLsbD_ofNat, Nat.testBit_two_pow_sub_one]
  by_cases h : k < n
  · simp [h, Nat.lt_of_lt_of_le h hn]
  · simp [h]

theorem eq_clear_iff {w k : Nat} (hk : k < w) (x : BitVec w) :
    x = x &&& ~~~(1#w <<< k) ↔ x.getLsbD k = false := by
  have hmask (j : Nat) (hj : j < w) : (~~~(1#w <<< k)).getLsbD j = !decide (k = j) := by
    rw [BitVec.getLsbD_not, ← BitVec.twoPow_eq, BitVec.getLsbD_twoPow]
    simp [hk, hj]
  constructor
  · intro h
    have hbit := congrArg (fun v => v.getLsbD k) h
    simpa only [BitVec.getLsbD_and, hmask k hk, decide_true, Bool.not_true, Bool.and_false]
      using hbit
  · intro h
    apply BitVec.eq_of_getLsbD_eq
    intro j hj
    rw [BitVec.getLsbD_and, hmask j hj]
    rcases eq_or_ne k j with rfl | hne
    · rw [h, Bool.false_and]
    · rw [decide_eq_false hne, Bool.not_false, Bool.and_true]

/-- A memory with addresses of `w` bits. -/
abbrev ByteMem (w : Nat) := BitVec w → BitVec 8

namespace ByteMem

variable {w v : Nat} (m : ByteMem w) (a : BitVec w)

/-- The `n` bytes from `a` on, zero-extended. -/
def load (v : Nat) (m : ByteMem w) (a : BitVec w) : Nat → BitVec v
  | 0 => 0#v
  | n + 1 => (m a).zeroExtend v ||| load v m (a + 1#w) n <<< 8

/-- Byte `j` of a word. -/
def lane (d : BitVec v) (j : Nat) : BitVec 8 := d.extractLsb' (8 * j) 8

/-- The memory after the lowest `n` bytes of `d` are written to `a`. -/
def store (n : Nat) (d : BitVec v) : ByteMem w :=
  fun x => if (x - a).toNat < n then lane d (x - a).toNat else m x

/-- The memory after a beat: lane `j` of `d` goes to `a + j` when the strobe has bit `j`. -/
def writeStrb {n : Nat} (d : BitVec v) (strb : BitVec n) : ByteMem w :=
  fun x => if strb.getLsbD (x - a).toNat then lane d (x - a).toNat else m x

theorem load_succ (v n : Nat) : load v m a (n + 1) =
    (m a).zeroExtend v ||| load v m (a + 1#w) n <<< 8 := rfl

theorem add_one_ofNat (j : Nat) : a + 1#w + BitVec.ofNat w j = a + BitVec.ofNat w (j + 1) := by
  rw [BitVec.add_assoc, BitVec.ofNat_add, BitVec.add_comm (BitVec.ofNat w j)]

/-- Bit `k` of a loaded word is a bit of byte `k / 8`. -/
theorem getLsbD_load (n : Nat) {k : Nat} (hk : k < v) :
    (load v m a n).getLsbD k =
      (decide (k < 8 * n) && (m (a + BitVec.ofNat w (k / 8))).getLsbD (k % 8)) := by
  induction n generalizing a k with
  | zero => simp [load]
  | succ n ih =>
    rw [load_succ, BitVec.getLsbD_or, BitVec.getLsbD_shiftLeft, BitVec.getLsbD_setWidth]
    by_cases h8 : k < 8
    · have hdiv : k / 8 = 0 := Nat.div_eq_of_lt h8
      have hmod : k % 8 = k := Nat.mod_eq_of_lt h8
      have hlt : k < 8 * (n + 1) := by omega
      simp [hk, h8, hdiv, hmod, hlt]
    · have hge : 8 ≤ k := Nat.le_of_not_lt h8
      have hdiv : k / 8 = (k - 8) / 8 + 1 := by omega
      have hmod : k % 8 = (k - 8) % 8 := by omega
      rw [ih (a + 1#w) (by omega), add_one_ofNat, ← hdiv, ← hmod, BitVec.getLsbD_of_ge _ k hge]
      have hlt : k - 8 < 8 * n ↔ k < 8 * (n + 1) := by omega
      simp [hk, h8, hlt]

theorem getLsbD_lane (d : BitVec v) (j k : Nat) :
    (lane d j).getLsbD k = (decide (k < 8) && d.getLsbD (8 * j + k)) :=
  BitVec.getLsbD_extractLsb' _ _ _ _

theorem toNat_add_ofNat_sub (a : BitVec w) {j : Nat} (hj : j < 2 ^ w) :
    (a + BitVec.ofNat w j - a).toNat = j := by
  rw [BitVec.add_comm, BitVec.add_sub_cancel, BitVec.toNat_ofNat, Nat.mod_eq_of_lt hj]

theorem load_store {n : Nat} (hn : n ≤ 2 ^ w) (d : BitVec v) {k : Nat} (hk : k < v) :
    (load v (m.store a n d) a n).getLsbD k = (decide (k < 8 * n) && d.getLsbD k) := by
  rw [getLsbD_load _ _ _ hk]
  by_cases hlt : k < 8 * n
  · have hdiv : k / 8 < n := by omega
    have hdist := toNat_add_ofNat_sub a (show k / 8 < 2 ^ w by omega)
    have hmod : k % 8 < 8 := by omega
    simp only [store, hdist, hdiv, if_true, getLsbD_lane, hlt, hmod, decide_true, Bool.true_and]
    rw [Nat.div_add_mod]
  · simp [hlt]

/-! ## The byte that was stored last -/

/-- A store: the address, the number of bytes and the value. -/
structure Store (w v : Nat) where
  addr : BitVec w
  bytes : Nat
  value : BitVec v

/-- The byte that the last of some stores to reach `x` left there. -/
def latest (x : BitVec w) : List (Store w v) → Option (BitVec 8)
  | [] => none
  | s :: ss => latest x ss <|>
      if (x - s.addr).toNat < s.bytes then some (lane s.value (x - s.addr).toNat) else none

theorem foldl_store (ss : List (Store w v)) (x : BitVec w) :
    (ss.foldl (fun m s => m.store s.addr s.bytes s.value) m) x = (latest x ss).getD (m x) := by
  induction ss generalizing m with
  | nil => rfl
  | cons s ss ih =>
    rw [List.foldl_cons, ih, latest]
    cases latest x ss with
    | some b => rfl
    | none =>
      unfold store
      split_ifs <;> rfl

end ByteMem

end Oscpu.Lib
