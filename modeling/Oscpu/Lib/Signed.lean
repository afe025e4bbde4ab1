import Mathlib.Data.BitVec
import Mathlib.Data.Int.ModEq

/-!
# Signed readings of bit vectors

What unsigned arithmetic says about signed values: the sign of a difference as a comparison, and
the quotient and the remainder of the unsigned readings where the signed ones were meant.
-/

namespace Oscpu.Lib

section

variable {w : Nat} (x y : BitVec w)

/-- A vector is nonnegative, or the negation of a positive number. -/
theorem toInt_cases : (x.toInt = x.toNat ∧ 2 * x.toNat < 2 ^ w) ∨
    ∃ c : Nat, x.toInt = -c ∧ x.toNat + c = 2 ^ w ∧ 0 < c ∧ 2 * c ≤ 2 ^ w := by
  have hlt := x.isLt
  rw [BitVec.toInt_eq_toNat_cond]
  split_ifs with h
  · exact .inl ⟨rfl, h⟩
  · refine .inr ⟨2 ^ w - x.toNat, ?_, by omega, by omega, by omega⟩
    push_cast [Nat.cast_sub hlt.le]
    omega

theorem toNat_append_zero : (0#1 ++ x).toNat = x.toNat := by simp

theorem ofInt_eq_ofInt_iff {p q : Int} :
    BitVec.ofInt w p = BitVec.ofInt w q ↔ ((2 ^ w : Nat) : Int) ∣ p - q := by
  rw [← BitVec.toInt_inj, BitVec.toInt_ofInt, BitVec.toInt_ofInt, Int.bmod_eq_bmod_iff_bmod_sub_eq_zero,
    ← Int.dvd_iff_bmod_eq_zero]

/-! ## Comparison -/

/-- The sign of the wrapped difference is the comparison exactly without overflow. -/
theorem msb_sub_iff : (x - y).msb = decide (x.toInt < y.toInt) ↔ x.ssubOverflow y = false := by
  cases ho : x.ssubOverflow y with
  | false =>
    rw [BitVec.msb_eq_toInt, BitVec.toInt_sub_of_not_ssubOverflow (by simp [ho])]
    simp
  | true =>
    rw [BitVec.ssubOverflow_eq] at ho
    simp only [Bool.or_eq_true, Bool.and_eq_true, Bool.not_eq_true'] at ho
    -- the operands have different signs, and the difference has that of the second one
    rcases ho with ⟨⟨hx, hy⟩, hd⟩ | ⟨⟨hx, hy⟩, hd⟩
    · rw [BitVec.msb_eq_toInt, decide_eq_false_iff_not] at hx
      rw [BitVec.msb_eq_toInt, decide_eq_true_eq] at hy
      have hge : ¬ x.toInt < y.toInt := by omega
      simp [hd, hge]
    · rw [BitVec.msb_eq_toInt, decide_eq_true_eq] at hx
      rw [BitVec.msb_eq_toInt, decide_eq_false_iff_not] at hy
      have hlt : x.toInt < y.toInt := by omega
      simp [hd, hlt]

/-- The borrow of a difference is the unsigned comparison. -/
theorem borrow_eq : ((0#1 ++ x) - (0#1 ++ y)).extractLsb' w 1 = BitVec.ofBool (x.toNat < y.toNat) := by
  have hx := x.isLt
  have hy := y.isLt
  have hpow : 2 ^ (1 + w) = 2 * 2 ^ w := by rw [Nat.add_comm, Nat.pow_succ']
  apply BitVec.eq_of_toNat_eq
  rw [BitVec.extractLsb'_toNat, BitVec.toNat_sub, BitVec.toNat_append, BitVec.toNat_append,
    BitVec.toNat_ofBool, Nat.shiftRight_eq_div_pow, hpow]
  simp only [BitVec.toNat_ofNat, Nat.zero_mod, Nat.zero_shiftLeft, Nat.zero_or]
  by_cases h : x.toNat < y.toNat
  · have hdiff : (2 * 2 ^ w - y.toNat + x.toNat) % (2 * 2 ^ w) = 2 ^ w + (2 ^ w - (y.toNat - x.toNat)) := by
      rw [Nat.mod_eq_of_lt (by omega)]
      omega
    rw [hdiff, Nat.add_div_left _ (by omega), Nat.div_eq_of_lt (by omega)]
    simp [h]
  · have hdiff : (2 * 2 ^ w - y.toNat + x.toNat) % (2 * 2 ^ w) = x.toNat - y.toNat := by
      rw [show 2 * 2 ^ w - y.toNat + x.toNat = x.toNat - y.toNat + 2 * 2 ^ w by omega,
        Nat.add_mod_right, Nat.mod_eq_of_lt (by omega)]
    rw [hdiff, Nat.div_eq_of_lt (by omega)]
    simp [h]

/-! ## Division -/

theorem not_dvd_of_lt {n m : Nat} (hpos : 0 < m) (hlt : m < n) : ¬ n ∣ m :=
  fun h => absurd (Nat.le_of_dvd hpos h) (by omega)

/-! In the lemmas about natural numbers `n` is the modulus, and `a + c = n` and `b + d = n` give the
numbers `c` and `d` whose negations `a` and `b` stand for. -/

section

variable {n a b c d : Nat}

theorem dvd_div_add_div_of_neg_right (ha : 2 * a < n) (hb : b + d = n) (hd : 0 < d)
    (hdn : 2 * d ≤ n) : n ∣ a / b + a / d ↔ a < d := by
  rw [Nat.div_eq_of_lt (show a < b by omega), Nat.zero_add]
  constructor
  · intro h
    have hlt : a / d < n := lt_of_le_of_lt (Nat.div_le_self a d) (by omega)
    exact Nat.lt_of_div_eq_zero hd (Nat.eq_zero_of_dvd_of_lt h hlt)
  · intro h
    rw [Nat.div_eq_of_lt h]
    exact dvd_zero n

theorem dvd_div_add_div_of_neg_left (ha : a + c = n) (hc : 2 * c ≤ n) (hb : 0 < b)
    (hbn : 2 * b < n) : n ∣ a / b + c / b ↔ b = 1 := by
  constructor
  · intro h
    by_contra hne
    -- the sum of the quotients is between 1 and the half of `n`
    have hpos : 0 < a / b := Nat.div_pos (by omega) hb
    have hle : a / b + c / b ≤ n / b := ha ▸ Nat.div_add_div_le_add_div
    have hhalf : n / b ≤ n / 2 := Nat.div_le_div_left (by omega) (by omega)
    exact not_dvd_of_lt (Nat.add_pos_left hpos _) (by omega) h
  · rintro rfl
    rw [Nat.div_one, Nat.div_one, ha]

theorem dvd_div_sub_div_of_neg (ha : a + c = n) (hb : b + d = n) (hc : 0 < c) (hcn : 2 * c ≤ n)
    (hd : 0 < d) (hdn : 2 * d ≤ n) : (n : Int) ∣ (a / b : Nat) - (c / d : Nat) ↔ a = b := by
  rcases Nat.lt_trichotomy a b with hlt | rfl | hgt
  · have hpos : 0 < c / d := Nat.div_pos (by omega) hd
    have hle : c / d ≤ c := Nat.div_le_self c d
    rw [Nat.div_eq_of_lt hlt, Nat.cast_zero, zero_sub, Int.dvd_neg, Int.natCast_dvd_natCast]
    exact iff_of_false (not_dvd_of_lt hpos (by omega)) (by omega)
  · have hcd : c = d := by omega
    rw [hcd, Nat.div_self (by omega), Nat.div_self hd, sub_self]
    exact iff_of_true (dvd_zero _) rfl
  · have hone : a / b = 1 := Nat.div_eq_of_lt_le (by omega) (by omega)
    rw [hone, Nat.div_eq_of_lt (show c < d by omega), Nat.cast_zero, sub_zero,
      Int.natCast_dvd_natCast]
    exact iff_of_false (not_dvd_of_lt Nat.one_pos (by omega)) (by omega)

theorem dvd_mod_sub_mod_of_neg_right (ha : 2 * a < n) (hb : b + d = n) (hd : 0 < d)
    (hdn : 2 * d ≤ n) : (n : Int) ∣ (a % b : Nat) - (a % d : Nat) ↔ a < d := by
  have hle : a % d ≤ a := Nat.mod_le a d
  rw [Nat.mod_eq_of_lt (show a < b by omega), ← Nat.cast_sub hle, Int.natCast_dvd_natCast]
  constructor
  · intro h
    have hzero := Nat.eq_zero_of_dvd_of_lt h (by omega)
    have hmod := Nat.mod_lt a hd
    omega
  · intro h
    rw [Nat.mod_eq_of_lt h, Nat.sub_self]
    exact dvd_zero n

theorem dvd_mod_add_mod_of_neg_left (ha : a + c = n) (hb : 0 < b) (hbn : 2 * b < n) :
    n ∣ a % b + c % b ↔ b ∣ n ∧ b ∣ a := by
  have ham := Nat.mod_lt a hb
  have hcm := Nat.mod_lt c hb
  constructor
  · intro h
    have hzero := Nat.eq_zero_of_dvd_of_lt h (by omega)
    have hba : b ∣ a := Nat.dvd_of_mod_eq_zero (by omega)
    have hbc : b ∣ c := Nat.dvd_of_mod_eq_zero (by omega)
    exact ⟨ha ▸ Nat.dvd_add hba hbc, hba⟩
  · rintro ⟨hn, hba⟩
    have hbc : b ∣ c := (Nat.dvd_add_right hba).1 (ha ▸ hn)
    rw [Nat.mod_eq_zero_of_dvd hba, Nat.mod_eq_zero_of_dvd hbc]
    exact dvd_zero n

theorem dvd_mod_add_mod_of_neg (ha : a + c = n) (hb : b + d = n) (hc : 0 < c) (hcn : 2 * c ≤ n)
    (hd : 0 < d) (hdn : 2 * d ≤ n) : n ∣ a % b + c % d ↔ a = b := by
  have ham := Nat.mod_lt a (show 0 < b by omega)
  have hcm := Nat.mod_lt c hd
  constructor
  · intro h
    have hzero := Nat.eq_zero_of_dvd_of_lt h (by omega)
    by_contra hne
    rcases Nat.lt_or_gt_of_ne hne with hlt | hgt
    · rw [Nat.mod_eq_of_lt hlt] at hzero
      omega
    · rw [Nat.mod_eq_sub_mod hgt.le, Nat.mod_eq_of_lt (show a - b < b by omega)] at hzero
      omega
  · rintro rfl
    have hcd : c = d := by omega
    rw [hcd, Nat.mod_self, Nat.mod_self]
    exact dvd_zero n

end

theorem toNat_pos {y : BitVec w} (hy : y ≠ 0#w) : 0 < y.toNat := by
  rw [Nat.pos_iff_ne_zero]
  exact fun h => hy (BitVec.eq_of_toNat_eq (by simpa using h))

/-- The unsigned quotient is the signed one, rounded toward zero, for nonnegative operands, for
the divisor 1, for equal operands, and where both quotients are zero. -/
theorem udiv_eq_tdiv_iff (hy : y ≠ 0#w) :
    x / y = BitVec.ofInt w (x.toInt.tdiv y.toInt) ↔
      y = 1#w ∨ x = y ∨ 0 ≤ x.toInt ∧ (0 < y.toInt ∨ x.toInt < -y.toInt) := by
  have hb := toNat_pos hy
  have hquot : x / y = BitVec.ofInt w ((x.toNat / y.toNat : Nat) : Int) := by
    apply BitVec.eq_of_toNat_eq
    have hlt : x.toNat / y.toNat < 2 ^ w := lt_of_le_of_lt (Nat.div_le_self _ _) x.isLt
    rw [BitVec.toNat_udiv, BitVec.ofInt_natCast, BitVec.toNat_ofNat, Nat.mod_eq_of_lt hlt]
  have hone : y = 1#w ↔ y.toNat = 1 % 2 ^ w := by rw [← BitVec.toNat_inj, BitVec.toNat_ofNat]
  have hself : x = y ↔ x.toNat = y.toNat := BitVec.toNat_inj.symm
  have hxn := x.isLt
  rw [hquot, ofInt_eq_ofInt_iff, hone, hself]
  rcases toInt_cases x with ⟨hx, hx2⟩ | ⟨c, hx, hxc, hc, hc2⟩ <;>
    rcases toInt_cases y with ⟨hy, hy2⟩ | ⟨d, hy, hyd, hd, hd2⟩ <;>
    rw [hx, hy] <;> generalize 2 ^ w = n at *
  · rw [← Int.ofNat_tdiv, sub_self]
    exact iff_of_true (dvd_zero _) (by omega)
  · rw [Int.tdiv_neg, ← Int.ofNat_tdiv, sub_neg_eq_add, ← Nat.cast_add, Int.natCast_dvd_natCast,
      dvd_div_add_div_of_neg_right hx2 hyd hd hd2]
    have hmod : 1 % n ≤ 1 := Nat.mod_le 1 n
    omega
  · rw [Int.neg_tdiv, ← Int.ofNat_tdiv, sub_neg_eq_add, ← Nat.cast_add, Int.natCast_dvd_natCast,
      dvd_div_add_div_of_neg_left hxc hc2 hb hy2]
    rw [Nat.mod_eq_of_lt (show 1 < n by omega)]
    omega
  · rw [Int.neg_tdiv, Int.tdiv_neg, neg_neg, ← Int.ofNat_tdiv,
      dvd_div_sub_div_of_neg hxc hyd hc hc2 hd hd2]
    rw [Nat.mod_eq_of_lt (show 1 < n by omega)]
    omega

/-- The unsigned remainder is the signed one for nonnegative operands, for equal operands, where
both are the dividend, and where both are zero. -/
theorem umod_eq_tmod_iff (hy : y ≠ 0#w) :
    x % y = BitVec.ofInt w (x.toInt.tmod y.toInt) ↔
      x = y ∨ 0 ≤ x.toInt ∧ (0 < y.toInt ∨ x.toInt < -y.toInt) ∨
        x.toInt < 0 ∧ 0 < y.toInt ∧ y.toNat ∣ 2 ^ w ∧ y.toNat ∣ x.toNat := by
  have hb := toNat_pos hy
  have hrem : x % y = BitVec.ofInt w ((x.toNat % y.toNat : Nat) : Int) := by
    apply BitVec.eq_of_toNat_eq
    have hlt : x.toNat % y.toNat < 2 ^ w := lt_of_le_of_lt (Nat.mod_le _ _) x.isLt
    rw [BitVec.toNat_umod, BitVec.ofInt_natCast, BitVec.toNat_ofNat, Nat.mod_eq_of_lt hlt]
  have hself : x = y ↔ x.toNat = y.toNat := BitVec.toNat_inj.symm
  rw [hrem, ofInt_eq_ofInt_iff, hself]
  rcases toInt_cases x with ⟨hx, hx2⟩ | ⟨c, hx, hxc, hc, hc2⟩ <;>
    rcases toInt_cases y with ⟨hy, hy2⟩ | ⟨d, hy, hyd, hd, hd2⟩ <;>
    rw [hx, hy] <;> generalize 2 ^ w = n at *
  · rw [← Int.ofNat_tmod, sub_self]
    exact iff_of_true (dvd_zero _) (by omega)
  · rw [Int.tmod_neg, ← Int.ofNat_tmod, dvd_mod_sub_mod_of_neg_right hx2 hyd hd hd2]
    omega
  · rw [Int.neg_tmod, ← Int.ofNat_tmod, sub_neg_eq_add, ← Nat.cast_add, Int.natCast_dvd_natCast,
      dvd_mod_add_mod_of_neg_left hxc hb hy2]
    omega
  · rw [Int.neg_tmod, Int.tmod_neg, ← Int.ofNat_tmod, sub_neg_eq_add, ← Nat.cast_add,
      Int.natCast_dvd_natCast, dvd_mod_add_mod_of_neg hxc hyd hc hc2 hd hd2]
    omega

end

end Oscpu.Lib
