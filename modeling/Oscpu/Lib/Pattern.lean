import Mathlib.Data.BitVec

/-!
# Words with digits left open

A pattern is a list of characters, that of bit 0 first: `0` and `1` fix their bit, `?` leaves it
open. Fields of a word are stretches of a pattern. Two patterns can be compared digit by digit, so
that a table of patterns can be looked up for all words of a pattern at once.
-/

namespace Oscpu.Lib.Pattern

/-- A character and a bit. -/
def Digit (c : Char) (b : Bool) : Prop := c = '?' ∨ b = (c == '1')

instance (c : Char) (b : Bool) : Decidable (Digit c b) := inferInstanceAs (Decidable (_ ∨ _))

section

variable {w : Nat}

/-- The bits from `k` on have these digits. -/
def Fits (x : BitVec w) : Nat → List Char → Prop
  | _, [] => True
  | k, c :: cs => Digit c (x.getLsbD k) ∧ Fits x (k + 1) cs

/-- The digits of a field. -/
def ofBits (v : BitVec w) : List Char :=
  (List.range w).map fun k => if v.getLsbD k then '1' else '0'

/-- A field that is left open. -/
def any (n : Nat) : List Char := List.replicate n '?'

@[simp] theorem length_ofBits (v : BitVec w) : (ofBits v).length = w := by simp [ofBits]

@[simp] theorem length_any (n : Nat) : (any n).length = n := List.length_replicate

variable {x : BitVec w} {k : Nat} {cs ds : List Char}

theorem fits_iff : Fits x k cs ↔ ∀ j c, cs[j]? = some c → Digit c (x.getLsbD (k + j)) := by
  induction cs generalizing k with
  | nil => simp [Fits]
  | cons c cs ih =>
    rw [Fits, ih]
    constructor
    · rintro ⟨hc, hcs⟩ j d hd
      cases j with
      | zero => exact Option.some.inj hd ▸ hc
      | succ j =>
        rw [Nat.add_comm j, ← Nat.add_assoc]
        exact hcs j d hd
    · intro h
      refine ⟨h 0 c rfl, fun j d hd => ?_⟩
      rw [Nat.add_assoc, Nat.add_comm 1]
      exact h (j + 1) d hd

@[simp] theorem fits_append : Fits x k (cs ++ ds) ↔ Fits x k cs ∧ Fits x (k + cs.length) ds := by
  induction cs generalizing k with
  | nil => simp [Fits]
  | cons c cs ih =>
    rw [List.cons_append, Fits, ih, Fits, and_assoc, List.length_cons, Nat.add_assoc,
      Nat.add_comm 1]

@[simp] theorem fits_any (n : Nat) : Fits x k (any n) := by
  rw [fits_iff]
  intro j c hc
  exact .inl (List.eq_of_mem_replicate (List.mem_of_getElem? hc))

@[simp] theorem fits_ofBits {n : Nat} (v : BitVec n) :
    Fits x k (ofBits v) ↔ x.extractLsb' k n = v := by
  rw [fits_iff]
  constructor
  · intro h
    apply BitVec.eq_of_getLsbD_eq
    intro j hj
    have hdigit := h j (if v.getLsbD j then '1' else '0') (by simp [ofBits, hj])
    rw [BitVec.getLsbD_extractLsb', decide_eq_true hj, Bool.true_and]
    cases hv : v.getLsbD j <;> simpa [Digit, hv] using hdigit
  · rintro rfl j c hc
    obtain ⟨hj, rfl⟩ := List.getElem?_eq_some_iff.1 hc
    rw [length_ofBits] at hj
    cases hx : x.getLsbD (k + j) <;> simp [ofBits, Digit, BitVec.getLsbD_extractLsb', hj, hx]

/-! ## Comparing patterns -/

/-- Every word with the digits `ds` has the digits `cs`. -/
def covers : List Char → List Char → Bool
  | [], _ => true
  | c :: cs, [] => c == '?' && covers cs []
  | c :: cs, d :: ds => (c == '?' || d == c) && covers cs ds

/-- No word has both the digits `ds` and the digits `cs`. -/
def clashes : List Char → List Char → Bool
  | c :: cs, d :: ds => (c == '1' && d == '0' || c == '0' && d == '1') || clashes cs ds
  | _, _ => false

theorem Fits.of_covers (hc : covers cs ds = true) (h : Fits x k ds) : Fits x k cs := by
  induction cs generalizing k ds with
  | nil => trivial
  | cons c cs ih =>
    cases ds with
    | nil =>
      simp only [covers, Bool.and_eq_true, beq_iff_eq] at hc
      exact ⟨.inl hc.1, ih hc.2 trivial⟩
    | cons d ds =>
      simp only [covers, Bool.and_eq_true, Bool.or_eq_true, beq_iff_eq] at hc
      refine ⟨?_, ih hc.2 h.2⟩
      rcases hc.1 with hopen | rfl
      · exact .inl hopen
      · exact h.1

theorem Fits.not_of_clashes (hc : clashes cs ds = true) (h : Fits x k ds) : ¬ Fits x k cs := by
  induction cs generalizing k ds with
  | nil => simp [clashes] at hc
  | cons c cs ih =>
    cases ds with
    | nil => simp [clashes] at hc
    | cons d ds =>
      rintro ⟨hcd, hcs⟩
      simp only [clashes, Bool.or_eq_true, Bool.and_eq_true, beq_iff_eq] at hc
      rcases hc with (⟨rfl, rfl⟩ | ⟨rfl, rfl⟩) | hc
      · have hbit : x.getLsbD k = false := by simpa [Digit] using h.1
        simp [Digit, hbit] at hcd
      · have hbit : x.getLsbD k = true := by simpa [Digit] using h.1
        simp [Digit, hbit] at hcd
      · exact ih hc h.2 hcs

end

end Oscpu.Lib.Pattern
