import Oscpu.Lib.Pattern
import Oscpu.Rtl.Config

/-!
# Patterns of instruction words: `decode.h`

The rows of NEMU's decode tables are strings of `0`, `1` and `?`. `pattern_decode` turns such a
string into a mask and a key, so that a row costs one comparison. An instruction word matches if and
only if it has every digit of the pattern.
-/

namespace Oscpu.Nemu

open Oscpu.Rtl Oscpu.Lib Oscpu.Lib.Pattern

/-! ## The macros -/

/-- What `pattern_decode` computes. -/
structure PatternMask where
  key : BitVec 32
  mask : BitVec 32
  shift : Nat

/-- One character: `macro(i)`. -/
def PatternMask.step (p : PatternMask) (c : Char) : PatternMask :=
  if c ≠ ' ' then
    { key := p.key <<< 1 ||| if c == '1' then 1#32 else 0#32
      mask := p.mask <<< 1 ||| if c == '?' then 0#32 else 1#32
      shift := if c == '?' then p.shift + 1 else 0 }
  else p

/-- The macros look at 64 characters. -/
def patternDecode (str : String) : PatternMask :=
  let p := (str.toList.take 64).foldl PatternMask.step ⟨0#32, 0#32, 0⟩
  ⟨p.key >>> p.shift, p.mask >>> p.shift, p.shift⟩

/-- The condition of `def_INSTR_raw`. -/
def instrMatches (pattern : String) (instr : Ins) : Bool :=
  let p := patternDecode pattern
  ((instr >>> p.shift) &&& p.mask) == p.key

/-! ## What they are for -/

/-- The characters of a pattern without the blanks, the last one first. -/
def digits (pattern : String) : List Char := (pattern.toList.filter (· ≠ ' ')).reverse

/-- A pattern for words of at most 32 bits, without a character that `pattern_decode` rejects. -/
def Wellformed (pattern : String) : Prop :=
  pattern.toList.length ≤ 64 ∧ (digits pattern).length ≤ 32 ∧
    (digits pattern).all (fun c => c == '0' || c == '1' || c == '?') = true

instance (pattern : String) : Decidable (Wellformed pattern) :=
  inferInstanceAs (Decidable (_ ∧ _ ∧ _))

/-- The mask selects the digits, the key has the ones, and the shift only drops places without a
digit. -/
structure PatternMask.Codes (p : PatternMask) (cs : List Char) : Prop where
  mask : ∀ k < 32, p.mask.getLsbD k = cs[k]?.any (· != '?')
  key : ∀ k < 32, p.key.getLsbD k = cs[k]?.any (· == '1')
  shift : ∀ k < p.shift, cs[k]? = some '?'

namespace PatternMask.Codes

variable {p : PatternMask} {cs : List Char}

theorem getLsbD_push (x : BitVec 32) (b : Bool) {k : Nat} (hk : k < 32) :
    (x <<< 1 ||| if b then 1#32 else 0#32).getLsbD k =
      if k = 0 then b else x.getLsbD (k - 1) := by
  rw [BitVec.getLsbD_or, BitVec.getLsbD_shiftLeft]
  cases k with
  | zero => cases b <;> simp
  | succ k => cases b <;> simp [hk]

theorem step (h : p.Codes cs) {c : Char} (hc : c ≠ ' ') : (p.step c).Codes (c :: cs) := by
  have hmask : (p.step c).mask = p.mask <<< 1 ||| if c != '?' then 1#32 else 0#32 := by
    by_cases hq : c = '?' <;> simp [PatternMask.step, hc, hq]
  have hkey : (p.step c).key = p.key <<< 1 ||| if c == '1' then 1#32 else 0#32 := by
    simp [PatternMask.step, hc]
  refine ⟨fun k hk => ?_, fun k hk => ?_, fun k hk => ?_⟩
  · rw [hmask, getLsbD_push _ _ hk]
    cases k with
    | zero => simp
    | succ k => simpa using h.mask k (by omega)
  · rw [hkey, getLsbD_push _ _ hk]
    cases k with
    | zero => simp
    | succ k => simpa using h.key k (by omega)
  · by_cases hq : c = '?'
    · subst hq
      simp only [PatternMask.step, ne_eq, hc, not_false_eq_true, if_true, beq_self_eq_true] at hk
      cases k with
      | zero => rfl
      | succ k => exact h.shift k (by omega)
    · simp [PatternMask.step, hc, hq] at hk

theorem foldl (h : p.Codes cs) (ds : List Char) :
    (ds.foldl PatternMask.step p).Codes ((ds.filter (· ≠ ' ')).reverse ++ cs) := by
  induction ds generalizing p cs with
  | nil => exact h
  | cons d ds ih =>
    by_cases hd : d = ' '
    · subst hd
      have hstep : p.step ' ' = p := rfl
      simpa [hstep] using ih h
    · simpa [hd] using ih (h.step hd)

end PatternMask.Codes

/-- **The decode tables**: the comparison of mask and key looks at the digits of the pattern and at
nothing else. -/
theorem instrMatches_iff {pattern : String} (h : Wellformed pattern) (instr : Ins) :
    instrMatches pattern instr = true ↔ Fits instr 0 (digits pattern) := by
  set p := (pattern.toList.take 64).foldl PatternMask.step ⟨0#32, 0#32, 0⟩ with hp
  have hzero : PatternMask.Codes ⟨0#32, 0#32, 0⟩ [] :=
    ⟨fun k _ => by simp, fun k _ => by simp, fun k hk => absurd hk k.not_lt_zero⟩
  have hcodes : p.Codes (digits pattern) := by
    have hfold := hzero.foldl (pattern.toList.take 64)
    rwa [List.append_nil, ← hp, List.take_of_length_le h.1] at hfold
  have hbits : instrMatches pattern instr = true ↔
      ∀ k < 32, (instr.getLsbD k && p.mask.getLsbD k) = p.key.getLsbD k := by
    simp only [instrMatches, patternDecode, ← hp, beq_iff_eq]
    rw [← BitVec.ushiftRight_and_distrib]
    constructor
    · intro heq k hk
      rcases Nat.lt_or_ge k p.shift with hlt | hge
      · simp [hcodes.mask k hk, hcodes.key k hk, hcodes.shift k hlt]
      · have hbit := congrArg (fun x => x.getLsbD (k - p.shift)) heq
        simpa [Nat.add_sub_cancel' hge] using hbit
    · intro hall
      apply BitVec.eq_of_getLsbD_eq
      intro k hk
      rw [BitVec.getLsbD_ushiftRight, BitVec.getLsbD_ushiftRight, BitVec.getLsbD_and]
      rcases Nat.lt_or_ge (p.shift + k) 32 with hlt | hge
      · exact hall _ hlt
      · simp [BitVec.getLsbD_of_ge _ _ hge]
  have hdigit (k : Nat) (hk : k < 32) :
      (instr.getLsbD k && p.mask.getLsbD k) = p.key.getLsbD k ↔
        ∀ c, (digits pattern)[k]? = some c → Digit c (instr.getLsbD k) := by
    rw [hcodes.mask k hk, hcodes.key k hk]
    cases (digits pattern)[k]? with
    | none => simp
    | some c =>
      by_cases hq : c = '?'
      · simp [hq, Digit]
      · have hne : (c != '?') = true := bne_iff_ne.2 hq
        simp [hq, hne, Digit]
  rw [hbits, fits_iff]
  constructor
  · intro hall j c hc
    have hlen : j < (digits pattern).length := (List.getElem?_eq_some_iff.1 hc).1
    rw [Nat.zero_add]
    exact (hdigit j (by have := h.2.1; omega)).1 (hall j (by have := h.2.1; omega)) c hc
  · intro hall k hk
    refine (hdigit k hk).2 fun c hc => ?_
    have hfit := hall k c hc
    rwa [Nat.zero_add] at hfit

/-- The words of `addi` and the like. -/
theorem instrMatches_iff_addi : instrMatches "??????? ????? ????? 000 ????? ????? ??" 0x00a28293#32 = true ↔
    Fits 0x00a28293#32 0 (digits "??????? ????? ????? 000 ????? ????? ??") :=
  instrMatches_iff (by decide +kernel) _

/-! ## Tables -/

/-- Rows of a table: the first pattern that matches decides. -/
def dispatch {α : Type*} (instr : Ins) (inv : α) : List (String × α) → α
  | [] => inv
  | (pattern, x) :: rows => if instrMatches pattern instr then x else dispatch instr inv rows

/-- The place of the row for all words with these digits, where the digits settle it. -/
def resolve (ds : List Char) : List String → Option Nat
  | [] => none
  | pattern :: rows =>
    if decide (Wellformed pattern) && covers (digits pattern) ds then some 0
    else if decide (Wellformed pattern) && clashes (digits pattern) ds then
      (resolve ds rows).map (· + 1)
    else none

theorem dispatch_of_resolve {α : Type*} {instr : Ins} {inv x : α} {ds : List Char}
    {rows : List (String × α)} {i : Nat} (h : Fits instr 0 ds)
    (hr : resolve ds (rows.map Prod.fst) = some i) (hx : (rows.map Prod.snd)[i]? = some x) :
    dispatch instr inv rows = x := by
  induction rows generalizing i with
  | nil => cases hr
  | cons row rows ih =>
    obtain ⟨pattern, y⟩ := row
    rw [List.map_cons, resolve] at hr
    split at hr
    · rename_i hc
      simp only [Bool.and_eq_true, decide_eq_true_eq] at hc
      have hm := (instrMatches_iff hc.1 instr).2 (h.of_covers hc.2)
      obtain rfl := Option.some.inj hr
      rw [dispatch, if_pos hm]
      exact Option.some.inj hx
    · split at hr
      · rename_i hc
        simp only [Bool.and_eq_true, decide_eq_true_eq] at hc
        have hm : ¬ instrMatches pattern instr = true := fun hm =>
          h.not_of_clashes hc.2 ((instrMatches_iff hc.1 instr).1 hm)
        obtain ⟨j, hj, rfl⟩ := Option.map_eq_some_iff.1 hr
        rw [dispatch, if_neg hm]
        exact ih hj hx
      · cases hr

end Oscpu.Nemu
