import Mathlib.Data.List.Basic
import Oscpu.Rtl.Config

/-!
# The keyed multiplexer `stl_mux_internal`

The table is one flat bit vector of `nrKey` pairs, pair `n` in the bits from `PAIR_LEN * n` up, its
data in the low `dataLen` bits. The loop ORs the data of every entry whose key matches.
-/

namespace Oscpu.Rtl

section

variable {nrKey keyLen dataLen : Nat}

def pairList (lut : BitVec (nrKey * (keyLen + dataLen))) (n : Nat) : BitVec (keyLen + dataLen) :=
  lut.extractLsb' ((keyLen + dataLen) * n) (keyLen + dataLen)

def dataList (lut : BitVec (nrKey * (keyLen + dataLen))) (n : Nat) : BitVec dataLen :=
  (pairList lut n).extractLsb' 0 dataLen

def keyList (lut : BitVec (nrKey * (keyLen + dataLen))) (n : Nat) : BitVec keyLen :=
  (pairList lut n).extractLsb' dataLen keyLen

/-- The accumulators `(lut_out, hit)` after the first `i` iterations. -/
def muxLoop (key : BitVec keyLen) (lut : BitVec (nrKey * (keyLen + dataLen))) :
    Nat → BitVec dataLen × Bool
  | 0 => (0, false)
  | i + 1 =>
    let (lutOut, hit) := muxLoop key lut i
    let m := key == keyList lut i
    (lutOut ||| ((if m then BitVec.allOnes dataLen else 0) &&& dataList lut i), hit || m)

/-- `stl_mux_internal`. -/
def stlMuxInternal (hasDefault : Bool) (key : BitVec keyLen) (defaultOut : BitVec dataLen)
    (lut : BitVec (nrKey * (keyLen + dataLen))) : BitVec dataLen :=
  let (lutOut, hit) := muxLoop key lut nrKey
  if !hasDefault then lutOut else if hit then lutOut else defaultOut

/-- `stl_mux_default`. -/
def stlMuxDefault (key : BitVec keyLen) (defaultOut : BitVec dataLen)
    (lut : BitVec (nrKey * (keyLen + dataLen))) : BitVec dataLen :=
  stlMuxInternal true key defaultOut lut

end

/-- The concatenation `{k0, d0, k1, d1, ...}` that the instances pass as `lut`. -/
def concatLut {k d : Nat} : (ps : List (BitVec k × BitVec d)) → BitVec (ps.length * (k + d))
  | [] => 0#_
  | p :: ps => ((p.1 ++ p.2) ++ concatLut ps).cast (by
      rw [List.length_cons, Nat.succ_mul, Nat.add_comm])

/-! ## The table of a concatenation -/

section

variable {k d : Nat} {p : BitVec k × BitVec d} {ps : List (BitVec k × BitVec d)}

/-- The table of `p :: ps`, at the width that shows its last pair. -/
abbrev consLut (p : BitVec k × BitVec d) (ps : List (BitVec k × BitVec d)) :
    BitVec ((ps.length + 1) * (k + d)) := concatLut (p :: ps)

theorem pairList_consLut_of_lt {n : Nat} (hn : n < ps.length) :
    pairList (consLut p ps) n = pairList (concatLut ps) n := by
  have hle : (k + d) * n + (k + d) ≤ ps.length * (k + d) := by
    rw [← Nat.mul_succ, Nat.mul_comm]
    exact Nat.mul_le_mul_right _ hn
  rw [pairList, consLut, concatLut, BitVec.extractLsb'_cast, BitVec.extractLsb'_append_eq_of_add_le hle,
    pairList]

theorem pairList_consLut_length :
    pairList (consLut p ps) ps.length = p.1 ++ p.2 := by
  have hstart : (k + d) * ps.length = ps.length * (k + d) := Nat.mul_comm _ _
  rw [pairList, consLut, concatLut, BitVec.extractLsb'_cast, hstart, BitVec.extractLsb'_append_eq_left]

theorem muxLoop_consLut (key : BitVec k) {i : Nat} (hi : i ≤ ps.length) :
    muxLoop key (consLut p ps) i = muxLoop key (concatLut ps) i := by
  induction i with
  | zero => rfl
  | succ i ih =>
    have hpair := pairList_consLut_of_lt (p := p) hi
    simp only [muxLoop, ih (Nat.le_of_succ_le hi), keyList, dataList, hpair]
    rfl

theorem lookup_eq_some_of_mem {key : BitVec k} {data : BitVec d} (hnd : (ps.map Prod.fst).Nodup)
    (hmem : (key, data) ∈ ps) : ps.lookup key = some data := by
  obtain ⟨before, after, rfl⟩ := List.append_of_mem hmem
  rw [List.lookup_eq_some_iff]
  refine ⟨before, after, rfl, ?_⟩
  intro q hq
  rw [List.map_append, List.nodup_append] at hnd
  have hne : q.1 ≠ key := hnd.2.2 q.1 (List.mem_map_of_mem hq) key (by simp)
  exact bne_iff_ne.2 hne.symm

theorem lookup_eq_none_of_notMem {key : BitVec k} (h : key ∉ ps.map Prod.fst) :
    ps.lookup key = none := by
  rw [List.lookup_eq_none_iff]
  intro q hq
  rw [bne_iff_ne]
  intro heq
  exact h (List.mem_map.2 ⟨q, hq, heq.symm⟩)

/-- With distinct keys the loop ORs the entry of the key into zeros. -/
theorem muxLoop_concatLut (key : BitVec k) (hnd : (ps.map Prod.fst).Nodup) :
    muxLoop key (concatLut ps) ps.length = ((ps.lookup key).getD 0, (ps.lookup key).isSome) := by
  induction ps with
  | nil => rfl
  | cons p ps ih =>
    rw [List.map_cons, List.nodup_cons] at hnd
    have hloop : muxLoop key (consLut p ps) ps.length = _ :=
      (muxLoop_consLut key le_rfl).trans (ih hnd.2)
    have hkey : keyList (consLut p ps) ps.length = p.1 := by
      rw [keyList, pairList_consLut_length, BitVec.extractLsb'_append_eq_left]
    have hdata : dataList (consLut p ps) ps.length = p.2 := by
      rw [dataList, pairList_consLut_length, BitVec.extractLsb'_append_eq_right]
    change muxLoop key (consLut p ps) (ps.length + 1) = _
    rw [muxLoop, hloop]
    simp only [hkey, hdata]
    obtain ⟨a, b⟩ := p
    by_cases hp : key = a
    · -- the keys before this one differ from it, so they contributed nothing
      have hnone : ps.lookup key = none := lookup_eq_none_of_notMem (hp ▸ hnd.1)
      rw [hnone, hp]
      simp
    · rw [List.lookup_cons, beq_eq_false_iff_ne.2 hp]
      simp

/-- Every vector of the width of a table is the concatenation of one. -/
theorem exists_concatLut {n : Nat} (lut : BitVec (n * (k + d))) :
    ∃ ps : List (BitVec k × BitVec d), ps.length = n ∧ (concatLut ps).toNat = lut.toNat := by
  induction n with
  | zero =>
    have hlt := lut.isLt
    simp only [Nat.zero_mul, Nat.pow_zero] at hlt
    exact ⟨[], rfl, by rw [Nat.lt_one_iff.1 hlt]; rfl⟩
  | succ n ih =>
    obtain ⟨ps, rfl, hps⟩ := ih (lut.extractLsb' 0 (n * (k + d)))
    refine ⟨(lut.extractLsb' (ps.length * (k + d) + d) k,
      lut.extractLsb' (ps.length * (k + d)) d) :: ps, rfl, ?_⟩
    have hw : k + d + ps.length * (k + d) = (ps.length + 1) * (k + d) := by
      rw [Nat.succ_mul, Nat.add_comm]
    have hlow : concatLut ps = lut.extractLsb' 0 (ps.length * (k + d)) := BitVec.eq_of_toNat_eq hps
    rw [concatLut, BitVec.toNat_cast, hlow, BitVec.extractLsb'_append_extractLsb'_eq_extractLsb' rfl,
      BitVec.extractLsb'_append_extractLsb'_eq_extractLsb' (Nat.zero_add _).symm,
      BitVec.extractLsb'_toNat, Nat.shiftRight_zero, hw, Nat.mod_eq_of_lt lut.isLt]

/-- **`stl_mux_internal` is a keyed lookup** in every table with distinct keys. -/
theorem stlMuxInternal_concatLut (hasDefault : Bool) (key : BitVec k) (defaultOut : BitVec d)
    (hnd : (ps.map Prod.fst).Nodup) :
    (∀ data, (key, data) ∈ ps → stlMuxInternal hasDefault key defaultOut (concatLut ps) = data) ∧
    (key ∉ ps.map Prod.fst → stlMuxInternal hasDefault key defaultOut (concatLut ps) =
      if hasDefault then defaultOut else 0#d) := by
  unfold stlMuxInternal
  rw [muxLoop_concatLut key hnd]
  constructor
  · intro data hmem
    rw [lookup_eq_some_of_mem hnd hmem]
    cases hasDefault <;> rfl
  · intro hkey
    rw [lookup_eq_none_of_notMem hkey]
    cases hasDefault <;> rfl

theorem stlMuxInternal_concatLut_pair :
    stlMuxInternal false 4#3 0#8 (concatLut [(1#3, 5#8), (4#3, 9#8)]) = 9#8 :=
  (stlMuxInternal_concatLut false 4#3 0#8 (by decide)).1 9#8 (by decide)

/-- **The keyed multiplexer is a table lookup** when the keys are distinct. -/
theorem stlMuxDefault_concatLut (key : BitVec k) (defaultOut : BitVec d)
    (hnd : (ps.map Prod.fst).Nodup) :
    stlMuxDefault key defaultOut (concatLut ps) = (ps.lookup key).getD defaultOut := by
  unfold stlMuxDefault stlMuxInternal
  rw [muxLoop_concatLut key hnd]
  cases ps.lookup key <;> rfl

end

end Oscpu.Rtl
