import Oscpu.Nemu.Exec

/-!
# Fetching

A word is fetched in halves. In the memory, and without translation, the halves are those of the word
at the pc, and it goes through the main table.
-/

namespace Oscpu.Nemu

open Oscpu.Rtl Oscpu.Lib

theorem inPmem_of_range {a : Paddr} (hlo : 0x80000000 ≤ a.toNat) (hhi : a.toNat < 0x90000000) :
    inPmem a = true := by
  have hmask : ∀ k < 32, (~~~(CONFIG_MSIZE - 1#32)).getLsbD k = decide (28 ≤ k) := by decide
  have hbase : ∀ k < 28, CONFIG_MBASE.getLsbD k = false := by decide
  have htop : a >>> 28 = CONFIG_MBASE >>> 28 := by
    apply BitVec.eq_of_toNat_eq
    rw [BitVec.toNat_ushiftRight, Nat.shiftRight_eq_div_pow]
    change a.toNat / 2 ^ 28 = 8
    omega
  rw [inPmem, beq_iff_eq]
  apply BitVec.eq_of_getLsbD_eq
  intro k hk
  rw [BitVec.getLsbD_and, hmask k hk]
  by_cases h28 : 28 ≤ k
  · have hbit := congrArg (fun x => x.getLsbD (k - 28)) htop
    simp only [BitVec.getLsbD_ushiftRight, Nat.add_sub_cancel' h28] at hbit
    rw [hbit, decide_eq_true h28, Bool.and_true]
  · rw [decide_eq_false h28, Bool.and_false, hbase k (by omega)]

/-- The halves of a word. -/
theorem load_halves (m : ByteMem 32) (a : Paddr) :
    (m.load 64 a 2).setWidth 32 ||| (m.load 64 (a + 2#32) 2).setWidth 32 <<< 16 =
      m.load 32 a 4 := by
  apply BitVec.eq_of_getLsbD_eq
  intro k hk
  have hk64 : k < 64 := by omega
  rw [BitVec.getLsbD_or, BitVec.getLsbD_shiftLeft, BitVec.getLsbD_setWidth,
    BitVec.getLsbD_setWidth, ByteMem.getLsbD_load _ _ _ hk64,
    ByteMem.getLsbD_load _ _ _ (show k - 16 < 64 by omega), ByteMem.getLsbD_load _ _ _ hk]
  by_cases h16 : k < 16
  · simp [hk, h16]
  · have haddr : a + 2#32 + BitVec.ofNat 32 ((k - 16) / 8) = a + BitVec.ofNat 32 (k / 8) := by
      have hdiv : k / 8 = 2 + (k - 16) / 8 := by omega
      rw [hdiv, BitVec.ofNat_add, BitVec.add_assoc]
    have hmod : (k - 16) % 8 = k % 8 := by omega
    have hlt : k - 16 < 8 * 2 := by omega
    have hlt' : k - 16 < 32 := by omega
    rw [haddr, hmod]
    simp [hk, h16, hlt, hlt']

namespace State

/-- NEMU runs, and the word at the pc is `ins`. -/
structure Fetches (n : State) (ins : Ins) : Prop where
  ended : n.nemuState ≠ .ended
  abort : n.nemuState ≠ .abort
  vm : n.vmEnable = false
  mmu : n.ifetchMmuState = false
  lo : 0x80000000 ≤ n.pc.toNat
  hi : n.pc.toNat + 4 ≤ 0x90000000
  word : n.pmem.load 32 (n.pc.setWidth 32) 4 = ins

theorem vaddrIfetch_eq {n : State} (hvm : n.vmEnable = false) (hmmu : n.ifetchMmuState = false)
    {pc : Word} {len : Nat} (hlo : 0x80000000 ≤ pc.toNat) (hhi : pc.toNat + len ≤ 0x90000000)
    (hlen : 0 < len) : n.vaddrIfetch pc len = .ok (n.pmem.load 64 (pc.setWidth 32) len) := by
  have haddr : (pc.setWidth 32).toNat = pc.toNat := by
    rw [BitVec.toNat_setWidth, Nat.mod_eq_of_lt (by omega)]
  have hin : inPmem (pc.setWidth 32) = true :=
    inPmem_of_range (by rw [haddr]; exact hlo) (by rw [haddr]; omega)
  have hmapped : mapped (pc.setWidth 32) len = true := by
    rw [mapped, haddr, decide_eq_true_eq]
    exact hhi
  simp [vaddrIfetch, hvm, hmmu, paddrRead, pmemRead, hin, hmapped]

theorem fetchDecode_eq {n : State} {ins : Ins} (h : n.Fetches ins)
    (hlong : ins.extractLsb' 0 2 = 3#2) :
    n.fetchDecode n.pc =
      let p := Decode.tableMain ⟨n.pc, n.pc + 4#64, ins, n.s.dest, n.s.src1, n.s.src2⟩
        n.dataMmuState
      .ok ({ n with s := p.1 }, p.2) := by
  have hpc2 : (n.pc + 2#64).toNat = n.pc.toNat + 2 := by
    have hhi := h.hi
    rw [BitVec.toNat_add]
    change (n.pc.toNat + 2) % 2 ^ 64 = _
    omega
  have haddr : (n.pc + 2#64).setWidth 32 = n.pc.setWidth 32 + 2#32 := by
    rw [BitVec.setWidth_add _ _ (by omega)]
    rfl
  have hsnpc : n.pc + 2#64 + 2#64 = n.pc + 4#64 := by
    rw [BitVec.add_assoc]
    rfl
  have hlow : ((n.pmem.load 64 (n.pc.setWidth 32) 2).setWidth 32).extractLsb' 0 2 = 3#2 := by
    rw [← hlong, ← h.word, ← load_halves]
    apply BitVec.eq_of_getLsbD_eq
    intro k hk
    have hlt : k < 16 := by omega
    simp [BitVec.getLsbD_extractLsb', hlt]
  have hfirst (s : Decode) : ({ n with s := s } : State).vaddrIfetch n.pc 2 =
      .ok (n.pmem.load 64 (n.pc.setWidth 32) 2) :=
    vaddrIfetch_eq (n := { n with s := s }) h.vm h.mmu h.lo (by have := h.hi; omega) (by omega)
  have hsecond (s : Decode) : ({ n with s := s } : State).vaddrIfetch (n.pc + 2#64) 2 =
      .ok (n.pmem.load 64 (n.pc.setWidth 32 + 2#32) 2) := by
    rw [← haddr]
    have hlo := h.lo
    have hhi := h.hi
    exact vaddrIfetch_eq (n := { n with s := s }) h.vm h.mmu (by omega) (by omega) (by omega)
  unfold fetchDecode isaFetchDecode
  simp only [hfirst, bind, Except.bind, hlow, bne_self_eq_false, Bool.false_eq_true, if_false,
    hsecond, load_halves, h.word, hsnpc]
  rfl

end State

end Oscpu.Nemu
