import Mathlib

/-!
# Ring buffers

A queue in an array of slots. What comes in fills the slot at the tail, what goes out empties the
slot at the head, and both then move on round the array.
-/

namespace Oscpu.Lib.Ring

variable {α : Type*} {N : Nat} [NeZero N]

/-- The queue `l` lies in the slots from `head` on, and the slots behind it are empty. -/
structure Holds (slots : Fin N → Option α) (head tail : Fin N) (l : List α) : Prop where
  slot : ∀ k < N, slots (head + Fin.ofNat N k) = l[k]?
  tail : tail = head + Fin.ofNat N l.length
  length : l.length ≤ N

theorem ofNat_inj {j k : Nat} (hj : j < N) (hk : k < N) :
    Fin.ofNat N j = Fin.ofNat N k ↔ j = k := by
  simp [Fin.ext_iff, Nat.mod_eq_of_lt, hj, hk]

theorem ofNat_succ (k : Nat) : Fin.ofNat N (k + 1) = 1 + Fin.ofNat N k := by
  apply Fin.ext
  simp [Fin.val_add, Nat.add_comm]

theorem ofNat_self : Fin.ofNat N N = 0 := by
  apply Fin.ext
  simp

namespace Holds

variable {slots : Fin N → Option α} {head tail : Fin N} {l : List α} {x : α}

theorem empty (h : ∀ i, slots i = none) (head : Fin N) : Holds slots head head [] where
  slot _ _ := h _
  tail := by
    apply Fin.ext
    simp
  length := N.zero_le

/-- The slot at the head has the front of the queue. -/
theorem front (h : Holds slots head tail l) : slots head = l.head? := by
  have hslot := h.slot 0 (Nat.pos_of_neZero N)
  have hzero : Fin.ofNat N 0 = 0 := rfl
  rwa [hzero, add_zero, ← List.head?_eq_getElem?] at hslot

/-- The slot at the tail is empty unless the queue fills the array. -/
theorem back (h : Holds slots head tail l) : slots tail = none ↔ l.length < N := by
  rcases Nat.lt_or_eq_of_le h.length with hlt | heq
  · rw [h.tail, h.slot _ hlt]
    simp [hlt]
  · rw [h.tail, heq, ofNat_self, add_zero, h.front]
    have hne : l ≠ [] := fun hl => (NeZero.ne N) (by rw [← heq, hl, List.length_nil])
    simp [hne]

theorem push (h : Holds slots head tail l) (hlt : l.length < N) (x : α) :
    Holds (Function.update slots tail (some x)) head (tail + 1) (l ++ [x]) where
  slot k hk := by
    by_cases hkl : k = l.length
    · subst hkl
      rw [← h.tail, Function.update_self]
      simp
    · have hne : head + Fin.ofNat N k ≠ tail := by
        rw [h.tail, Ne, add_right_inj, ofNat_inj hk hlt]
        exact hkl
      rw [Function.update_of_ne hne, h.slot k hk]
      rcases Nat.lt_or_gt_of_ne hkl with hkl | hkl
      · rw [List.getElem?_append_left hkl]
      · rw [List.getElem?_eq_none hkl.le, List.getElem?_eq_none (by simpa using Nat.succ_le_of_lt hkl)]
  tail := by
    rw [List.length_append, List.length_singleton, ofNat_succ, h.tail, add_comm 1, add_assoc]
  length := by
    rw [List.length_append, List.length_singleton]
    exact hlt

theorem pop (h : Holds slots head tail (x :: l)) :
    Holds (Function.update slots head none) (head + 1) tail l where
  slot k hk := by
    rw [add_assoc, ← ofNat_succ]
    have hlen : l.length + 1 ≤ N := h.length
    rcases Nat.lt_or_eq_of_le (Nat.succ_le_of_lt hk) with hlt | heq
    · have hne : head + Fin.ofNat N (k + 1) ≠ head := by
        rw [Ne, add_eq_left]
        exact fun h0 => Nat.succ_ne_zero k ((ofNat_inj hlt (Nat.pos_of_neZero N)).1 h0)
      rw [Function.update_of_ne hne, h.slot _ hlt, List.getElem?_cons_succ]
    · have heq : k + 1 = N := heq
      -- the slot that became empty is now the last one
      rw [heq, ofNat_self, add_zero, Function.update_self, List.getElem?_eq_none (by omega)]
  tail := by
    rw [h.tail, List.length_cons, ofNat_succ, add_assoc]
  length := Nat.le_of_succ_le h.length

end Holds

end Oscpu.Lib.Ring
