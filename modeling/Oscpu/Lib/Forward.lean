import Mathlib.Logic.Function.Basic

/-!
# Forwarding of pending writes

A pipeline that has not yet committed some writes reads a register through them: the youngest
pending write to the key decides, and the store only when there is none. `forward_eq` says that
this is the value after all pending writes are committed in order, oldest first.
-/

namespace Oscpu.Lib

variable {κ ν : Type*} [DecidableEq κ]

/-- A write that may be absent. -/
abbrev Write (κ ν : Type*) := Option (κ × ν)

/-- The store after one write. -/
def commit (f : κ → ν) : Write κ ν → κ → ν
  | none => f
  | some (k, v) => Function.update f k v

/-- The value of `a` seen through the pending writes, youngest first. -/
def forward (f : κ → ν) (a : κ) : List (Write κ ν) → ν
  | [] => f a
  | none :: ws => forward f a ws
  | some (k, v) :: ws => if k = a then v else forward f a ws

@[simp] theorem commit_none (f : κ → ν) : commit f none = f := rfl

theorem commit_some_apply (f : κ → ν) (k a : κ) (v : ν) :
    commit f (some (k, v)) a = if k = a then v else f a := by
  simp only [commit, Function.update_apply, eq_comm]

theorem forward_eq (f : κ → ν) (a : κ) (ws : List (Write κ ν)) :
    forward f a ws = ws.foldr (fun w g => commit g w) f a := by
  induction ws with
  | nil => rfl
  | cons w ws ih =>
    rcases w with _ | ⟨k, v⟩
    · exact ih
    · rw [List.foldr_cons, commit_some_apply, forward, ih]

/-! ## A store that commits a write in every cycle -/

section

variable {f : Nat → κ → ν} {w : Nat → Write κ ν}

theorem commit_of_ne {g : κ → ν} {x : Write κ ν} {a : κ} (h : ∀ v, x ≠ some (a, v)) :
    commit g x a = g a := by
  rcases x with _ | ⟨k, v⟩
  · rfl
  · rw [commit_some_apply, if_neg]
    rintro rfl
    exact h v rfl

/-- A key holds what the last write to it wrote, or what it held at first. -/
theorem commit_history (hf : ∀ n, f (n + 1) = commit (f n) (w n)) (a : κ) (n : Nat) :
    (∃ j < n, w j = some (a, f n a) ∧ ∀ i, j < i → i < n → ∀ v, w i ≠ some (a, v)) ∨
      (∀ i < n, ∀ v, w i ≠ some (a, v)) ∧ f n a = f 0 a := by
  induction n with
  | zero => exact .inr ⟨fun i hi => absurd hi i.not_lt_zero, rfl⟩
  | succ n ih =>
    by_cases hw : ∃ v, w n = some (a, v)
    · obtain ⟨v, hv⟩ := hw
      have hread : f (n + 1) a = v := by rw [hf, hv, commit_some_apply, if_pos rfl]
      refine .inl ⟨n, n.lt_succ_self, hread ▸ hv, ?_⟩
      intro i hni hin
      exact absurd hin (Nat.not_lt.2 hni)
    · have hno : ∀ v, w n ≠ some (a, v) := not_exists.1 hw
      have hkeep : f (n + 1) a = f n a := by rw [hf, commit_of_ne hno]
      rw [hkeep]
      rcases ih with ⟨j, hj, hwj, hafter⟩ | ⟨hbefore, hinit⟩
      · refine .inl ⟨j, Nat.lt_succ_of_lt hj, hwj, ?_⟩
        intro i hji hi
        rcases Nat.lt_succ_iff_lt_or_eq.1 hi with hlt | rfl
        · exact hafter i hji hlt
        · exact hno
      · refine .inr ⟨?_, hinit⟩
        intro i hi
        rcases Nat.lt_succ_iff_lt_or_eq.1 hi with hlt | rfl
        · exact hbefore i hlt
        · exact hno

end

end Oscpu.Lib
