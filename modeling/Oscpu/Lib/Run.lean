import Mathlib.Data.List.Infix

/-!
# Runs of a clocked machine

A synchronous circuit is a step function from a state and the inputs of one clock cycle to the
state after the edge. `run` iterates it along an input stream, `trace` collects what each cycle
emits, and `run_invariant` is the induction every safety result of this development goes through:
an invariant preserved by the steps whose inputs are admissible holds in every state reached.
-/

namespace Oscpu.Lib

variable {σ ι ε ε' : Type*}

/-- The state after `n` cycles along the input stream `is`. -/
def run (step : σ → ι → σ) (s : σ) (is : Nat → ι) : Nat → σ
  | 0 => s
  | n + 1 => step (run step s is n) (is n)

/-- The events of the steps before `n`, when step `k` emits `e k`. -/
def history (e : Nat → List ε) : Nat → List ε
  | 0 => []
  | n + 1 => history e n ++ e n

/-- The events emitted in the first `n` cycles. -/
def trace (step : σ → ι → σ) (out : σ → ι → List ε) (s : σ) (is : Nat → ι) : Nat → List ε :=
  history fun k => out (run step s is k) (is k)

/-- Every one of the first `n` cycles takes an input that `ok` admits in its state. -/
def Admits (step : σ → ι → σ) (ok : σ → ι → Prop) (s : σ) (is : Nat → ι) (n : Nat) : Prop :=
  ∀ k < n, ok (run step s is k) (is k)

section

variable {step : σ → ι → σ} {s : σ} {is : Nat → ι}

@[simp] theorem run_zero : run step s is 0 = s := rfl

@[simp] theorem run_succ (n : Nat) : run step s is (n + 1) = step (run step s is n) (is n) := rfl

theorem run_add (step : σ → ι → σ) (s : σ) (is : Nat → ι) (m n : Nat) :
    run step s is (m + n) = run step (run step s is m) (fun k => is (m + k)) n := by
  induction n with
  | zero => rfl
  | succ n ih => rw [← Nat.add_assoc, run_succ, run_succ, ih]

@[simp] theorem history_zero (e : Nat → List ε) : history e 0 = [] := rfl

@[simp] theorem history_succ (e : Nat → List ε) (n : Nat) :
    history e (n + 1) = history e n ++ e n := rfl

@[simp] theorem trace_zero (out : σ → ι → List ε) : trace step out s is 0 = [] := rfl

@[simp] theorem trace_succ (out : σ → ι → List ε) (n : Nat) :
    trace step out s is (n + 1) = trace step out s is n ++ out (run step s is n) (is n) := rfl

theorem Admits.mono {ok : σ → ι → Prop} {m n : Nat} (h : Admits step ok s is n) (hmn : m ≤ n) :
    Admits step ok s is m :=
  fun k hk => h k (lt_of_lt_of_le hk hmn)

theorem Admits.last {ok : σ → ι → Prop} {n : Nat} (h : Admits step ok s is (n + 1)) :
    ok (run step s is n) (is n) :=
  h n (Nat.lt_succ_self n)

theorem history_prefix (e : Nat → List ε) {m n : Nat} (hmn : m ≤ n) :
    history e m <+: history e n := by
  induction n with
  | zero => simp [Nat.le_zero.1 hmn]
  | succ n ih =>
    rcases Nat.lt_or_eq_of_le hmn with hlt | rfl
    · exact (ih (Nat.lt_succ_iff.1 hlt)).trans (List.prefix_append _ _)
    · exact List.prefix_rfl

/-- What two runs have written of one history. -/
theorem prefix_or_prefix_of_history {e : Nat → List ε} {xs ys : List ε} {m n : Nat}
    (hx : xs <+: history e m) (hy : ys <+: history e n) : xs <+: ys ∨ ys <+: xs := by
  have hm : history e m <+: history e (max m n) := history_prefix e (le_max_left m n)
  have hn : history e n <+: history e (max m n) := history_prefix e (le_max_right m n)
  exact List.prefix_or_prefix_of_prefix (hx.trans hm) (hy.trans hn)

theorem mem_history {e : Nat → List ε} {n : Nat} {x : ε} (h : x ∈ history e n) :
    ∃ k < n, x ∈ e k := by
  induction n with
  | zero => cases h
  | succ n ih =>
    rcases List.mem_append.1 h with hx | hx
    · obtain ⟨k, hk, hxk⟩ := ih hx
      exact ⟨k, Nat.lt_succ_of_lt hk, hxk⟩
    · exact ⟨n, Nat.lt_succ_self n, hx⟩

/-- **Invariance along a run.** -/
theorem run_invariant {ok : σ → ι → Prop} {Inv : σ → Prop}
    (hstep : ∀ s i, Inv s → ok s i → Inv (step s i)) (h0 : Inv s) {n : Nat}
    (hok : Admits step ok s is n) : ∀ k ≤ n, Inv (run step s is k) := by
  intro k
  induction k with
  | zero => exact fun _ => h0
  | succ k ih => exact fun hk => hstep _ _ (ih (Nat.le_of_succ_le hk)) (hok k hk)

end

/-- What holds in step `k` and is kept up to step `n` holds in step `n`. -/
theorem of_stays {P : Nat → Prop} {k n : Nat} (hk : P k) (hkn : k ≤ n)
    (hstay : ∀ j, k ≤ j → j < n → P j → P (j + 1)) : P n := by
  induction n, hkn using Nat.le_induction with
  | base => exact hk
  | succ n hkn ih =>
    exact hstay n hkn n.lt_succ_self (ih fun j hkj hjn => hstay j hkj (Nat.lt_succ_of_lt hjn))

theorem exists_of_stays {P Q : Nat → Prop} {k : Nat} (hk : P k)
    (hstay : ∀ j, k ≤ j → P j → ¬ Q j → P (j + 1)) (hq : ∃ j, k ≤ j ∧ Q j) :
    ∃ j, k ≤ j ∧ P j ∧ Q j := by
  obtain ⟨n, hn, hQ⟩ := hq
  induction n using Nat.strong_induction_on with
  | h n ih =>
    by_cases hearly : ∃ j, k ≤ j ∧ j < n ∧ Q j
    · obtain ⟨j, hkj, hjn, hj⟩ := hearly
      exact ih j hjn hkj hj
    · have hP : P n := of_stays hk hn fun j hkj hjn hPj =>
        hstay j hkj hPj fun hQj => hearly ⟨j, hkj, hjn, hQj⟩
      exact ⟨n, hn, hP, hQ⟩

theorem exists_first {Q : Nat → Prop} {k : Nat} (hq : ∃ j, k ≤ j ∧ Q j) :
    ∃ j, k ≤ j ∧ Q j ∧ ∀ i, k ≤ i → i < j → ¬ Q i := by
  obtain ⟨j, hkj, hno, hQ⟩ := exists_of_stays (P := fun j => ∀ i, k ≤ i → i < j → ¬ Q i)
    (fun i hki hik => absurd hik (Nat.not_lt.2 hki))
    (fun j _ hP hn i hki hij => by
      rcases Nat.lt_succ_iff_lt_or_eq.1 hij with hlt | rfl
      · exact hP i hki hlt
      · exact hn) hq
  exact ⟨j, hkj, hQ, hno⟩

end Oscpu.Lib
