import Oscpu.Lib.Run

/-!
# Runs that can abort

A simulator aborts when an assertion of it fails: its step is partial. `Reaches` says that a run is
still going after some cycles and where it is then, `events` is what the cycles have emitted until
it aborted. What every step that succeeds preserves holds wherever a run gets to.
-/

namespace Oscpu.Lib

variable {σ ι ε : Type*}

/-- The step of a machine that has aborted is to stay so. -/
def lift (step : σ → ι → Option σ) (s : Option σ) (i : ι) : Option σ := s.bind fun s => step s i

/-- The run is still going after `n` cycles, in the state `s'`. -/
def Reaches (step : σ → ι → Option σ) (s : σ) (is : Nat → ι) (n : Nat) (s' : σ) : Prop :=
  run (lift step) (some s) is n = some s'

/-- What the first `n` cycles emit, as far as the run gets. -/
def events (step : σ → ι → Option σ) (out : σ → ι → List ε) (s : σ) (is : Nat → ι) (n : Nat) :
    List ε :=
  trace (lift step) (fun s i => s.elim [] fun s => out s i) (some s) is n

section

variable {step : σ → ι → Option σ} {s s' : σ} {is : Nat → ι} {n : Nat}

@[simp] theorem reaches_zero : Reaches step s is 0 s' ↔ s = s' := by simp [Reaches]

@[simp] theorem reaches_succ :
    Reaches step s is (n + 1) s' ↔ ∃ t, Reaches step s is n t ∧ step t (is n) = some s' := by
  simp [Reaches, lift, Option.bind_eq_some_iff]

@[simp] theorem events_zero (out : σ → ι → List ε) : events step out s is 0 = [] := rfl

theorem Reaches.events_succ {t : σ} (h : Reaches step s is n t) (out : σ → ι → List ε) :
    events step out s is (n + 1) = events step out s is n ++ out t (is n) := by
  have ht : run (lift step) (some s) is n = some t := h
  simp [events, ht]

/-- A run from behind its first step. -/
theorem reaches_cons {t : σ} (hs : step s (is 0) = some t) :
    Reaches step s is (n + 1) s' ↔ Reaches step t (fun k => is (k + 1)) n s' := by
  have hadd := run_add (lift step) (some s) is 1 n
  have hone : run (lift step) (some s) is 1 = some t := hs
  rw [hone, Nat.add_comm 1 n] at hadd
  simp only [Nat.add_comm 1] at hadd
  rw [Reaches, hadd, Reaches]

/-- A run that is going has been going all the time. -/
theorem Reaches.earlier (h : Reaches step s is n s') {m : Nat} (hm : m ≤ n) :
    ∃ t, Reaches step s is m t := by
  induction n generalizing s' with
  | zero => exact ⟨s', by rwa [Nat.le_zero.1 hm]⟩
  | succ n ih =>
    rcases Nat.lt_or_eq_of_le hm with hlt | rfl
    · obtain ⟨t, ht, -⟩ := reaches_succ.1 h
      exact ih ht (Nat.lt_succ_iff.1 hlt)
    · exact ⟨s', h⟩

theorem Reaches.unique {t : σ} (h : Reaches step s is n s') (ht : Reaches step s is n t) :
    s' = t :=
  Option.some.inj (h.symm.trans ht)

/-- The cycles of the run take inputs that `ok` admits. -/
def Meets (step : σ → ι → Option σ) (ok : σ → ι → Prop) (s : σ) (is : Nat → ι) (n : Nat) : Prop :=
  ∀ k < n, ∀ t, Reaches step s is k t → ok t (is k)

theorem meets_iff {ok : σ → ι → Prop} [∀ s i, Decidable (ok s i)] :
    Meets step ok s is n ↔
      ∀ k < n, (run (lift step) (some s) is k).all (fun t => decide (ok t (is k))) = true := by
  simp only [Meets, Reaches, Option.all_eq_true, decide_eq_true_eq]

instance {ok : σ → ι → Prop} [∀ s i, Decidable (ok s i)] : Decidable (Meets step ok s is n) :=
  decidable_of_iff' _ meets_iff

/-- Where a run is that can be computed. -/
theorem reaches_get (h : (run (lift step) (some s) is n).isSome = true) :
    Reaches step s is n ((run (lift step) (some s) is n).get h) :=
  (Option.some_get h).symm

/-- **Induction along a run that can abort.** -/
theorem Reaches.induct {P : Nat → σ → Prop}
    (hstep : ∀ k t t', k < n → Reaches step s is k t → P k t → step t (is k) = some t' →
      P (k + 1) t') (h0 : P 0 s) (h : Reaches step s is n s') : P n s' := by
  induction n generalizing s' with
  | zero => exact reaches_zero.1 h ▸ h0
  | succ n ih =>
    obtain ⟨t, ht, hs⟩ := reaches_succ.1 h
    have hpre : P n t := ih (fun k t t' hk => hstep k t t' (Nat.lt_succ_of_lt hk)) ht
    exact hstep n t s' n.lt_succ_self ht hpre hs

/-- **A checker that follows a machine.** If a step succeeds just when the inputs suit the state of the
machine, a run goes on as long as they do. -/
theorem reaches_iff_admits {τ : Type*} {next : τ → ι → τ} {ok : τ → ι → Prop} {adm : ι → Prop}
    {R : σ → τ → Prop} (hiff : ∀ s t i, R s t → adm i → ((∃ s', step s i = some s') ↔ ok t i))
    (hrel : ∀ s t i s', R s t → adm i → step s i = some s' → R s' (next t i)) {t : τ} (h0 : R s t)
    (hadm : ∀ k < n, adm (is k)) :
    ((∃ s', Reaches step s is n s') ↔ Admits next ok t is n) ∧
      ∀ s', Reaches step s is n s' → R s' (run next t is n) := by
  induction n with
  | zero => exact ⟨⟨fun _ => nofun, fun _ => ⟨s, reaches_zero.2 rfl⟩⟩, fun s' h => reaches_zero.1 h ▸ h0⟩
  | succ n ih =>
    obtain ⟨hih, hR⟩ := ih fun k hk => hadm k (Nat.lt_succ_of_lt hk)
    have ha : adm (is n) := hadm n n.lt_succ_self
    refine ⟨⟨?_, fun h => ?_⟩, ?_⟩
    · rintro ⟨s', h⟩ k hk
      obtain ⟨u, hu, hs⟩ := reaches_succ.1 h
      rcases Nat.lt_succ_iff_lt_or_eq.1 hk with hlt | rfl
      · exact hih.1 ⟨u, hu⟩ k hlt
      · exact (hiff u _ _ (hR u hu) ha).1 ⟨s', hs⟩
    · obtain ⟨u, hu⟩ := hih.2 (h.mono n.le_succ)
      obtain ⟨s', hs⟩ := (hiff u _ _ (hR u hu) ha).2 h.last
      exact ⟨s', reaches_succ.2 ⟨u, hu, hs⟩⟩
    · intro s' h
      obtain ⟨u, hu, hs⟩ := reaches_succ.1 h
      exact hrel u _ _ s' (hR u hu) ha hs

end

end Oscpu.Lib
