import Mathlib.Data.List.Perm.Basic

/-!
# Servers

A server accepts jobs and answers each with the items of its answer, one after the other. Jobs that
wait may overtake each other, but the job that is being served is finished first. `Served` relates
what was accepted to what was emitted: every answer is complete and in one piece, no job is answered
twice, and no job is forgotten.
-/

namespace Oscpu.Lib

variable {α β : Type*}

/-- The items of the job in service that have been emitted: the first `k` of its answer. -/
def part (items : α → List β) : Option (α × Nat) → List β
  | none => []
  | some (a, k) => (items a).take k

/-- The server has answered all the jobs it accepted but those waiting and the one in service. -/
def Served (items : α → List β) (accepted : List α) (emitted : List β) (waiting : List α)
    (current : Option (α × Nat)) : Prop :=
  ∃ done : List α, (done ++ (current.map Prod.fst).toList ++ waiting).Perm accepted ∧
    emitted = done.flatMap items ++ part items current

namespace Served

variable {items : α → List β} {accepted : List α} {emitted : List β} {waiting waiting' : List α}
  {current : Option (α × Nat)} {a : α} {b : β} {k : Nat}

theorem start : Served items [] [] [] none := ⟨[], by simp, rfl⟩

/-- The jobs that wait change places. -/
theorem reorder (h : Served items accepted emitted waiting current) (hw : waiting'.Perm waiting) :
    Served items accepted emitted waiting' current := by
  obtain ⟨done, hperm, hem⟩ := h
  exact ⟨done, (hw.append_left _).trans hperm, hem⟩

/-- A job is accepted. -/
theorem accept (h : Served items accepted emitted waiting current)
    (hw : waiting'.Perm (a :: waiting)) :
    Served items (accepted ++ [a]) emitted waiting' current := by
  obtain ⟨done, hperm, hem⟩ := h
  refine ⟨done, ?_, hem⟩
  have hmid : (done ++ (current.map Prod.fst).toList ++ a :: waiting).Perm
      (a :: (done ++ (current.map Prod.fst).toList ++ waiting)) := List.perm_middle
  calc (done ++ (current.map Prod.fst).toList ++ waiting').Perm
        (done ++ (current.map Prod.fst).toList ++ a :: waiting) := hw.append_left _
    _ |>.Perm (a :: (done ++ (current.map Prod.fst).toList ++ waiting)) := hmid
    _ |>.Perm (a :: accepted) := hperm.cons a
    _ |>.Perm (accepted ++ [a]) := (List.perm_append_singleton a accepted).symm

/-- A free server takes a job up. -/
theorem takeUp (h : Served items accepted emitted waiting none)
    (hw : waiting.Perm (a :: waiting')) : Served items accepted emitted waiting' (some (a, 0)) := by
  obtain ⟨done, hperm, hem⟩ := h
  refine ⟨done, ?_, by simpa [part] using hem⟩
  have hmid : (done ++ [a] ++ waiting').Perm (done ++ waiting) := by
    rw [List.append_assoc]
    exact hw.symm.append_left done
  exact hmid.trans (by simpa using hperm)

theorem part_succ (hb : (items a)[k]? = some b) :
    part items (some (a, k + 1)) = part items (some (a, k)) ++ [b] := by
  rw [part, part, List.take_add_one, hb]
  rfl

/-- The next item of the answer, which is not the last one. -/
theorem emit (h : Served items accepted emitted waiting (some (a, k)))
    (hb : (items a)[k]? = some b) :
    Served items accepted (emitted ++ [b]) waiting (some (a, k + 1)) := by
  obtain ⟨done, hperm, hem⟩ := h
  refine ⟨done, hperm, ?_⟩
  rw [hem, part_succ hb, List.append_assoc]

/-- The last item of the answer. -/
theorem finish (h : Served items accepted emitted waiting (some (a, k)))
    (hb : (items a)[k]? = some b) (hk : k + 1 = (items a).length) :
    Served items accepted (emitted ++ [b]) waiting none := by
  obtain ⟨done, hperm, hem⟩ := h
  refine ⟨done ++ [a], by simpa using hperm, ?_⟩
  have hall : part items (some (a, k)) ++ [b] = items a := by
    rw [← part_succ hb, part, hk, List.take_length]
  rw [hem, List.append_assoc, hall]
  simp [part]

/-- An answer of one item, given at once. -/
theorem answer (h : Served items accepted emitted waiting (some (a, 0))) (ha : items a = [b]) :
    Served items accepted (emitted ++ [b]) waiting none :=
  h.finish (by rw [ha]; rfl) (by rw [ha]; rfl)

end Served

end Oscpu.Lib
