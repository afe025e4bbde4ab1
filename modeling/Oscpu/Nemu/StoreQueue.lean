import Oscpu.Lib.Ring
import Oscpu.Rtl.Config

/-!
# The store queue of NEMU: `paddr.c`

Every store of NEMU leaves an entry in a ring of 48, and difftest takes one out for each store of the
core and compares the two. As long as nothing was overwritten the ring is a queue.
-/

namespace Oscpu.Nemu

open Oscpu.Rtl Oscpu.Lib

/-- `store_commit_t`. -/
structure StoreCommit where
  addr : Word
  data : Word
  mask : BitVec 8
  valid : Bool
  deriving DecidableEq

abbrev STORE_QUEUE_SIZE : Nat := 48

instance : NeZero STORE_QUEUE_SIZE := ⟨by decide⟩

/-- `store_commit_queue` with the static variables beside it. -/
structure StoreQueue where
  entry : Fin STORE_QUEUE_SIZE → StoreCommit
  head : Fin STORE_QUEUE_SIZE
  tail : Fin STORE_QUEUE_SIZE
  overflow : Bool

/-- The entry of a store: a doubleword and the bytes of it. Only the bytes up to the end of the
doubleword have a place in the mask. -/
def StoreCommit.ofStore (addr data : Word) (len : Nat) : StoreCommit :=
  let offset := addr % 8#64
  { addr := addr - offset
    data :=
      if len = 1 then (data &&& 0xff#64) <<< (offset <<< 3)
      else if len = 2 then (data &&& 0xffff#64) <<< (offset <<< 3)
      else if len = 4 then (data &&& 0xffffffff#64) <<< (offset <<< 3)
      else data
    mask :=
      if len = 1 then 0x1#8 <<< offset
      else if len = 2 then 0x3#8 <<< offset
      else if len = 4 then 0xf#8 <<< offset
      else 0xff#8
    valid := true }

namespace StoreQueue

variable (q : StoreQueue)

/-- `store_commit_queue_push`. The store that finds the queue full is still written. -/
def push (amo : Bool) (addr data : Word) (len : Nat) : StoreQueue :=
  if amo || q.overflow then q
  else
    { q with
      entry := Function.update q.entry q.tail (.ofStore addr data len)
      tail := q.tail + 1
      overflow := (q.entry q.tail).valid }

/-- `store_commit_queue_pop`. -/
def pop : Option StoreCommit × StoreQueue :=
  let result := q.entry q.head
  if !result.valid then (none, q)
  else
    (some result,
      { q with
        entry := Function.update q.entry q.head { result with valid := false }
        head := q.head + 1 })

/-- `check_store_commit`: whether the store differs from the next one in the queue. -/
def check (addr data : Word) (mask : BitVec 8) : Bool × StoreQueue :=
  let addr := addr - addr % 8#64
  match q.pop with
  | (none, q) => (true, q)
  | (some commit, q) => (addr != commit.addr || data != commit.data || mask != commit.mask, q)

end StoreQueue

/-! ## The ring is a queue -/

/-- The entry that a store of the core is to have. -/
def StoreCommit.ofCore (addr data : Word) (mask : BitVec 8) : StoreCommit :=
  ⟨addr - addr % 8#64, data, mask, true⟩

/-- What is in a slot. -/
def StoreCommit.slot (c : StoreCommit) : Option StoreCommit := if c.valid then some c else none

namespace StoreQueue

variable {q : StoreQueue} {l : List StoreCommit}

/-- The stores that are not checked yet, the oldest one first. -/
def Holds (q : StoreQueue) (l : List StoreCommit) : Prop :=
  Ring.Holds (StoreCommit.slot ∘ q.entry) q.head q.tail l

theorem Holds.empty (h : ∀ i, (q.entry i).valid = false) (hp : q.tail = q.head) : q.Holds [] := by
  rw [Holds, hp]
  exact .empty (fun i => by simp [StoreCommit.slot, h i]) _

/-- A queue that has overflowed takes nothing any more. -/
theorem push_of_overflow (h : q.overflow = true) (amo : Bool) (addr data : Word) (len : Nat) :
    q.push amo addr data len = q := by
  simp [push, h]

theorem Holds.push (h : q.Holds l) {addr data : Word} {len : Nat}
    (ho : (q.push false addr data len).overflow = false) :
    (q.push false addr data len).Holds (l ++ [.ofStore addr data len]) := by
  have hq : q.overflow = false := by
    by_contra hq
    rw [push_of_overflow (by simpa using hq)] at ho
    exact hq ho
  have hfree : (q.entry q.tail).valid = false := by simpa [StoreQueue.push, hq] using ho
  have hlen : l.length < STORE_QUEUE_SIZE :=
    (Ring.Holds.back h).1 (by simp [StoreCommit.slot, hfree])
  have hring := Ring.Holds.push h hlen (.ofStore addr data len)
  have hslot : (StoreCommit.ofStore addr data len).slot = some (.ofStore addr data len) := rfl
  rw [← hslot, ← Function.comp_update] at hring
  simpa only [Holds, StoreQueue.push, hq, Bool.false_or, Bool.false_eq_true, if_false] using hring

theorem overflow_check (q : StoreQueue) (addr data : Word) (mask : BitVec 8) :
    (q.check addr data mask).2.overflow = q.overflow := by
  have hpop : q.pop.2.overflow = q.overflow := by
    unfold StoreQueue.pop
    extract_lets result
    split <;> rfl
  rcases hq : q.pop with ⟨_ | c, q'⟩
  · simpa only [StoreQueue.check, hq] using hpop
  · simpa only [StoreQueue.check, hq] using hpop

theorem Holds.pop (h : q.Holds l) : q.pop.1 = l.head? ∧ q.pop.2.Holds l.tail := by
  have hfront : (q.entry q.head).slot = l.head? := Ring.Holds.front h
  cases l with
  | nil =>
    have hv : (q.entry q.head).valid = false := by simpa [StoreCommit.slot] using hfront
    have hpop : q.pop = (none, q) := by simp [StoreQueue.pop, hv]
    rw [hpop]
    exact ⟨rfl, h⟩
  | cons c l =>
    obtain ⟨hv, rfl⟩ : (q.entry q.head).valid = true ∧ q.entry q.head = c := by
      simpa [StoreCommit.slot] using hfront
    have hring := Ring.Holds.pop h
    have hslot : ({ q.entry q.head with valid := false } : StoreCommit).slot = none := rfl
    rw [← hslot, ← Function.comp_update] at hring
    simp only [StoreQueue.pop, hv, Bool.not_true, Bool.false_eq_true, if_false]
    exact ⟨rfl, hring⟩

theorem valid_of_pop {c : StoreCommit} (h : q.pop.1 = some c) : c.valid = true := by
  cases hv : (q.entry q.head).valid with
  | false => simp [StoreQueue.pop, hv] at h
  | true =>
    have hc : q.entry q.head = c := by simpa [StoreQueue.pop, hv] using h
    rw [← hc, hv]

/-- The check takes the oldest store, and finds out whether it is the one of the core. -/
theorem Holds.check (h : q.Holds l) (addr data : Word) (mask : BitVec 8) :
    ((q.check addr data mask).1 = false ↔ l.head? = some (.ofCore addr data mask)) ∧
      (q.check addr data mask).2.Holds l.tail := by
  obtain ⟨hfront, hrest⟩ := h.pop
  rw [← hfront]
  rcases hpop : q.pop with ⟨oldest, q'⟩
  simp only [StoreQueue.check, hpop] at hrest ⊢
  cases oldest with
  | none => exact ⟨by simp, hrest⟩
  | some c =>
    have hv : c.valid = true := valid_of_pop (by rw [hpop])
    refine ⟨?_, hrest⟩
    simp only [Bool.or_eq_false_iff, bne_eq_false_iff_eq, Option.some.injEq]
    constructor
    · rintro ⟨⟨haddr, hdata⟩, hmask⟩
      cases c
      cases hv
      cases haddr
      cases hdata
      cases hmask
      rfl
    · rintro rfl
      exact ⟨⟨rfl, rfl⟩, rfl⟩

/-- How many entries are valid. -/
def outstanding (q : StoreQueue) : Nat :=
  (Finset.univ.filter fun i => (q.entry i).valid = true).card

theorem outstanding_le (q : StoreQueue) : q.outstanding ≤ STORE_QUEUE_SIZE :=
  (Finset.card_le_univ _).trans_eq (Fintype.card_fin _)

/-- A check that passes uses up an entry. -/
theorem outstanding_check (q : StoreQueue) (addr data : Word) (mask : BitVec 8)
    (h : (q.check addr data mask).1 = false) :
    (q.check addr data mask).2.outstanding + 1 = q.outstanding := by
  cases hv : (q.entry q.head).valid with
  | false => simp [StoreQueue.check, StoreQueue.pop, hv] at h
  | true =>
    have hmem : q.head ∈ Finset.univ.filter fun i => (q.entry i).valid = true := by simpa using hv
    have herase : (Finset.univ.filter fun i =>
        ((q.check addr data mask).2.entry i).valid = true) =
        (Finset.univ.filter fun i => (q.entry i).valid = true).erase q.head := by
      ext i
      by_cases hi : i = q.head
      · simp [StoreQueue.check, StoreQueue.pop, hv, hi]
      · simp [StoreQueue.check, StoreQueue.pop, hv, hi]
    rw [outstanding, herase, Finset.card_erase_add_one hmem, outstanding]

end StoreQueue

end Oscpu.Nemu
