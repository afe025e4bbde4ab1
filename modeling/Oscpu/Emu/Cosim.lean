import Oscpu.Lib.Server
import Oscpu.Rtl.Config

/-!
# The DRAM model: `cosimulation.h` and `cosimulation.cc`

`CoDRAMsim3` keeps the requests until they are answered. When it answers is up to the model: after
a fixed latency, or when DRAMsim3 calls back, whose timing is an input here. `LawfulCoDRAMsim3` is
what its users rely on: a request stays pending until its response is handed out.
-/

namespace Oscpu.Emu

open Oscpu.Rtl Oscpu.Lib

variable {μ : Type*}

/-- `CoDRAMRequest`; `metaData` is what its sender attaches. -/
structure CoDRAMRequest (μ : Type*) where
  address : Word
  isWrite : Bool
  metaData : μ

/-- The request with another `metaData`. -/
def CoDRAMRequest.withMeta (r : CoDRAMRequest μ) (m : μ) : CoDRAMRequest μ := { r with metaData := m }

/-- `CoDRAMResponse`. -/
structure CoDRAMResponse (μ : Type*) where
  req : CoDRAMRequest μ
  finishTime : Nat

/-- The virtual functions of `CoDRAMsim3`. A `tick` is given the transactions that the memory system
reports as finished in it, and fails if one of them is unknown. `willAccept` is given what the
memory system says. -/
class CoDRAMsim3 (δ : Type*) (μ : outParam (Type*)) where
  tick : δ → List (Word × Bool) → Option δ
  willAccept : δ → (Word → Bool → Bool) → Word → Bool → Bool
  addRequest : δ → CoDRAMRequest μ → δ
  checkReadResponse : δ → Option (CoDRAMResponse μ × δ)
  checkWriteResponse : δ → Option (CoDRAMResponse μ × δ)

/-- Requests are neither lost nor invented. -/
class LawfulCoDRAMsim3 (δ : Type*) {μ : outParam (Type*)} [CoDRAMsim3 δ μ] where
  /-- The reads, or the writes, that have not been answered. -/
  pending : Bool → δ → List (CoDRAMRequest μ)
  tick_pending : ∀ {d d' : δ} {cbs} (w), CoDRAMsim3.tick d cbs = some d' →
    (pending w d').Perm (pending w d)
  add_pending : ∀ (w) (d : δ) (r), (pending w (CoDRAMsim3.addRequest d r)).Perm
    (if r.isWrite = w then r :: pending w d else pending w d)
  read_pending : ∀ {d d' : δ} {resp}, CoDRAMsim3.checkReadResponse d = some (resp, d') →
    (pending false d).Perm (resp.req :: pending false d') ∧
      (pending true d').Perm (pending true d)
  write_pending : ∀ {d d' : δ} {resp}, CoDRAMsim3.checkWriteResponse d = some (resp, d') →
    (pending true d).Perm (resp.req :: pending true d') ∧
      (pending false d').Perm (pending false d)

/-- No request is answered in the cycle in which it comes: a read that the model takes when it has no
other does not get its response before the next `tick`. -/
class DelayedCoDRAMsim3 (δ : Type*) {μ : outParam (Type*)} [CoDRAMsim3 δ μ]
    [LawfulCoDRAMsim3 δ] where
  /-- The parameters of the model are those of one that takes its time. -/
  Late : δ → Prop
  /-- There is no read whose time has come. -/
  Quiet : δ → Prop
  tick_late : ∀ {d d' : δ} {cbs}, CoDRAMsim3.tick d cbs = some d' → Late d → Late d'
  add_late : ∀ (d : δ) (r), Late d → Late (CoDRAMsim3.addRequest d r)
  read_late : ∀ {d d' : δ} {resp}, CoDRAMsim3.checkReadResponse d = some (resp, d') → Late d → Late d'
  write_late : ∀ {d d' : δ} {resp}, CoDRAMsim3.checkWriteResponse d = some (resp, d') →
    Late d → Late d'
  quiet_of_none : ∀ {d : δ}, LawfulCoDRAMsim3.pending false d = [] → Quiet d
  add_quiet : ∀ {d : δ} (r), Late d → Quiet d → Quiet (CoDRAMsim3.addRequest d r)
  read_quiet : ∀ {d : δ}, Quiet d → CoDRAMsim3.checkReadResponse d = none

theorem perm_cons_eraseP {α : Type*} {p : α → Bool} {l : List α} {a : α}
    (h : l.find? p = some a) : l.Perm (a :: l.eraseP p) := by
  obtain ⟨ha, l₁, l₂, rfl, hl₁⟩ := List.find?_eq_some_iff_append.1 h
  have hno : ∀ b ∈ l₁, ¬ p b = true := fun b hb => by simpa using hl₁ b hb
  rw [List.eraseP_append_right _ hno, List.eraseP_cons_of_pos ha]
  exact List.perm_middle

/-! ## `ComplexCoDRAMsim3` -/

structure ComplexCoDRAMsim3 (μ : Type*) where
  dramClock : Nat
  padding : Nat
  reqList : List (CoDRAMRequest μ)
  respReadQueue : List (CoDRAMResponse μ)
  respWriteQueue : List (CoDRAMResponse μ)

namespace ComplexCoDRAMsim3

/-- The constructor, with the default padding. -/
def init : ComplexCoDRAMsim3 μ := ⟨0, 40, [], [], []⟩

variable (d : ComplexCoDRAMsim3 μ)

/-- The request that a callback reports on. -/
def hit (addr : Word) (isWrite : Bool) (req : CoDRAMRequest μ) : Bool :=
  req.address == addr && req.isWrite == isWrite

/-- The first matched request gets its response; without one the emulator aborts. -/
def callback (addr : Word) (isWrite : Bool) : Option (ComplexCoDRAMsim3 μ) :=
  (d.reqList.find? (hit addr isWrite)).map fun req =>
    let resp : CoDRAMResponse μ := ⟨req, d.dramClock + d.padding⟩
    { d with
      reqList := d.reqList.eraseP (hit addr isWrite)
      respReadQueue := if req.isWrite then d.respReadQueue else d.respReadQueue ++ [resp]
      respWriteQueue := if req.isWrite then d.respWriteQueue ++ [resp] else d.respWriteQueue }

def tick (cbs : List (Word × Bool)) : Option (ComplexCoDRAMsim3 μ) := do
  let d ← cbs.foldlM (fun d c => d.callback c.1 c.2) d
  return { d with dramClock := d.dramClock + 1 }

def addRequest (req : CoDRAMRequest μ) : ComplexCoDRAMsim3 μ :=
  { d with reqList := d.reqList ++ [req] }

/-- `check_response`: the head of a queue, once its time has come. -/
def checkResponse (queue : List (CoDRAMResponse μ)) :
    Option (CoDRAMResponse μ × List (CoDRAMResponse μ)) :=
  match queue with
  | [] => none
  | resp :: queue => if resp.finishTime ≤ d.dramClock then some (resp, queue) else none

instance : CoDRAMsim3 (ComplexCoDRAMsim3 μ) μ where
  tick := tick
  willAccept _ accept address isWrite := accept address isWrite
  addRequest := addRequest
  checkReadResponse d :=
    (d.checkResponse d.respReadQueue).map fun (resp, q) => (resp, { d with respReadQueue := q })
  checkWriteResponse d :=
    (d.checkResponse d.respWriteQueue).map fun (resp, q) => (resp, { d with respWriteQueue := q })

def pending (w : Bool) (d : ComplexCoDRAMsim3 μ) : List (CoDRAMRequest μ) :=
  (bif w then d.respWriteQueue else d.respReadQueue).map CoDRAMResponse.req ++
    d.reqList.filter fun r => r.isWrite == w

variable {d} {d' : ComplexCoDRAMsim3 μ}

theorem callback_pending {addr : Word} {isWrite : Bool} (h : d.callback addr isWrite = some d')
    (w : Bool) : (pending w d').Perm (pending w d) := by
  obtain ⟨req, hreq, rfl⟩ := Option.map_eq_some_iff.1 h
  have hlist := (perm_cons_eraseP hreq).filter fun r => r.isWrite == w
  cases hw : req.isWrite <;> cases w
  -- the request moves from the list to the queue of its kind
  case false.false | true.true =>
    simp only [List.filter_cons, hw, beq_self_eq_true, ↓reduceIte] at hlist
    simpa [pending, hw] using (hlist.append_left _).symm
  case false.true | true.false =>
    simp only [List.filter_cons, hw] at hlist
    simp only [pending, Bool.false_eq_true, ↓reduceIte]
    exact hlist.symm.append_left _

theorem tick_pending {cbs : List (Word × Bool)} (h : d.tick cbs = some d') (w : Bool) :
    (pending w d').Perm (pending w d) := by
  simp only [tick, Option.bind_eq_bind, Option.bind_eq_some_iff, Option.pure_def,
    Option.some.injEq] at h
  obtain ⟨t, ht, rfl⟩ := h
  change (pending w t).Perm _
  induction cbs generalizing d with
  | nil =>
    cases ht
    exact List.Perm.refl _
  | cons c cbs ih =>
    simp only [List.foldlM_cons, Option.bind_eq_bind, Option.bind_eq_some_iff] at ht
    obtain ⟨d₁, h₁, ht⟩ := ht
    exact (ih ht).trans (callback_pending h₁ w)

theorem checkResponse_eq_some {queue q : List (CoDRAMResponse μ)} {resp : CoDRAMResponse μ} :
    d.checkResponse queue = some (resp, q) ↔
      queue = resp :: q ∧ resp.finishTime ≤ d.dramClock := by
  cases queue with
  | nil => simp [checkResponse]
  | cons r rs =>
    simp only [checkResponse, Option.ite_none_right_eq_some, Option.some.injEq, Prod.mk.injEq,
      List.cons.injEq]
    constructor
    · rintro ⟨ht, rfl, rfl⟩
      exact ⟨⟨rfl, rfl⟩, ht⟩
    · rintro ⟨⟨rfl, rfl⟩, ht⟩
      exact ⟨ht, rfl, rfl⟩

instance : LawfulCoDRAMsim3 (ComplexCoDRAMsim3 μ) where
  pending := pending
  tick_pending w h := tick_pending h w
  add_pending w d r := by
    have hend : (d.reqList ++ [r]).Perm (r :: d.reqList) := List.perm_append_singleton _ _
    have hlist := hend.filter fun r => r.isWrite == w
    change (_ ++ List.filter _ (d.reqList ++ [r])).Perm _
    by_cases hw : r.isWrite = w
    · rw [if_pos hw]
      simp only [List.filter_cons, hw, beq_self_eq_true, ↓reduceIte] at hlist
      exact (hlist.append_left _).trans List.perm_middle
    · rw [if_neg hw]
      simp only [List.filter_cons, beq_eq_false_iff_ne.2 hw] at hlist
      exact hlist.append_left _
  read_pending h := by
    obtain ⟨⟨resp, q⟩, hc, heq⟩ := Option.map_eq_some_iff.1 h
    cases heq
    obtain ⟨hq, -⟩ := checkResponse_eq_some.1 hc
    simp [pending, hq]
  write_pending h := by
    obtain ⟨⟨resp, q⟩, hc, heq⟩ := Option.map_eq_some_iff.1 h
    cases heq
    obtain ⟨hq, -⟩ := checkResponse_eq_some.1 hc
    simp [pending, hq]

/-- A response needs a callback. -/
instance : DelayedCoDRAMsim3 (ComplexCoDRAMsim3 μ) where
  Late _ := True
  Quiet d := d.respReadQueue = []
  tick_late _ := id
  add_late _ _ := id
  read_late _ := id
  write_late _ := id
  quiet_of_none h := by
    obtain ⟨hq, -⟩ := List.append_eq_nil_iff.1 h
    exact List.map_eq_nil_iff.1 hq
  add_quiet _ _ h := h
  read_quiet h := by
    change Option.map _ (checkResponse _ _) = none
    rw [h]
    rfl

end ComplexCoDRAMsim3

/-! ## `SimpleCoDRAMsim3` -/

structure SimpleCoDRAMsim3 (μ : Type*) where
  dramClock : Nat
  latency : Nat
  respList : List (CoDRAMResponse μ)

namespace SimpleCoDRAMsim3

def init (latency : Nat) : SimpleCoDRAMsim3 μ := ⟨0, latency, []⟩

variable (d : SimpleCoDRAMsim3 μ)

def addRequest (req : CoDRAMRequest μ) : SimpleCoDRAMsim3 μ :=
  { d with respList := d.respList ++ [⟨req, d.dramClock + d.latency⟩] }

/-- `check_response`: the first request of this kind whose time has come. -/
def checkResponse (isWrite : Bool) : Option (CoDRAMResponse μ × SimpleCoDRAMsim3 μ) :=
  let hit (resp : CoDRAMResponse μ) : Bool :=
    resp.req.isWrite == isWrite && resp.finishTime ≤ d.dramClock
  (d.respList.find? hit).map fun resp => (resp, { d with respList := d.respList.eraseP hit })

instance : CoDRAMsim3 (SimpleCoDRAMsim3 μ) μ where
  tick d _ := some { d with dramClock := d.dramClock + 1 }
  willAccept _ _ _ _ := true
  addRequest := addRequest
  checkReadResponse d := d.checkResponse false
  checkWriteResponse d := d.checkResponse true

def pending (w : Bool) (d : SimpleCoDRAMsim3 μ) : List (CoDRAMRequest μ) :=
  (d.respList.map CoDRAMResponse.req).filter fun r => r.isWrite == w

variable {d} {d' : SimpleCoDRAMsim3 μ} {resp : CoDRAMResponse μ}

theorem checkResponse_pending {isWrite : Bool} (h : d.checkResponse isWrite = some (resp, d')) :
    (pending isWrite d).Perm (resp.req :: pending isWrite d') ∧
      (pending (!isWrite) d').Perm (pending (!isWrite) d) := by
  obtain ⟨r, hr, heq⟩ := Option.map_eq_some_iff.1 h
  cases heq
  have hw : resp.req.isWrite = isWrite := by
    have := List.find?_some hr
    simp only [Bool.and_eq_true, beq_iff_eq] at this
    exact this.1
  have hperm := (perm_cons_eraseP hr).map CoDRAMResponse.req
  constructor
  · simpa [pending, hw] using hperm.filter fun r => r.isWrite == isWrite
  · have hlist := hperm.filter fun r => r.isWrite == !isWrite
    simpa [pending, hw] using hlist.symm

instance : LawfulCoDRAMsim3 (SimpleCoDRAMsim3 μ) where
  pending := pending
  tick_pending w h := by
    cases h
    exact List.Perm.refl _
  add_pending w d r := by
    have hend : (d.respList.map CoDRAMResponse.req ++ [r]).Perm
        (r :: d.respList.map CoDRAMResponse.req) := List.perm_append_singleton _ _
    change (List.filter _ (List.map _ (d.respList ++ [_]))).Perm _
    rw [List.map_append]
    refine (hend.filter fun r => r.isWrite == w).trans ?_
    by_cases hw : r.isWrite = w
    · simp [pending, hw]
    · simp [pending, hw]
  read_pending h := checkResponse_pending h
  write_pending h := checkResponse_pending h

theorem checkResponse_latency {isWrite : Bool} (h : d.checkResponse isWrite = some (resp, d')) :
    d'.latency = d.latency := by
  obtain ⟨r, -, heq⟩ := Option.map_eq_some_iff.1 h
  cases heq
  rfl

/-- The latency is not zero. -/
instance : DelayedCoDRAMsim3 (SimpleCoDRAMsim3 μ) where
  Late d := 0 < d.latency
  Quiet d := ∀ resp ∈ d.respList, resp.req.isWrite = false → d.dramClock < resp.finishTime
  tick_late h hd := by
    cases h
    exact hd
  add_late _ _ := id
  read_late h hd := (checkResponse_latency h).symm ▸ hd
  write_late h hd := (checkResponse_latency h).symm ▸ hd
  quiet_of_none {d} h resp hmem hr := by
    have hin : resp.req ∈ pending false d :=
      List.mem_filter.2 ⟨List.mem_map_of_mem hmem, by simp [hr]⟩
    rw [show pending false d = [] from h] at hin
    cases hin
  add_quiet {d} r hl h resp hmem hr := by
    rcases List.mem_append.1 hmem with hmem | hmem
    · exact h resp hmem hr
    · cases List.mem_singleton.1 hmem
      exact Nat.lt_add_of_pos_right hl
  read_quiet {d} h := by
    refine Option.map_eq_none_iff.2 (List.find?_eq_none.2 fun resp hmem hit => ?_)
    simp only [Bool.and_eq_true, beq_iff_eq, decide_eq_true_eq] at hit
    exact absurd hit.2 (Nat.not_le.2 (h resp hmem hit.1))

end SimpleCoDRAMsim3

end Oscpu.Emu
