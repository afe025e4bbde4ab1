import Oscpu.Axi.Bus
import Oscpu.Lib.Run

/-!
# Read transactions of `axi_rw`

A stream of requests, each held until it is answered, against a slave that accepts every read
address and returns every beat sooner or later. The phases of `Bus` are an invariant of such a run.
From the start of a read on, the memory stands still until the answer, so the data that is returned
is read from the memory at the start.
-/

namespace Oscpu.Axi

open Oscpu.Rtl Oscpu.Lib

namespace Bus

variable {Q : RwReq → Prop} {b : Bus} {r r' : RwReq} {i : AxiIn} {m : ByteMem 64}

/-- Where the transaction of the request `r` stands; `m` is the memory before it. -/
inductive Phase (Q : RwReq → Prop) (b : Bus) (r : RwReq) (m : ByteMem 64) : Prop
  | rest (h : Rest b m)
  | reading (h : Reading b r m)
  | writing (h : Writing Q b r m)
  | done (h : Done Q b r m)

theorem AfterReset.rest (h : b.AfterReset) : Rest b b.slave.mem := by
  refine ⟨?_, h.rd, h.wr, ?_, ?_, ?_, rfl⟩ <;> rw [h.rw] <;> simp [AxiRw.zero]

theorem Done.congr (h : Done Q b r m) (hr : r.Held r') : Done Q b r' m where
  valid := hr.valid.trans h.valid
  ready := h.ready
  rd := h.rd
  wr := h.wr
  rState := h.rState
  wState := h.wState
  read hw := by
    rw [hr.bytes]
    exact h.read (hr.write.symm.trans hw)
  write hw := by
    unfold Written
    rw [hr.addr]
    exact h.write (hr.write.symm.trans hw)

theorem valid_of_rValid (h : r.rValid = true) : r.valid = true := by
  simp only [RwReq.rValid, Bool.and_eq_true] at h
  exact h.1

theorem valid_of_wValid (h : r.wValid = true) : r.valid = true := by
  simp only [RwReq.wValid, Bool.and_eq_true] at h
  exact h.1

theorem write_of_rValid (h : r.rValid = true) : r.write = false := by
  simp only [RwReq.rValid, Bool.and_eq_true, Bool.not_eq_true'] at h
  exact h.2

theorem write_of_wValid (h : r.wValid = true) : r.write = true := by
  simp only [RwReq.wValid, Bool.and_eq_true] at h
  exact h.2

/-- A read does not move the write side, and the other way round. -/
theorem not_awHs_of_rValid (h : r.rValid = true) : b.rw.awHs r i = false := by
  simp [AxiRw.awHs, AxiRw.out, RwReq.wValid, write_of_rValid h]

theorem not_arHs_of_wValid (h : r.wValid = true) : b.rw.arHs r i = false := by
  simp [AxiRw.arHs, AxiRw.out, RwReq.rValid, write_of_wValid h]

theorem valid_of_arHs (h : b.rw.arHs r i = true) : r.valid = true := by
  simp only [AxiRw.arHs, AxiRw.out, Bool.and_eq_true] at h
  exact valid_of_rValid h.2.2

theorem valid_of_awHs (h : b.rw.awHs r i = true) : r.valid = true := by
  simp only [AxiRw.awHs, AxiRw.out, Bool.and_eq_true] at h
  exact valid_of_wValid h.2.2

namespace Phase

theorem done_of_ready (h : Phase Q b r m) (hr : b.rw.rwReady = true) : Done Q b r m := by
  cases h with
  | rest h => exact absurd (h.ready.symm.trans hr) Bool.false_ne_true
  | reading h => exact absurd (h.ready.symm.trans hr) Bool.false_ne_true
  | writing h => exact absurd (h.ready.symm.trans hr) Bool.false_ne_true
  | done h => exact h

/-- While the request is not answered it is held, and so is the memory before it. -/
theorem step_wait (h : Phase Q b r m) (hi : b.slave.Drives i) (hq : Q r)
    (hready : b.rw.rwReady = false) (hheld : r.valid = true → r.Held r') :
    Phase Q (b.step (r, i)) r' m := by
  cases h with
  | rest h =>
    cases har : b.rw.arHs r i with
    | true => exact .reading ((h.step_reading har).congr (hheld (valid_of_arHs har)))
    | false =>
      cases haw : b.rw.awHs r i with
      | true => exact .writing ((h.step_writing haw).congr (hheld (valid_of_awHs haw)))
      | false => exact .rest (h.step_rest har haw)
  | reading h =>
    have hr := hheld (valid_of_rValid h.req)
    rcases h.step hi with h' | h'
    · exact .reading (h'.congr hr)
    · exact .done (h'.congr hr)
  | writing h =>
    have hr := hheld (valid_of_wValid h.req)
    rcases h.step hq with h' | h'
    · exact .writing (h'.congr hr)
    · exact .done (h'.congr hr)
  | done h => exact absurd (hready.symm.trans h.ready) Bool.false_ne_true

/-- When no request is presented, or one is answered, the machine is at rest afterwards. -/
theorem step_end (h : Phase Q b r m) (he : r.valid = false ∨ b.rw.rwReady = true) :
    ∃ m', Rest (b.step (r, i)) m' := by
  rcases he with hv | hr
  · have hne : ¬ r.valid = true := by simp [hv]
    cases h with
    | rest h =>
      refine ⟨m, h.step_rest ?_ ?_⟩
      · exact Bool.eq_false_iff.2 fun har => hne (valid_of_arHs har)
      · exact Bool.eq_false_iff.2 fun haw => hne (valid_of_awHs haw)
    | reading h => exact absurd (valid_of_rValid h.req) hne
    | writing h => exact absurd (valid_of_wValid h.req) hne
    | done h => exact absurd h.valid hne
  · exact ⟨_, (h.done_of_ready hr).step⟩

theorem mem_eq (h : Phase Q b r m) (hr : r.write = false) : b.slave.mem = m := by
  cases h with
  | rest h => exact h.mem
  | reading h => exact h.mem
  | writing h => exact absurd (hr.symm.trans h.write_eq) Bool.false_ne_true
  | done h => exact (h.read hr).2.1

end Phase

end Bus

/-! ## Streams of requests -/

/-- The requests and the slave's inputs, cycle by cycle. -/
abbrev BusInputs := Nat → RwReq × AxiIn

namespace Bus

/-- The state after `k` cycles. -/
def after (b : Bus) (xs : BusInputs) (k : Nat) : Bus := run step b xs k

/-- A request is held until the cycle in which it is answered. -/
def Holds (b : Bus) (xs : BusInputs) : Prop :=
  ∀ k, (xs k).1.valid = true → (b.after xs k).rw.rwReady = false → (xs k).1.Held (xs (k + 1)).1

/-- The slave accepts every read address and returns every beat it owes, after any delay. -/
structure Fair (b : Bus) (xs : BusInputs) : Prop where
  ar : ∀ k, ((b.after xs k).rw.out (xs k).1).arValid = true → ∃ j, k ≤ j ∧ (xs j).2.arReady = true
  r : ∀ k, (b.after xs k).slave.rd ≠ none → ∃ j, k ≤ j ∧ (xs j).2.rValid = true

/-- The slave accepts every write address and its data and answers every write, after any delay. -/
structure FairWrite (b : Bus) (xs : BusInputs) : Prop where
  aw : ∀ k, ((b.after xs k).rw.out (xs k).1).awValid = true → ∃ j, k ≤ j ∧ (xs j).2.awReady = true
  w : ∀ k, ((b.after xs k).rw.out (xs k).1).wValid = true → ∃ j, k ≤ j ∧ (xs j).2.wReady = true
  b : ∀ k w, (b.after xs k).slave.wr = some w → w.dataDone = true →
    ∃ j, k ≤ j ∧ (xs j).2.bValid = true

/-- A request is presented that was not there in the cycle before: that one was answered, or there
was none. -/
def Starts (b : Bus) (xs : BusInputs) (s : Nat) : Prop :=
  (xs s).1.valid = true ∧
    ∀ k, s = k + 1 → (xs k).1.valid = false ∨ (b.after xs k).rw.rwReady = true

variable {Q : RwReq → Prop} {b : Bus} {xs : BusInputs}

theorem after_succ (k : Nat) : b.after xs (k + 1) = (b.after xs k).step ((xs k).1, (xs k).2) := rfl

section

variable (hb : b.AfterReset) (hok : ∀ k, (b.after xs k).Ok (xs k)) (hheld : b.Holds xs)
include hb hok hheld

theorem phase (k : Nat) : ∃ m, Phase (fun _ => True) (b.after xs k) (xs k).1 m := by
  induction k with
  | zero => exact ⟨_, .rest hb.rest⟩
  | succ k ih =>
    obtain ⟨m, hm⟩ := ih
    cases hr : (b.after xs k).rw.rwReady with
    | true =>
      obtain ⟨m', hrest⟩ := hm.step_end (i := (xs k).2) (.inr hr)
      exact ⟨m', .rest hrest⟩
    | false => exact ⟨m, hm.step_wait (hok k) trivial hr fun hv => hheld k hv hr⟩

theorem rest_of_starts {s : Nat} (hs : b.Starts xs s) :
    Rest (b.after xs s) (b.after xs s).slave.mem := by
  cases s with
  | zero => exact hb.rest
  | succ k =>
    obtain ⟨m, hm⟩ := phase hb hok hheld k
    obtain ⟨m', hrest⟩ := hm.step_end (i := (xs k).2) (hs.2 k rfl)
    have heq : (b.after xs (k + 1)).slave.mem = m' := hrest.mem
    rw [heq]
    exact hrest

/-- An answer belongs to a request, and it is a pulse of one cycle. -/
theorem pulse_of_ready {k : Nat} (hr : (b.after xs k).rw.rwReady = true) :
    (xs k).1.valid = true ∧ (b.after xs (k + 1)).rw.rwReady = false := by
  obtain ⟨m, hm⟩ := phase hb hok hheld k
  have hdone := hm.done_of_ready hr
  exact ⟨hdone.valid, hdone.step.ready⟩

/-- From the start of a request to its answer the request is held and the memory before it is the
same. -/
theorem window {s t : Nat} (hs : b.Starts xs s) (hbusy : ∀ k, s ≤ k → k < t →
    (b.after xs k).rw.rwReady = false) (hq : ∀ k, s ≤ k → k < t → Q (xs k).1) {k : Nat}
    (hsk : s ≤ k) : k ≤ t →
    (xs s).1.Held (xs k).1 ∧ Phase Q (b.after xs k) (xs k).1 (b.after xs s).slave.mem := by
  induction k, hsk using Nat.le_induction with
  | base => exact fun _ => ⟨.refl _, .rest (rest_of_starts hb hok hheld hs)⟩
  | succ k hsk ih =>
    intro hkt
    obtain ⟨hr, hph⟩ := ih (Nat.le_of_succ_le hkt)
    have hready := hbusy k hsk hkt
    have hv : (xs k).1.valid = true := hr.valid.trans hs.1
    exact ⟨hr.trans (hheld k hv hready),
      hph.step_wait (hok k) (hq k hsk hkt) hready fun hv => hheld k hv hready⟩

end

/-! ### Progress of a read -/

section

variable (hok : ∀ k, (b.after xs k).Ok (xs k)) (hheld : b.Holds xs) (hfair : b.Fair xs)
include hok hheld hfair

omit hok in
theorem exists_beat {k : Nat} {m : ByteMem 64} {n : BitVec 8}
    (hk : Reading (b.after xs k) (xs k).1 m) (hn : (b.after xs k).rw.len = n) :
    ∃ j, k ≤ j ∧ Reading (b.after xs j) (xs j).1 m ∧ (b.after xs j).rw.len = n ∧
      (b.after xs j).rw.rHs (xs j).1 (xs j).2 = true := by
  have howed : (b.after xs k).slave.rd ≠ none := by
    obtain ⟨d, hd, -⟩ := hk.burst
    simp [hd]
  obtain ⟨j, hkj, ⟨hread, hlen⟩, hv⟩ := exists_of_stays
    (P := fun j => Reading (b.after xs j) (xs j).1 m ∧ (b.after xs j).rw.len = n)
    (Q := fun j => (xs j).2.rValid = true) ⟨hk, hn⟩
    (fun j _ hj hno => by
      obtain ⟨hread, hlen⟩ := hj
      have hr : (b.after xs j).rw.rHs (xs j).1 (xs j).2 = false := by
        simp [AxiRw.rHs, Bool.eq_false_iff.2 hno]
      have hr' := hheld j (valid_of_rValid hread.req) hread.ready
      refine ⟨(hread.step_wait hr).congr hr', ?_⟩
      rw [after_succ, hread.step_len, hr, Bool.and_false]
      exact hlen)
    (hfair.r k howed)
  refine ⟨j, hkj, hread, hlen, ?_⟩
  simp [AxiRw.rHs, AxiRw.out, hread.rState, hv]

/-- A burst comes to its end. -/
theorem exists_ready_of_reading {k : Nat} {m : ByteMem 64}
    (hk : Reading (b.after xs k) (xs k).1 m) :
    ∃ j, k ≤ j ∧ (b.after xs j).rw.rwReady = true := by
  obtain ⟨j, hkj, hread, -, hr⟩ := exists_beat hheld hfair hk rfl
  rcases hread.step_beat (Q := fun _ => True) (hok j) hr with ⟨hread', -, hone⟩ | hdone
  · have hheld' := hheld j (valid_of_rValid hread.req) hread.ready
    obtain ⟨j', hjj', hread₂, hlen, hr₂⟩ :=
      exists_beat hheld hfair (k := j + 1) (hread'.congr hheld') hone
    rcases hread₂.step_beat (Q := fun _ => True) (hok j') hr₂ with ⟨-, hzero, -⟩ | hdone
    · exact absurd (hzero.symm.trans hlen) (by decide)
    · exact ⟨j' + 1, by omega, hdone.ready⟩
  · exact ⟨j + 1, by omega, hdone.ready⟩

/-- A read in its address phase is accepted and answered. -/
theorem exists_ready_of_addr {k : Nat} {m : ByteMem 64}
    (hk : Rest (b.after xs k) m) (haddr : (b.after xs k).rw.rState = .addr)
    (hreq : (xs k).1.rValid = true) : ∃ j, k ≤ j ∧ (b.after xs j).rw.rwReady = true := by
  have hvalid {j : Nat} (ha : (b.after xs j).rw.rState = .addr) (hv : (xs j).1.rValid = true) :
      ((b.after xs j).rw.out (xs j).1).arValid = true := by simp [AxiRw.out, ha, hv]
  obtain ⟨j, hkj, ⟨hrest, ha, hv⟩, hr⟩ := exists_of_stays
    (P := fun j => Rest (b.after xs j) m ∧ (b.after xs j).rw.rState = .addr ∧
      (xs j).1.rValid = true)
    (Q := fun j => (xs j).2.arReady = true) ⟨hk, haddr, hreq⟩
    (fun j _ hj hno => by
      obtain ⟨hrest, ha, hv⟩ := hj
      have har : (b.after xs j).rw.arHs (xs j).1 (xs j).2 = false := by
        simp [AxiRw.arHs, Bool.eq_false_iff.2 hno]
      have hr := hheld j (valid_of_rValid hv) hrest.ready
      refine ⟨hrest.step_rest har (not_awHs_of_rValid hv), ?_, hr.rValid.trans hv⟩
      change (b.after xs j).rw.nextR (xs j).1 (xs j).2 = _
      simp [AxiRw.nextR, hv, ha, har])
    (hfair.ar k (hvalid haddr hreq))
  have har : (b.after xs j).rw.arHs (xs j).1 (xs j).2 = true := by
    simp [AxiRw.arHs, hr, hvalid ha hv]
  have hread := (hrest.step_reading har).congr (hheld j (valid_of_rValid hv) hrest.ready)
  obtain ⟨j', hjj', hready⟩ := exists_ready_of_reading hok hheld hfair (k := j + 1) hread
  exact ⟨j', by omega, hready⟩

theorem exists_ready {s : Nat} {m : ByteMem 64} (hrest : Rest (b.after xs s) m)
    (hreq : (xs s).1.rValid = true) : ∃ j, s ≤ j ∧ (b.after xs j).rw.rwReady = true := by
  cases hst : (b.after xs s).rw.rState with
  | addr => exact exists_ready_of_addr hok hheld hfair hrest hst hreq
  | read => exact absurd hst hrest.rState
  | idle =>
    -- the state machine of a machine after reset needs one more edge
    have har : (b.after xs s).rw.arHs (xs s).1 (xs s).2 = false := by
      simp [AxiRw.arHs, AxiRw.out, hst]
    have hr := hheld s (valid_of_rValid hreq) hrest.ready
    have haddr : (b.after xs (s + 1)).rw.rState = .addr := by
      change (b.after xs s).rw.nextR (xs s).1 (xs s).2 = _
      simp [AxiRw.nextR, hreq, hst]
    obtain ⟨j, hj, hready⟩ := exists_ready_of_addr hok hheld hfair (k := s + 1)
      (hrest.step_rest har (not_awHs_of_rValid hreq)) haddr (hr.rValid.trans hreq)
    exact ⟨j, by omega, hready⟩

end

/-! ### Progress of a write -/

section

variable (hheld : b.Holds xs) (hfair : b.FairWrite xs)
include hheld hfair

theorem exists_ready_of_resp {k : Nat} {m : ByteMem 64}
    (hk : Writing (fun _ => True) (b.after xs k) (xs k).1 m)
    (hresp : (b.after xs k).rw.wState = .resp) :
    ∃ j, k ≤ j ∧ (b.after xs j).rw.rwReady = true := by
  obtain ⟨w, hw, -, ⟨hs, -⟩ | ⟨-, hdone, -⟩⟩ := hk.trans
  · rw [hresp] at hs
    cases hs
  obtain ⟨j, hkj, ⟨hwrite, hs⟩, hv⟩ := exists_of_stays
    (P := fun j => Writing (fun _ => True) (b.after xs j) (xs j).1 m ∧
      (b.after xs j).rw.wState = .resp)
    (Q := fun j => (xs j).2.bValid = true) ⟨hk, hresp⟩
    (fun j _ hj hno => by
      obtain ⟨hwrite, hs⟩ := hj
      have hb : (b.after xs j).rw.bHs (xs j).1 (xs j).2 = false := by
        simp [AxiRw.bHs, Bool.eq_false_iff.2 hno]
      have hr := hheld j (valid_of_wValid hwrite.req) hwrite.ready
      refine ⟨?_, ?_⟩
      · rcases hwrite.step_resp (i := (xs j).2) hs with h | h
        · exact h.congr hr
        · exact absurd (h.ready.symm.trans (hwrite.step_ready.trans hb)) (by decide)
      · change (b.after xs j).rw.nextW (xs j).1 (xs j).2 = _
        simp [AxiRw.nextW, hwrite.req, hs, hb])
    (hfair.b k w hw hdone)
  refine ⟨j + 1, by omega, ?_⟩
  rw [after_succ, hwrite.step_ready]
  simp [AxiRw.bHs, AxiRw.out, hs, hv]

theorem exists_ready_of_writing {k : Nat} {m : ByteMem 64}
    (hk : Writing (fun _ => True) (b.after xs k) (xs k).1 m)
    (hst : (b.after xs k).rw.wState = .write) :
    ∃ j, k ≤ j ∧ (b.after xs j).rw.rwReady = true := by
  have hvalid : ((b.after xs k).rw.out (xs k).1).wValid = true := by simp [AxiRw.out, hst]
  obtain ⟨j, hkj, ⟨hwrite, hs⟩, hv⟩ := exists_of_stays
    (P := fun j => Writing (fun _ => True) (b.after xs j) (xs j).1 m ∧
      (b.after xs j).rw.wState = .write)
    (Q := fun j => (xs j).2.wReady = true) ⟨hk, hst⟩
    (fun j _ hj hno => by
      obtain ⟨hwrite, hs⟩ := hj
      have hr := hheld j (valid_of_wValid hwrite.req) hwrite.ready
      refine ⟨(hwrite.step_data trivial hs).congr hr, ?_⟩
      change (b.after xs j).rw.nextW (xs j).1 (xs j).2 = _
      simp [AxiRw.nextW, hwrite.req, hs, AxiRw.wHs, Bool.eq_false_iff.2 hno])
    (hfair.w k hvalid)
  have hr := hheld j (valid_of_wValid hwrite.req) hwrite.ready
  have hresp : (b.after xs (j + 1)).rw.wState = .resp := by
    change (b.after xs j).rw.nextW (xs j).1 (xs j).2 = _
    simp [AxiRw.nextW, hwrite.req, hs, AxiRw.wHs, AxiRw.out, hv]
  obtain ⟨j', hj', hready⟩ := exists_ready_of_resp hheld hfair (k := j + 1)
    ((hwrite.step_data trivial hs).congr hr) hresp
  exact ⟨j', by omega, hready⟩

theorem exists_ready_of_awaddr {k : Nat} {m : ByteMem 64} (hk : Rest (b.after xs k) m)
    (haddr : (b.after xs k).rw.wState = .addr) (hreq : (xs k).1.wValid = true) :
    ∃ j, k ≤ j ∧ (b.after xs j).rw.rwReady = true := by
  have hvalid {j : Nat} (ha : (b.after xs j).rw.wState = .addr) (hv : (xs j).1.wValid = true) :
      ((b.after xs j).rw.out (xs j).1).awValid = true := by simp [AxiRw.out, ha, hv]
  obtain ⟨j, hkj, ⟨hrest, ha, hv⟩, hr⟩ := exists_of_stays
    (P := fun j => Rest (b.after xs j) m ∧ (b.after xs j).rw.wState = .addr ∧
      (xs j).1.wValid = true)
    (Q := fun j => (xs j).2.awReady = true) ⟨hk, haddr, hreq⟩
    (fun j _ hj hno => by
      obtain ⟨hrest, ha, hv⟩ := hj
      have haw : (b.after xs j).rw.awHs (xs j).1 (xs j).2 = false := by
        simp [AxiRw.awHs, Bool.eq_false_iff.2 hno]
      have hr := hheld j (valid_of_wValid hv) hrest.ready
      refine ⟨hrest.step_rest (not_arHs_of_wValid hv) haw, ?_, hr.wValid.trans hv⟩
      change (b.after xs j).rw.nextW (xs j).1 (xs j).2 = _
      simp [AxiRw.nextW, hv, ha, haw])
    (hfair.aw k (hvalid haddr hreq))
  have haw : (b.after xs j).rw.awHs (xs j).1 (xs j).2 = true := by
    simp [AxiRw.awHs, hr, hvalid ha hv]
  have hwrite := (hrest.step_writing (Q := fun _ => True) haw).congr
    (hheld j (valid_of_wValid hv) hrest.ready)
  have hst : (b.after xs (j + 1)).rw.wState = .write := by
    change (b.after xs j).rw.nextW (xs j).1 (xs j).2 = _
    simp [AxiRw.nextW, hv, ha, haw]
  obtain ⟨j', hjj', hready⟩ := exists_ready_of_writing hheld hfair (k := j + 1) hwrite hst
  exact ⟨j', by omega, hready⟩

theorem exists_ready_of_wValid {s : Nat} {m : ByteMem 64} (hrest : Rest (b.after xs s) m)
    (hreq : (xs s).1.wValid = true) : ∃ j, s ≤ j ∧ (b.after xs j).rw.rwReady = true := by
  rcases hrest.wState with hst | hst
  · have haw : (b.after xs s).rw.awHs (xs s).1 (xs s).2 = false := by
      simp [AxiRw.awHs, AxiRw.out, hst]
    have hr := hheld s (valid_of_wValid hreq) hrest.ready
    have haddr : (b.after xs (s + 1)).rw.wState = .addr := by
      change (b.after xs s).rw.nextW (xs s).1 (xs s).2 = _
      simp [AxiRw.nextW, hreq, hst]
    obtain ⟨j, hj, hready⟩ := exists_ready_of_awaddr hheld hfair (k := s + 1)
      (hrest.step_rest (not_arHs_of_wValid hreq) haw) haddr (hr.wValid.trans hreq)
    exact ⟨j, by omega, hready⟩
  · exact exists_ready_of_awaddr hheld hfair hrest hst hreq

end

/-- What a read request that starts in cycle `s` gets: one answer, in a cycle `t` in which it is
still presented, with its bytes. -/
def Answered (b : Bus) (xs : BusInputs) (s : Nat) : Prop :=
  ∃ t, s ≤ t ∧ (∀ k, s ≤ k → k ≤ t → (xs s).1.Held (xs k).1 ∧
      (b.after xs k).slave.mem = (b.after xs s).slave.mem ∧
      ((b.after xs k).rw.rwReady = true ↔ k = t)) ∧
    (b.after xs (t + 1)).rw.rwReady = false ∧
    (b.after xs t).rw.dataRead = (xs s).1.bytes (b.after xs s).slave.mem

/-- **Read transactions.** Every read request gets one answer with its bytes, and there are no
answers without a request. -/
theorem read_transactions (b : Bus) (xs : BusInputs) (hb : b.AfterReset)
    (hok : ∀ k, (b.after xs k).Ok (xs k)) (hheld : b.Holds xs) (hfair : b.Fair xs) :
    (∀ s, b.Starts xs s → (xs s).1.rValid = true → b.Answered xs s) ∧
      ∀ k, (b.after xs k).rw.rwReady = true → (xs k).1.valid = true := by
  refine ⟨?_, fun k hk => (pulse_of_ready hb hok hheld hk).1⟩
  intro s hs hreq
  obtain ⟨t, hst, hready, hbusy⟩ := exists_first
    (exists_ready hok hheld hfair (rest_of_starts hb hok hheld hs) hreq)
  have hno (k : Nat) (hsk : s ≤ k) (hkt : k < t) : (b.after xs k).rw.rwReady = false :=
    Bool.eq_false_iff.2 (hbusy k hsk hkt)
  have hw {k : Nat} (hr : (xs s).1.Held (xs k).1) : (xs k).1.write = false :=
    hr.write.trans (write_of_rValid hreq)
  refine ⟨t, hst, ?_, (pulse_of_ready hb hok hheld hready).2, ?_⟩
  · intro k hsk hkt
    obtain ⟨hr, hph⟩ := window (Q := fun _ => True) hb hok hheld hs hno
      (fun _ _ _ => trivial) hsk hkt
    refine ⟨hr, hph.mem_eq (hw hr), ?_, fun hk => hk ▸ hready⟩
    intro hk
    by_contra hne
    exact hbusy k hsk (Nat.lt_of_le_of_ne hkt hne) hk
  · obtain ⟨hr, hph⟩ := window (Q := fun _ => True) hb hok hheld hs hno
      (fun _ _ _ => trivial) hst le_rfl
    have hdone := hph.done_of_ready hready
    rw [(hdone.read (hw hr)).2.2, hr.bytes]

/-! ## A slave that never waits -/

end Bus

/-- The inputs of a slave that accepts and answers at once. -/
def Responder.serve (sl : Responder) : AxiIn where
  arReady := true
  rValid := sl.rd.isSome
  rData := (sl.rd.map sl.beat).getD 0#64
  rLast := (sl.rd.map fun b => b.done == b.len).getD false
  rId := (sl.rd.map ReadBurst.id).getD 0#4
  rResp := 0#2
  awReady := true
  wReady := true
  bValid := (sl.wr.map WriteTrans.dataDone).getD false
  bId := (sl.wr.map WriteTrans.id).getD 0#4
  bResp := 0#2

theorem Responder.drives_serve (sl : Responder) : sl.Drives sl.serve := by
  refine ⟨?_, ?_⟩
  · intro hr
    cases hrd : sl.rd with
    | none => simp [serve, hrd] at hr
    | some b => exact ⟨b, rfl, by simp [serve, hrd], by simp [serve, hrd]⟩
  · intro hb
    cases hwr : sl.wr with
    | none => simp [serve, hwr] at hb
    | some w => exact ⟨w, rfl, by simpa [serve, hwr] using hb⟩

namespace Bus

/-- The run of these requests with such a slave. -/
def served (b : Bus) (rs : Nat → RwReq) : Nat → Bus
  | 0 => b
  | n + 1 => (served b rs n).step (rs n, (served b rs n).slave.serve)

/-- The inputs of that run. -/
def serving (b : Bus) (rs : Nat → RwReq) : BusInputs := fun n => (rs n, (served b rs n).slave.serve)

theorem after_serving (b : Bus) (rs : Nat → RwReq) (n : Nat) :
    b.after (b.serving rs) n = b.served rs n := by
  induction n with
  | zero => rfl
  | succ n ih =>
    rw [after_succ, ih]
    rfl

theorem ok_serving (b : Bus) (rs : Nat → RwReq) (k : Nat) :
    (b.after (b.serving rs) k).Ok (b.serving rs k) := by
  rw [after_serving]
  exact Responder.drives_serve _

theorem fair_serving (b : Bus) (rs : Nat → RwReq) : b.Fair (b.serving rs) where
  ar k _ := ⟨k, le_rfl, rfl⟩
  r k hk := by
    rw [after_serving] at hk
    exact ⟨k, le_rfl, Option.isSome_iff_ne_none.2 hk⟩

theorem fairWrite_serving (b : Bus) (rs : Nat → RwReq) : b.FairWrite (b.serving rs) where
  aw k _ := ⟨k, le_rfl, rfl⟩
  w k _ := ⟨k, le_rfl, rfl⟩
  b k w hw hdone := by
    rw [after_serving] at hw
    refine ⟨k, le_rfl, ?_⟩
    simp [serving, Responder.serve, hw, hdone]

/-- Four bytes that cross a word boundary are read. -/
theorem read_transactions_crossing :
    let r : RwReq := ⟨true, false, 0x80000006#64, SIZE_W, false, 0#64, 0#8⟩
    let b : Bus := ⟨AxiRw.zero, fun a => a.extractLsb' 0 8, none, none⟩
    b.Answered (b.serving fun _ => r) 0 ∧ r.bytes b.slave.mem = 0x09080706#64 := by
  intro r b
  refine ⟨(read_transactions b (b.serving fun _ => r) ⟨rfl, rfl, rfl⟩ (ok_serving b _)
    (fun _ _ _ => .refl r) (fair_serving b _)).1 0 ⟨rfl, ?_⟩ rfl, by decide⟩
  intro k hk
  exact absurd hk (Nat.succ_ne_zero k).symm

end Bus

end Oscpu.Axi
