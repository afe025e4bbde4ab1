import Oscpu.Axi.Access
import Oscpu.Axi.Lanes

/-!
# What a read delivers

A response carries an id, but the bytes are cut out of it by the address that the arbiter presents
when the beat arrives, and whoever owns the bus one cycle later takes the result. `Reads` says which
bursts are still wanted, that such a burst is for the address presented, and what the bus master
holds of it between its beats. Only a burst of two beats can go wrong, and `splitRead` says how.
-/

namespace Oscpu.Axi

open Oscpu.Rtl Oscpu.Lib

namespace RwReq

/-- The shape of a request: its bus address, length and lanes come from the address and the size. -/
structure Same (r r' : RwReq) : Prop where
  addr : r.addr = r'.addr
  size : r.size = r'.size

namespace Same

variable {r r' : RwReq}

theorem axiAddr (h : Same r r') : r.axiAddr = r'.axiAddr := by simp only [RwReq.axiAddr, h.addr]

theorem axiLen (h : Same r r') : r.axiLen = r'.axiLen := by
  unfold RwReq.axiLen RwReq.aligned RwReq.overstep RwReq.addrEnd
  rw [h.addr, h.size]

theorem dataL (h : Same r r') : r.dataL = r'.dataL := by
  funext w
  unfold RwReq.dataL RwReq.mask RwReq.offsetL
  rw [h.addr, h.size]

end Same

end RwReq

/-- The request of the fetch unit. -/
def Core.fetchReq (s : Core) : RwReq where
  valid := true
  write := false
  addr := s.ifuPc
  size := SIZE_W
  sigMem := false
  wdata := 0#64
  strb := 0#8

theorem Core.same_fetchReq {s : Core} (h : s.axiSigMem = false) : RwReq.Same s.req s.fetchReq :=
  ⟨by simp [Core.req, h, Core.fetchReq], by simp [Core.req, h, Core.fetchReq]⟩

namespace System

variable (y : System) (i : AxiIn)

/-- A burst of two beats is disturbed: a store owns the bus after its first beat or while that
arrives, or the data handshake of a write counts as its first beat. -/
def splitRead : Bool :=
  y.core.axiSigWrite && (y.slave.rd.map fun b =>
      b.len == 1#8 && (b.done == 1#8 || i.rValid)).getD false ||
    !y.core.axiSigWrite && y.core.req.axiLen == 1#8 && y.core.rw.rState != .idle &&
      y.core.rw.wHs y.core.req i

/-- A read with this id is for the load in MEM, or for a fetch that will be delivered. -/
def Wanted (id : BitVec 4) : Prop :=
  y.core.axiSigWrite = false ∧
    if y.core.axiSigMem then id = 2#4 else y.core.csr.keep = false

end System

/-- What is known of the read burst in progress. -/
structure Reads (y : System) : Prop where
  state : ∀ b, y.slave.rd = some b → y.core.rw.rState = .read
  shape : ∀ b, y.slave.rd = some b →
    (b.len = 0#8 ∧ b.done = 0#8) ∨ b.len = 1#8 ∧ (b.done = 0#8 ∨ b.done = 1#8)
  id : ∀ b, y.slave.rd = some b → b.id = 1#4 ∨ b.id = 2#4
  load : ∀ b, y.slave.rd = some b → b.id = 2#4 → y.core.axiSigMem = true ∧
    y.core.axiSigWrite = false ∧ b.addr = y.core.req.axiAddr ∧ b.len = y.core.req.axiLen
  fetch : ∀ b, y.slave.rd = some b → b.id = 1#4 → y.core.csr.keep = false →
    b.addr = y.core.fetchReq.axiAddr ∧ b.len = y.core.fetchReq.axiLen
  /-- A store that can leave MEM does not leave a read behind that has seen its beat counter. -/
  quiet : y.core.rw.rwReady = true → y.core.axiSigWrite = true →
    (y.slave.rd = none ∧ y.core.rw.rState ≠ .addr) ∨ y.core.rw.wState = .idle
  addr : y.core.rw.rState = .addr → y.core.axiSigWrite = false → y.core.rw.len = 0#8
  first : ∀ b, y.slave.rd = some b → y.Wanted b.id → b.done = 0#8 → y.core.rw.len = 0#8
  second : ∀ b, y.slave.rd = some b → y.Wanted b.id → b.done = 1#8 →
    y.core.rw.len = 1#8 ∧
      y.core.rw.dataRead = y.core.req.dataL (y.slave.mem (Mem.wordIdx y.core.req.addr))
  /-- A fetched word that a store keeps from being delivered. -/
  kept : y.core.rw.rwReady = true → y.core.axiSigWrite = true → y.core.rw.wState = .resp →
    y.slave.rid = 1#4 → y.core.csr.keep = false →
      y.core.rw.dataRead = y.slave.mem.content y.core.ifuPc SIZE_W

/-! ## One edge -/

namespace Occ

variable {y : System} {i : AxiIn}

theorem not_fetch_of_pending (h : Occ y) (hp : y.slave.rd ≠ none ∨ y.core.rw.rState = .addr) :
    y.core.ifReadyAxi i = false := by
  by_contra hf
  obtain ⟨hm, -, hr⟩ := ready_of_fetch (Bool.eq_true_of_not_eq_false hf)
  obtain ⟨hrd, hst⟩ := h.fetched hr (by simp [Core.axiSigWrite, hm])
  exact hp.elim (fun hn => hn hrd) hst

theorem not_leave_of_pending (h : Occ y) (hp : y.slave.rd ≠ none ∨ y.core.rw.rState = .addr)
    (hm : y.core.axiSigMem = true) (hw : y.core.axiSigWrite = false) :
    y.core.exReady i = false := by
  by_contra hl
  obtain ⟨-, -, hr⟩ := ready_of_mem (ready_of_leave hm (Bool.eq_true_of_not_eq_false hl)).1
  obtain ⟨hrd, hst⟩ := h.fetched hr hw
  exact hp.elim (fun hn => hn hrd) hst

theorem same_of_wait (h : Occ y) (hm : y.core.axiSigMem = true) (hw : y.core.exReady i = false) :
    (y.step i).core.axiSigMem = true ∧
      (y.step i).core.axiSigWrite = y.core.axiSigWrite ∧
        RwReq.Same (y.step i).core.req y.core.req := by
  have heq := h.step_exLs_of_wait hm hw
  have hm' : (y.step i).core.axiSigMem = true := by
    rw [← hm]
    simp only [Core.axiSigMem, heq]
  refine ⟨hm', by simp only [Core.axiSigWrite, hm', hm, heq], ?_, ?_⟩
  · simp [Core.req, hm', hm, heq]
  · simp [Core.req, hm', hm, heq]

end Occ

namespace System.Wanted

variable {y : System} {i : AxiIn} {id : BitVec 4}

/-- A pending read that is wanted after an edge was wanted before, for the same request, unless a
store has just left MEM. -/
theorem back (h : Reads y) (ho : Occ y)
    (hp : y.slave.rd ≠ none ∨ y.core.rw.rState = .addr)
    (hid : id = 2#4 → y.core.axiSigMem = true ∧ y.core.axiSigWrite = false)
    (hw : (y.step i).Wanted id) :
    (y.core.axiSigWrite = true ∧ y.core.rw.wState = .idle) ∨
      y.Wanted id ∧ RwReq.Same (y.step i).core.req y.core.req := by
  obtain ⟨hw', hwant⟩ := hw
  cases hm' : (y.step i).core.axiSigMem with
  | true =>
    simp only [hm', if_true] at hwant
    obtain ⟨hm, hwr⟩ := hid hwant
    obtain ⟨-, -, hsame⟩ := ho.same_of_wait hm (ho.not_leave_of_pending (i := i) hp hm hwr)
    exact .inr ⟨⟨hwr, by simp [hm, hwant]⟩, hsame⟩
  | false =>
    simp only [hm', Bool.false_eq_true, if_false] at hwant
    cases hm : y.core.axiSigMem with
    | true =>
      have hl : y.core.exReady i = true := by
        by_contra hl
        rw [(ho.same_of_wait hm (Bool.eq_false_iff.2 hl)).1] at hm'
        exact Bool.false_ne_true hm'.symm
      cases hwr : y.core.axiSigWrite with
      | false =>
        rw [ho.not_leave_of_pending hp hm hwr] at hl
        exact absurd hl Bool.false_ne_true
      | true =>
        obtain ⟨-, -, hr⟩ := Occ.ready_of_mem (Occ.ready_of_leave hm hl).1
        rcases h.quiet hr hwr with ⟨hrd, hst⟩ | hidle
        · exact absurd hp (by simp [hrd, hst])
        · exact .inl ⟨rfl, hidle⟩
    | false =>
      have hf := ho.not_fetch_of_pending (i := i) hp
      obtain ⟨hk, hfl⟩ := Occ.keep_of_step hwant hf
      have hpc := Occ.step_ifuPc_of_quiet hf hfl
      refine .inr ⟨⟨by simp [Core.axiSigWrite, hm], by simp [hm, hk]⟩, ?_, ?_⟩
      · simp [Core.req, hm', hm, hpc]
      · simp [Core.req, hm', hm]

end System.Wanted

namespace Reads

variable {y : System} {i : AxiIn} {b b' : ReadBurst}

theorem rd_cases (hb : (y.step i).slave.rd = some b') :
    (y.core.rw.rState = .addr ∧ y.core.req.rValid = true ∧ y.core.rw.arHs y.core.req i = true ∧
      b' = ⟨y.core.req.axiAddr, if y.core.axiSigMem then 2#4 else 1#4, y.core.req.axiLen, 0#8⟩) ∨
    (y.slave.rd = some b' ∧ y.core.rw.rHs y.core.req i = false) ∨
    ∃ b, y.slave.rd = some b ∧ y.core.rw.rHs y.core.req i = true ∧ i.rLast = false ∧
      b' = { b with done := b.done + 1#8 } := by
  have hstep : (y.step i).slave.rd = (y.slave.step y.core.out i).rd := rfl
  cases har : y.core.rw.arHs y.core.req i with
  | true =>
    have hst := har
    simp only [AxiRw.arHs, AxiRw.out, Bool.and_eq_true, beq_iff_eq] at hst
    have hacc : (i.arReady && y.core.out.arValid) = true := har
    rw [hstep, Slave.step, hacc, if_pos rfl, Option.some.injEq] at hb
    refine .inl ⟨hst.2.1, hst.2.2, rfl, hb.symm⟩
  | false =>
    have hacc : (i.arReady && y.core.out.arValid) = false := har
    rw [hstep, Slave.step, hacc] at hb
    simp only [Bool.false_eq_true, if_false] at hb
    cases hr : (i.rValid && y.core.out.rReady) with
    | false =>
      simp only [hr, Bool.false_eq_true, if_false] at hb
      have hhs : y.core.rw.rHs y.core.req i = false := by
        rw [AxiRw.rHs, Bool.and_comm]
        exact hr
      exact .inr (.inl ⟨hb, hhs⟩)
    | true =>
      have hhs : y.core.rw.rHs y.core.req i = true := by
        rw [AxiRw.rHs, Bool.and_comm]
        exact hr
      simp only [hr, if_true] at hb
      cases hl : i.rLast with
      | true => simp [hl] at hb
      | false =>
        simp only [hl, Bool.false_eq_true, if_false, Option.map_eq_some_iff] at hb
        obtain ⟨b, hbrd, rfl⟩ := hb
        exact .inr (.inr ⟨b, hbrd, hhs, rfl, rfl⟩)

theorem beat (hi : y.Ok i) (hb : y.slave.rd = some b) (hr : y.core.rw.rHs y.core.req i = true) :
    i.rValid = true ∧ i.rData = y.slave.beat b ∧ i.rLast = (b.done == b.len) ∧ i.rId = b.id := by
  have hv : i.rValid = true := by
    simp only [AxiRw.rHs, Bool.and_eq_true] at hr
    exact hr.2
  obtain ⟨b0, hb0, hdata, hlast, hid⟩ := hi.r hv
  rw [hb, Option.some.injEq] at hb0
  subst hb0
  exact ⟨hv, hdata, hlast, hid⟩

theorem first_of_two (h : Reads y) (hi : y.Ok i) (hb : y.slave.rd = some b)
    (hr : y.core.rw.rHs y.core.req i = true) (hl : i.rLast = false) :
    b.len = 1#8 ∧ b.done = 0#8 := by
  obtain ⟨-, -, hlast, -⟩ := beat hi hb hr
  rw [hl] at hlast
  rcases h.shape b hb with ⟨hlen, hdone⟩ | ⟨hlen, hdone | hdone⟩
  · rw [hlen, hdone] at hlast
    exact absurd hlast (by decide)
  · exact ⟨hlen, hdone⟩
  · rw [hlen, hdone] at hlast
    exact absurd hlast (by decide)

theorem of_wanted (h : Reads y) (hb : y.slave.rd = some b) (hw : y.Wanted b.id) :
    b.addr = y.core.req.axiAddr ∧ b.len = y.core.req.axiLen := by
  obtain ⟨-, hwant⟩ := hw
  cases hm : y.core.axiSigMem with
  | true =>
    simp only [hm, if_true] at hwant
    exact (h.load b hb hwant).2.2
  | false =>
    simp only [hm, Bool.false_eq_true, if_false] at hwant
    rcases h.id b hb with hid | hid
    · have hsame := Core.same_fetchReq hm
      rw [hsame.axiAddr, hsame.axiLen]
      exact h.fetch b hb hid hwant
    · rw [(h.load b hb hid).1] at hm
      exact absurd hm.symm Bool.false_ne_true

/-! ### The beat counter and the memory during a read -/

section

variable (hw : y.core.axiSigWrite = false) (hst : y.core.rw.rState ≠ .idle)
  (hs : y.splitRead i = false)
include hw hst hs

theorem not_wHs_of_two (hl : y.core.req.axiLen = 1#8) : y.core.rw.wHs y.core.req i = false := by
  simpa [System.splitRead, hw, hl, hst] using hs

theorem step_mem_of_two (hl : y.core.req.axiLen = 1#8) : (y.step i).slave.mem = y.slave.mem := by
  have hwh : (i.wReady && y.core.out.wValid) = false := not_wHs_of_two hw hst hs hl
  change (y.slave.step y.core.out i).mem = _
  cases hwr : y.slave.wr <;> simp [Slave.step, hwr, hwh]

theorem step_len_of_zero (hr : y.core.rw.rHs y.core.req i = false) (hlen : y.core.rw.len = 0#8) :
    (y.step i).core.rw.len = 0#8 := by
  change y.core.rw.nextLen y.core.req i = _
  have hwrite : y.core.req.write = false := hw
  have hidle : (y.core.rw.rState == .idle) = false := by simpa using hst
  simp only [AxiRw.nextLen, hwrite, hidle, hr, hlen, Bool.false_and, Bool.not_false,
    Bool.true_and, Bool.or_false, Bool.false_eq_true, if_false]
  have haxi := y.core.req.axiLen_eq
  by_cases hbig : 8 < byteOffset y.core.req.addr + sizeBytes y.core.req.size
  · rw [if_pos hbig] at haxi
    simp [not_wHs_of_two hw hst hs haxi]
  · rw [if_neg hbig] at haxi
    simp [haxi]

end

/-- A store that leaves MEM behind a pending read resets the beat counter. -/
theorem step_len_of_store (hw : y.core.axiSigWrite = true) (hidle : y.core.rw.wState = .idle) :
    (y.step i).core.rw.len = 0#8 := by
  change y.core.rw.nextLen y.core.req i = _
  have hwrite : y.core.req.write = true := hw
  simp [AxiRw.nextLen, hwrite, hidle]

/-! ### Preservation -/

theorem step_state (h : Reads y) (hb : (y.step i).slave.rd = some b') :
    (y.step i).core.rw.rState = .read := by
  change y.core.rw.nextR y.core.req i = .read
  rcases rd_cases hb with ⟨hst, hv, har, -⟩ | ⟨hrd, hr⟩ | ⟨b, hrd, hr, hl, -⟩
  · simp [AxiRw.nextR, hst, hv, har]
  · simp [AxiRw.nextR, h.state b' hrd, AxiRw.rDone, hr]
  · simp [AxiRw.nextR, h.state b hrd, AxiRw.rDone, hl]

theorem step_shape (h : Reads y) (hi : y.Ok i) (hb : (y.step i).slave.rd = some b') :
    (b'.len = 0#8 ∧ b'.done = 0#8) ∨ b'.len = 1#8 ∧ (b'.done = 0#8 ∨ b'.done = 1#8) := by
  rcases rd_cases hb with ⟨-, -, -, rfl⟩ | ⟨hrd, -⟩ | ⟨b, hrd, hr, hl, rfl⟩
  · have haxi := y.core.req.axiLen_eq
    split_ifs at haxi with hbig
    · exact .inr ⟨haxi, .inl rfl⟩
    · exact .inl ⟨haxi, rfl⟩
  · exact h.shape b' hrd
  · obtain ⟨hlen, hdone⟩ := h.first_of_two hi hrd hr hl
    exact .inr ⟨hlen, .inr (by rw [hdone]; rfl)⟩

theorem step_id (h : Reads y) (hb : (y.step i).slave.rd = some b') :
    b'.id = 1#4 ∨ b'.id = 2#4 := by
  rcases rd_cases hb with ⟨-, -, -, rfl⟩ | ⟨hrd, -⟩ | ⟨b, hrd, -, -, rfl⟩
  · cases y.core.axiSigMem <;> simp
  · exact h.id b' hrd
  · exact h.id b hrd

theorem pending (h : Reads y) (hb : (y.step i).slave.rd = some b') :
    (y.slave.rd ≠ none ∨ y.core.rw.rState = .addr) ∧
      (b'.id = 2#4 → y.core.axiSigMem = true ∧ y.core.axiSigWrite = false) := by
  rcases rd_cases hb with ⟨hst, hv, -, rfl⟩ | ⟨hrd, -⟩ | ⟨b, hrd, -, -, rfl⟩
  · refine ⟨.inr hst, ?_⟩
    intro hid
    rw [Core.req_rValid] at hv
    cases hm : y.core.axiSigMem with
    | true => simpa [hm] using hv
    | false => simp [hm] at hid
  · exact ⟨.inl (by simp [hrd]), fun hid => ⟨(h.load b' hrd hid).1, (h.load b' hrd hid).2.1⟩⟩
  · exact ⟨.inl (by simp [hrd]), fun hid => ⟨(h.load b hrd hid).1, (h.load b hrd hid).2.1⟩⟩

theorem step_load (h : Reads y) (ho : Occ y) (hb : (y.step i).slave.rd = some b')
    (hid : b'.id = 2#4) : (y.step i).core.axiSigMem = true ∧
      (y.step i).core.axiSigWrite = false ∧ b'.addr = (y.step i).core.req.axiAddr ∧
        b'.len = (y.step i).core.req.axiLen := by
  obtain ⟨hp, hload⟩ := h.pending hb
  obtain ⟨hm, hw⟩ := hload hid
  obtain ⟨hm', hw', hsame⟩ := ho.same_of_wait hm (ho.not_leave_of_pending (i := i) hp hm hw)
  refine ⟨hm', hw'.trans hw, ?_⟩
  rw [hsame.axiAddr, hsame.axiLen]
  rcases rd_cases hb with ⟨-, -, -, rfl⟩ | ⟨hrd, -⟩ | ⟨b, hrd, -, -, rfl⟩
  · exact ⟨rfl, rfl⟩
  · exact (h.load b' hrd hid).2.2
  · exact (h.load b hrd hid).2.2

theorem step_fetch (h : Reads y) (ho : Occ y) (hb : (y.step i).slave.rd = some b')
    (hid : b'.id = 1#4) (hk : (y.step i).core.csr.keep = false) :
    b'.addr = (y.step i).core.fetchReq.axiAddr ∧ b'.len = (y.step i).core.fetchReq.axiLen := by
  obtain ⟨hp, -⟩ := h.pending hb
  have hf := ho.not_fetch_of_pending (i := i) hp
  obtain ⟨hk, hfl⟩ := Occ.keep_of_step hk hf
  have hsame : RwReq.Same (y.step i).core.fetchReq y.core.fetchReq :=
    ⟨Occ.step_ifuPc_of_quiet hf hfl, rfl⟩
  rw [hsame.axiAddr, hsame.axiLen]
  rcases rd_cases hb with ⟨-, hv, -, rfl⟩ | ⟨hrd, -⟩ | ⟨b, hrd, -, -, rfl⟩
  · have hm : y.core.axiSigMem = false := by
      by_contra hm
      simp [hm] at hid
    exact ⟨(Core.same_fetchReq hm).axiAddr, (Core.same_fetchReq hm).axiLen⟩
  · exact h.fetch b' hrd hid hk
  · exact h.fetch b hrd hid hk

theorem step_quiet (hr : (y.step i).core.rw.rwReady = true) :
    ((y.step i).slave.rd = none ∧ (y.step i).core.rw.rState ≠ .addr) ∨
      (y.step i).core.rw.wState = .idle := by
  have hd : y.core.rw.transDone y.core.req i = true := hr
  cases hw : y.core.axiSigWrite with
  | false => exact .inl (Occ.quiet_of_rDone ((AxiRw.transDone_of_read hw).symm.trans hd))
  | true =>
    have hb : y.core.rw.bHs y.core.req i = true := (AxiRw.transDone_of_write hw).symm.trans hd
    exact .inr (AxiRw.nextW_of_bHs ((Core.req_wValid _).trans hw) hb)

theorem step_addr (h : Reads y) (ho : Occ y) (hs : y.splitRead i = false)
    (hst' : (y.step i).core.rw.rState = .addr) (hw' : (y.step i).core.axiSigWrite = false) :
    (y.step i).core.rw.len = 0#8 := by
  have hnext : y.core.rw.nextR y.core.req i = .addr := hst'
  cases hst : y.core.rw.rState with
  | idle =>
    have hv : y.core.req.rValid = true := by
      by_contra hv
      simp [AxiRw.nextR, hv, hst] at hnext
    have hwrite : y.core.req.write = false := by
      simp only [RwReq.rValid, Bool.and_eq_true, Bool.not_eq_true'] at hv
      exact hv.2
    change y.core.rw.nextLen y.core.req i = _
    simp [AxiRw.nextLen, hwrite, hst]
  | addr =>
    have hr : y.core.rw.rHs y.core.req i = false := by simp [AxiRw.rHs, AxiRw.out, hst]
    cases hw : y.core.axiSigWrite with
    | false => exact step_len_of_zero hw (by simp [hst]) hs hr (h.addr hst hw)
    | true =>
      cases hl : y.core.exReady i with
      | false =>
        obtain ⟨-, hsame, -⟩ := ho.same_of_wait (Core.axiSigMem_of_write hw) hl
        rw [hsame, hw] at hw'
        exact absurd hw'.symm Bool.false_ne_true
      | true =>
        obtain ⟨-, -, hready⟩ :=
          Occ.ready_of_mem (Occ.ready_of_leave (Core.axiSigMem_of_write hw) hl).1
        rcases h.quiet hready hw with ⟨-, hne⟩ | hidle
        · exact absurd hst hne
        · exact step_len_of_store hw hidle
  | read =>
    cases hv : y.core.req.rValid <;> cases hd : y.core.rw.rDone y.core.req i <;>
      simp [AxiRw.nextR, hst, hv, hd] at hnext

theorem step_first (h : Reads y) (ho : Occ y) (hi : y.Ok i) (hs : y.splitRead i = false)
    (hb : (y.step i).slave.rd = some b') (hw : (y.step i).Wanted b'.id) (hd : b'.done = 0#8) :
    (y.step i).core.rw.len = 0#8 := by
  obtain ⟨hp, hload⟩ := h.pending hb
  rcases System.Wanted.back h ho hp hload hw with ⟨hwr, hidle⟩ | ⟨hwant, -⟩
  · exact step_len_of_store hwr hidle
  · rcases rd_cases hb with ⟨hst, -, -, -⟩ | ⟨hrd, hr⟩ | ⟨b, hrd, hr, hl, rfl⟩
    · exact step_len_of_zero hwant.1 (by simp [hst]) hs (by simp [AxiRw.rHs, AxiRw.out, hst])
        (h.addr hst hwant.1)
    · exact step_len_of_zero hwant.1 (by simp [h.state b' hrd]) hs hr (h.first b' hrd hwant hd)
    · rw [(h.first_of_two hi hrd hr hl).2] at hd
      change 0#8 + 1#8 = 0#8 at hd
      exact absurd hd (by decide)

theorem nextData_of_first (h : Reads y) (hi : y.Ok i) (hb : y.slave.rd = some b)
    (hw : y.Wanted b.id) (hr : y.core.rw.rHs y.core.req i = true) (hd : b.done = 0#8) :
    y.core.rw.nextData y.core.req i =
      y.core.req.dataL (y.slave.mem (Mem.wordIdx y.core.req.addr)) := by
  obtain ⟨-, hdata, -, -⟩ := beat hi hb hr
  have hlen := h.first b hb hw hd
  have hword : i.rData = y.slave.mem (Mem.wordIdx y.core.req.addr) := by
    rw [hdata, Slave.beat, (h.of_wanted hb hw).1, hd, RwReq.wordIdx_axiAddr]
    simp
  have hbit : (0#8).getLsbD 0 = false := by decide
  rw [AxiRw.nextData, if_pos hr, hlen, hbit, hword]
  simp

theorem nextData_of_last (h : Reads y) (hi : y.Ok i) (hb : y.slave.rd = some b)
    (hw : y.Wanted b.id) (hr : y.core.rw.rHs y.core.req i = true) (hl : i.rLast = true) :
    y.core.rw.nextData y.core.req i = y.slave.mem.content y.core.req.addr y.core.req.size := by
  obtain ⟨-, hdata, hlast, -⟩ := beat hi hb hr
  obtain ⟨haddr, hblen⟩ := h.of_wanted hb hw
  rw [hl] at hlast
  have hdone : b.done = b.len := by simpa using hlast.symm
  rcases h.shape b hb with ⟨hlen, hd⟩ | ⟨hlen, -⟩
  · rw [h.nextData_of_first hi hb hw hr hd]
    exact y.core.req.dataL_eq_content _ (hblen.symm.trans hlen)
  · obtain ⟨hcount, hfirst⟩ := h.second b hb hw (hdone.trans hlen)
    have hword : i.rData = y.slave.mem (Mem.wordIdx y.core.req.addr + 1#64) := by
      rw [hdata, Slave.beat, haddr, hdone, hlen, RwReq.wordIdx_axiAddr]
      rfl
    have htwo : (!y.core.req.aligned && y.core.req.overstep) = true := by
      have haxi := y.core.req.axiLen_eq_ite
      rw [← hblen, hlen] at haxi
      by_contra hn
      rw [if_neg hn] at haxi
      exact absurd haxi (by decide)
    have hbit : (1#8).getLsbD 0 = true := by decide
    rw [AxiRw.nextData, if_pos hr, if_pos htwo, hcount, if_pos hbit, hfirst, hword]
    apply y.core.req.dataL_or_dataH_eq_content
    rw [← hblen, hlen]
    decide

theorem step_second (h : Reads y) (ho : Occ y) (hi : y.Ok i) (hs : y.splitRead i = false)
    (hb : (y.step i).slave.rd = some b') (hw : (y.step i).Wanted b'.id) (hd : b'.done = 1#8) :
    (y.step i).core.rw.len = 1#8 ∧ (y.step i).core.rw.dataRead = (y.step i).core.req.dataL
      ((y.step i).slave.mem (Mem.wordIdx (y.step i).core.req.addr)) := by
  obtain ⟨hp, hload⟩ := h.pending hb
  rcases System.Wanted.back h ho hp hload hw with ⟨hwr, -⟩ | ⟨hwant, hsame⟩
  · -- a store has left MEM: it was there when the first beat arrived, or later
    rcases rd_cases hb with ⟨-, hv, -, -⟩ | ⟨hrd, -⟩ | ⟨b, hrd, hr, hl, -⟩
    · simp [Core.req_rValid, hwr] at hv
    · rcases h.shape b' hrd with ⟨-, hd0⟩ | ⟨hlen, -⟩
      · rw [hd0] at hd
        exact absurd hd (by decide)
      · simp [System.splitRead, hwr, hrd, hlen, hd] at hs
    · obtain ⟨hv, -, -, -⟩ := beat hi hrd hr
      simp [System.splitRead, hwr, hrd, (h.first_of_two hi hrd hr hl).1, hv] at hs
  · rw [hsame.dataL, hsame.addr]
    rcases rd_cases hb with ⟨-, -, -, rfl⟩ | ⟨hrd, hr⟩ | ⟨b, hrd, hr, hl, rfl⟩
    · change 0#8 = 1#8 at hd
      exact absurd hd (by decide)
    · obtain ⟨hcount, hfirst⟩ := h.second b' hrd hwant hd
      have hst : y.core.rw.rState ≠ .idle := by simp [h.state b' hrd]
      have hlen : b'.len = 1#8 := by
        rcases h.shape b' hrd with ⟨-, hd0⟩ | ⟨hlen, -⟩
        · rw [hd0] at hd
          exact absurd hd (by decide)
        · exact hlen
      have haxi := (h.of_wanted hrd hwant).2.symm.trans hlen
      rw [step_mem_of_two hwant.1 hst hs haxi, ← hfirst]
      refine ⟨?_, ?_⟩
      · change y.core.rw.nextLen y.core.req i = _
        have hwrite : y.core.req.write = false := hwant.1
        have hidle : (y.core.rw.rState == .idle) = false := by simpa using hst
        simp [AxiRw.nextLen, hwrite, hidle, hcount, haxi]
      · change y.core.rw.nextData y.core.req i = _
        simp [AxiRw.nextData, hr]
    · obtain ⟨hlen, hd0⟩ := h.first_of_two hi hrd hr hl
      have hst : y.core.rw.rState ≠ .idle := by simp [h.state b hrd]
      have haxi := (h.of_wanted hrd hwant).2.symm.trans hlen
      rw [step_mem_of_two hwant.1 hst hs haxi]
      refine ⟨?_, h.nextData_of_first hi hrd hwant hr hd0⟩
      change y.core.rw.nextLen y.core.req i = _
      have hwrite : y.core.req.write = false := hwant.1
      have hidle : (y.core.rw.rState == .idle) = false := by simpa using hst
      simp [AxiRw.nextLen, hwrite, hidle, h.first b hrd hwant hd0, haxi, hr]

/-- The last beat of a read that nobody in MEM waits for. -/
theorem fetched_of_rDone (h : Reads y) (ho : Occ y) (hi : y.Ok i)
    (hd : y.core.rw.rDone y.core.req i = true) (hm : y.core.axiSigMem = false)
    (hk : (y.step i).core.csr.keep = false) :
    (y.step i).core.rw.dataRead = y.slave.mem.content (y.step i).core.ifuPc SIZE_W ∧
      (y.step i).slave.rid = 1#4 := by
  simp only [AxiRw.rDone, Bool.and_eq_true] at hd
  obtain ⟨hr, hl⟩ := hd
  have hv : i.rValid = true := by
    simp only [AxiRw.rHs, Bool.and_eq_true] at hr
    exact hr.2
  obtain ⟨b, hb, -⟩ := hi.r hv
  have hf := ho.not_fetch_of_pending (i := i) (.inl (by simp [hb]))
  obtain ⟨hk, hfl⟩ := Occ.keep_of_step hk hf
  have hid : b.id = 1#4 := by
    rcases h.id b hb with hid | hid
    · exact hid
    · rw [(h.load b hb hid).1] at hm
      exact absurd hm.symm Bool.false_ne_true
  have hwant : y.Wanted b.id := ⟨by simp [Core.axiSigWrite, hm], by simp [hm, hk]⟩
  have hsame := Core.same_fetchReq hm
  refine ⟨?_, (beat hi hb hr).2.2.2.trans hid⟩
  rw [Occ.step_ifuPc_of_quiet hf hfl]
  change y.core.rw.nextData y.core.req i = _
  rw [h.nextData_of_last hi hb hwant hr hl, hsame.addr, hsame.size]
  rfl

theorem step_kept (h : Reads y) (ho : Occ y) (hi : y.Ok i)
    (hr : (y.step i).core.rw.rwReady = true) (hw' : (y.step i).core.axiSigWrite = true)
    (hst' : (y.step i).core.rw.wState = .resp) (hk : (y.step i).core.csr.keep = false) :
    (y.step i).core.rw.dataRead = (y.step i).slave.mem.content (y.step i).core.ifuPc SIZE_W := by
  have hd : y.core.rw.transDone y.core.req i = true := hr
  cases hw : y.core.axiSigWrite with
  | true =>
    have hb : y.core.rw.bHs y.core.req i = true := (AxiRw.transDone_of_write hw).symm.trans hd
    have hidle : (y.step i).core.rw.wState = .idle :=
      AxiRw.nextW_of_bHs ((Core.req_wValid _).trans hw) hb
    rw [hidle] at hst'
    cases hst'
  | false =>
    have hdone := (AxiRw.transDone_of_read hw).symm.trans hd
    -- the store has come out of EX
    have hm : y.core.axiSigMem = false := by
      by_contra hm
      have hm := Bool.eq_true_of_not_eq_false hm
      have he := ho.not_ex_of_mem (Occ.valid_of_sigMem hm)
      obtain ⟨-, hl⟩ := Occ.sigMem_of_step he (Core.axiSigMem_of_write hw')
      rw [(ho.same_of_wait hm hl).2.1, hw] at hw'
      exact Bool.false_ne_true hw'
    have hst : y.core.rw.wState = .resp := by
      have hv : y.core.req.wValid = false := (Core.req_wValid _).trans hw
      have hnext : y.core.rw.nextW y.core.req i = .resp := hst'
      simpa [AxiRw.nextW, hv] using hnext
    have hmem : (y.step i).slave.mem = y.slave.mem := by
      have hwv : y.core.out.wValid = false := by simp [Core.out, AxiRw.out, hst]
      change (y.slave.step y.core.out i).mem = _
      cases hwr : y.slave.wr <;> simp [Slave.step, hwr, hwv]
    rw [hmem]
    exact (h.fetched_of_rDone ho hi hdone hm hk).1

theorem step (h : Reads y) (ho : Occ y) (hi : y.Ok i) (hs : y.splitRead i = false) :
    Reads (y.step i) where
  state _ := step_state h
  shape _ := h.step_shape hi
  id _ := h.step_id
  load _ := h.step_load ho
  fetch _ := h.step_fetch ho
  quiet hr _ := step_quiet hr
  addr := h.step_addr ho hs
  first _ := h.step_first ho hi hs
  second _ := h.step_second ho hi hs
  kept hr hw hst _ hk := h.step_kept ho hi hr hw hst hk

theorem afterReset (h : y.AfterReset) : Reads y := by
  refine ⟨?_, ?_, ?_, ?_, ?_, ?_, ?_, ?_, ?_, ?_⟩ <;> simp [h.rd, h.core.rw, AxiRw.zero]

/-! ### What is delivered -/

/-- A load that is answered: its own read has just ended. -/
theorem load_delivered (h : Reads y) (ho : Occ y) (hi : y.Ok i) {j : AxiIn}
    (hj : (y.step i).Ok j) (hw' : (y.step i).core.axiSigWrite = false)
    (hr : (y.step i).core.memReadyAxi j = true) :
    (y.step i).core.memDataRead j =
      y.slave.mem.content (y.step i).core.exLs.data.exres (memSize (y.step i).core.exLs.data.func3) := by
  obtain ⟨hm', hid, hready⟩ := Occ.ready_of_mem hr
  have hd : y.core.rw.transDone y.core.req i = true := hready
  have hrid : (y.step i).slave.rid = 2#4 := by
    have hrd := ((ho.step hi).fetched hready hw').1
    rw [← hj.rHold (Slave.not_rValid hj hrd)]
    simpa [Core.retId, hw'] using hid
  have hin (hex : y.core.idEx.valid = false) :
      y.core.axiSigMem = true ∧ y.core.exReady i = false := Occ.sigMem_of_step hex hm'
  cases hw : y.core.axiSigWrite with
  | true =>
    have hm := Core.axiSigMem_of_write hw
    obtain ⟨-, hl⟩ := hin (ho.not_ex_of_mem (Occ.valid_of_sigMem hm))
    rw [(ho.same_of_wait hm hl).2.1, hw] at hw'
    exact absurd hw'.symm Bool.false_ne_true
  | false =>
    have hdone := (AxiRw.transDone_of_read hw).symm.trans hd
    simp only [AxiRw.rDone, Bool.and_eq_true] at hdone
    obtain ⟨hhs, hl⟩ := hdone
    have hv : i.rValid = true := by
      simp only [AxiRw.rHs, Bool.and_eq_true] at hhs
      exact hhs.2
    obtain ⟨b, hb, -⟩ := hi.r hv
    have hbid : b.id = 2#4 := (beat hi hb hhs).2.2.2.symm.trans hrid
    obtain ⟨hm, -, -, -⟩ := h.load b hb hbid
    have hwant : y.Wanted b.id := ⟨hw, by simp [hm, hbid]⟩
    obtain ⟨-, -, hsame⟩ := ho.same_of_wait hm
      (ho.not_leave_of_pending (i := i) (.inl (by simp [hb])) hm hw)
    have hdata : (y.step i).core.rw.dataRead = y.core.rw.nextData y.core.req i := rfl
    have haddr : (y.step i).core.req.addr = (y.step i).core.exLs.data.exres := by
      simp [Core.req, hm']
    have hsize : (y.step i).core.req.size = memSize (y.step i).core.exLs.data.func3 := by
      simp [Core.req, hm']
    rw [Core.memDataRead, hm', hid, hdata, h.nextData_of_last hi hb hwant hhs hl, ← hsame.addr,
      ← hsame.size, haddr, hsize]
    rfl

theorem fetch_delivered (h : Reads y) (ho : Occ y) (hi : y.Ok i) {j : AxiIn}
    (hj : (y.step i).Ok j) (hk : (y.step i).core.csr.keep = false)
    (hf : (y.step i).core.ifReadyAxi j = true) :
    (y.step i).core.ifuIns j =
      (y.slave.mem.content (y.step i).core.ifuPc SIZE_W).extractLsb' 0 32 := by
  obtain ⟨hm', hid, hready⟩ := Occ.ready_of_fetch hf
  have hd : y.core.rw.transDone y.core.req i = true := hready
  have hw' : (y.step i).core.axiSigWrite = false := by simp [Core.axiSigWrite, hm']
  have hdata : (y.step i).core.rw.dataRead = y.slave.mem.content (y.step i).core.ifuPc SIZE_W := by
    cases hw : y.core.axiSigWrite with
    | false =>
      have hdone := (AxiRw.transDone_of_read hw).symm.trans hd
      cases hm : y.core.axiSigMem with
      | false => exact (h.fetched_of_rDone ho hi hdone hm hk).1
      | true =>
        -- a load does not leave MEM in the cycle of a last beat
        simp only [AxiRw.rDone, AxiRw.rHs, Bool.and_eq_true] at hdone
        obtain ⟨b, hb, -⟩ := hi.r hdone.1.2
        have hl := ho.not_leave_of_pending (i := i) (.inl (by simp [hb])) hm hw
        rw [(ho.same_of_wait hm hl).1] at hm'
        exact absurd hm'.symm Bool.false_ne_true
    | true =>
      -- a store that an earlier read has let out of MEM
      have hm := Core.axiSigMem_of_write hw
      have hb : y.core.rw.bHs y.core.req i = true := (AxiRw.transDone_of_write hw).symm.trans hd
      have hst := (AxiRw.wState_of_bHs hb).1
      have hl : y.core.exReady i = true := by
        by_contra hl
        rw [(ho.same_of_wait hm (Bool.eq_false_iff.2 hl)).1] at hm'
        exact absurd hm'.symm Bool.false_ne_true
      have hr := (Occ.ready_of_mem (Occ.ready_of_leave hm hl).1).2.2
      obtain ⟨hrd, -⟩ := ho.answered hr hst
      have hnv := Slave.not_rValid hi hrd
      have hf := Occ.not_fetch_of_sigMem (i := i) hm
      obtain ⟨hk, hfl⟩ := Occ.keep_of_step hk hf
      have hrid : y.slave.rid = 1#4 := by
        have hrd' := ((ho.step hi).fetched hready hw').1
        rw [← hi.rHold hnv]
        change (y.step i).slave.rid = 1#4
        rw [← hj.rHold (Slave.not_rValid hj hrd')]
        simpa [Core.retId, hw'] using hid
      have hsame : (y.step i).core.rw.dataRead = y.core.rw.dataRead := by
        change y.core.rw.nextData y.core.req i = _
        simp [AxiRw.nextData, AxiRw.rHs, hnv]
      rw [hsame, Occ.step_ifuPc_of_quiet hf hfl]
      exact h.kept hr hw hst hrid hk
  rw [Core.ifuIns, hk, Core.ifDataRead, hm', hid, hdata]
  rfl

end Reads

/-- **Every read delivers the bytes at its own address**, in every run in which no read of two beats
is disturbed: to a load in MEM that sees its answer, and to a fetch that completes and is not
discarded. The memory is that of the cycle of the last beat. -/
theorem read_delivered {y : System} {is : Nat → AxiIn} {n : Nat} (h₀ : y.AfterReset)
    (hok : Admits System.step System.Ok y is (n + 2))
    (hcond : Admits System.step (fun y i => y.splitRead i = false) y is n) :
    let c := run System.step y is n
    let z := run System.step y is (n + 1)
    let i := is (n + 1)
    (z.core.axiSigWrite = false → z.core.memReadyAxi i = true →
      z.core.memDataRead i = c.slave.mem.content z.core.exLs.data.exres
        (memSize z.core.exLs.data.func3)) ∧
    (z.core.csr.keep = false → z.core.ifReadyAxi i = true →
      z.core.ifuIns i = (c.slave.mem.content z.core.ifuPc SIZE_W).extractLsb' 0 32) := by
  intro c z i
  obtain ⟨ho, h⟩ := System.run_invariant h₀ (Reads.afterReset h₀)
    (fun _ _ ho hi hs h => h.step ho hi hs) (hok.mono (by omega)) hcond
  have hi : c.Ok (is n) := hok n (by omega)
  have hj : z.Ok i := hok (n + 1) (by omega)
  exact ⟨h.load_delivered ho hi hj, h.fetch_delivered ho hi hj⟩

/-- The load of `loadProgram` gets the word at its address. -/
theorem read_delivered_slowReads :
    let is := System.inputs loadProgram slowReads
    let c := run System.step loadProgram is 39
    let z := run System.step loadProgram is 40
    z.core.axiSigMem = true ∧ z.core.memReadyAxi (is 40) = true ∧
    (z.core.axiSigWrite = false → z.core.memReadyAxi (is 40) = true →
      z.core.memDataRead (is 40) = c.slave.mem.content z.core.exLs.data.exres
        (memSize z.core.exLs.data.func3)) ∧
    (z.core.csr.keep = false → z.core.ifReadyAxi (is 40) = true →
      z.core.ifuIns (is 40) = (c.slave.mem.content z.core.ifuPc SIZE_W).extractLsb' 0 32) :=
  ⟨by decide +kernel, by decide +kernel, read_delivered loadProgram_afterReset
    (System.admits_inputs _ _ _) (by unfold Admits; decide +kernel)⟩

/-- `jalr x0, 0(x1)` to 0x8000000a, `sd x0, 0x100(x0)` there, and `addi x5, x0, 1` behind it, which
lies in two bus words. -/
def splitProgram : System :=
  System.boot true (fun _ => 0x8000000a#64) 0#4 0#4
    (Mem.image [0x1300008067#64, 0x293100030230000#64, 0x1300000010#64])

/-- A slave that answers slowly until cycle 32, gives the first beat of the next burst at once and
the second after the store. -/
def storeBetween : Nat → Slave.Timing := fun k =>
  ⟨true, decide (k < 32) && k % 8 == 7 || k == 34 || decide (42 ≤ k), true, true, true⟩

/-- `sd x0, 0x100(x0)` twice and `ld x5, 4(x0)`, with two words of ones at the load's address. -/
def strayProgram : System :=
  System.boot true (fun _ => 0#64) 0#4 0#4 fun k =>
    if k = 0#64 then 0x1111111122222222#64 else if k = 1#64 then 0x3333333344444444#64
    else Mem.image [0x1000302310003023#64, 0x1300403283#64, 0x1300000013#64] k

/-- A slave that answers the fetch behind the second store at once, so that this store leaves MEM
with only its address sent, and takes its data while the load waits for its address. -/
def lateData : Nat → Slave.Timing := fun k =>
  ⟨true, k % 8 == 7 && k != 23 || decide (33 ≤ k) && decide (k < 40) && k != 35, true,
    decide (k < 33) || k == 49, true⟩

/-- The store resets the beat counter, and the second word of a fetch is taken for the first; the
data handshake of an abandoned store counts as the first beat of a load. -/
theorem read_delivered_fails :
    let c := System.driven splitProgram storeBetween 42
    let z := System.driven splitProgram storeBetween 43
    let i := z.slave.drive (storeBetween 43)
    let c' := System.driven strayProgram lateData 63
    let z' := System.driven strayProgram lateData 64
    let i' := z'.slave.drive (lateData 64)
    (z.Reachable ∧ z.Ok i ∧ z.core.csr.keep = false ∧ z.core.ifReadyAxi i = true ∧
      z.core.ifuPc = 0x8000000e#64 ∧
      (c.slave.mem.content z.core.ifuPc SIZE_W).extractLsb' 0 32 = 0x100293#32 ∧
      z.core.ifuIns i = 0#32) ∧
    z'.Reachable ∧ z'.Ok i' ∧ z'.core.axiSigWrite = false ∧ z'.core.memReadyAxi i' = true ∧
      z'.core.exLs.data.exres = 4#64 ∧ c'.slave.mem.content 4#64 SIZE_D = 0x4444444411111111#64 ∧
      z'.core.memDataRead i' = 0x6666666600000013#64 :=
  ⟨⟨System.reachable_driven (System.afterReset_boot _ _ _ _ _) _ _, Slave.drives_drive _ _,
    by decide +kernel, by decide +kernel, by decide +kernel, by decide +kernel, by decide +kernel⟩,
    System.reachable_driven (System.afterReset_boot _ _ _ _ _) _ _, Slave.drives_drive _ _,
    by decide +kernel, by decide +kernel, by decide +kernel, by decide +kernel, by decide +kernel⟩

end Oscpu.Axi
