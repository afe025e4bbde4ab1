import Oscpu.Axi.Bookkeeping

/-!
# Stability of the request channels

A `valid` that waits for its `ready` should stay, with its payload. All three request channels of
`cpu_axi_diff` are combinational: the read address follows the arbiter, the write address the
store in MEM, the write data the last store. `calm` lists what disturbs them in one cycle, and a
run keeps every handshake stable exactly when all its cycles are calm.
-/

namespace Oscpu.Axi

open Oscpu.Rtl Oscpu.Lib

/-- The read address channel still offers the same request. -/
structure SameAr (o o' : AxiOut) : Prop where
  valid : o'.arValid = true
  addr : o'.arAddr = o.arAddr
  id : o'.arId = o.arId
  len : o'.arLen = o.arLen
  size : o'.arSize = o.arSize

/-- The write address channel still offers the same request. -/
structure SameAw (o o' : AxiOut) : Prop where
  valid : o'.awValid = true
  addr : o'.awAddr = o.awAddr
  id : o'.awId = o.awId
  len : o'.awLen = o.awLen
  size : o'.awSize = o.awSize

/-- The write data channel still offers the same data. -/
structure SameW (o o' : AxiOut) : Prop where
  valid : o'.wValid = true
  data : o'.wData = o.wData
  strb : o'.wStrb = o.wStrb
  last : o'.wLast = o.wLast

namespace System

variable (y : System) (i : AxiIn)

def arWait : Bool := y.core.out.arValid && !i.arReady

def awWait : Bool := y.core.out.awValid && !i.awReady

def wWait : Bool := y.core.out.wValid && !i.wReady

/-- Every channel that waits in this cycle is unchanged in the next. -/
def Stable : Prop :=
  (y.arWait i = true → SameAr y.core.out (y.step i).core.out) ∧
    (y.awWait i = true → SameAw y.core.out (y.step i).core.out) ∧
      (y.wWait i = true → SameW y.core.out (y.step i).core.out)

/-- A load that overwrites its own base: decoded against the word that stays in IF/ID, it stalls. -/
def selfLoad (ins : Ins) : Bool := oLsuLden ins && oRdwen ins && oRdid ins == oRs1id ins

/-- The fetch on the bus loses it: a flush moves its address to 0, a load or store enters MEM, or a
load stalls in EX. -/
def fetchDisturbed : Bool :=
  !y.core.axiSigMem &&
    if y.core.flush i then y.core.req.axiAddr != 0#64 || y.core.req.axiLen != 0#8
    else y.core.idEx.valid && (y.core.idEx.data.lden || y.core.idEx.data.sten) ||
      y.core.ifId.valid && selfLoad y.core.ifId.data.ins

/-- The store in MEM is accepted. -/
def storeLeaves : Bool := y.core.memReadyAxi i && y.core.memReady i

/-- Another store with other data enters MEM. -/
def storeReplaced : Bool :=
  let e := y.core.idEx.data
  !y.core.flush i && y.core.idEx.valid && e.sten &&
    (storeData e.func3 y.core.exuExres (y.core.exuRs2 i) != y.core.memWdata ||
      storeMask e.func3 y.core.exuExres != y.core.memWmask)

/-- No channel is disturbed while it waits. -/
def calm : Bool :=
  !(y.arWait i && y.fetchDisturbed i) && !(y.awWait i && y.storeLeaves i) &&
    !(y.wWait i && y.storeReplaced i)

end System

namespace Occ

variable {y : System} {i : AxiIn}

theorem exReady_of_sigMem (hm : y.core.axiSigMem = true) :
    y.core.exReady i = (y.core.memReadyAxi i && y.core.memReady i) := by
  have hacc : (y.core.exLs.data.lden || y.core.exLs.data.sten) = true := by
    simpa [Core.axiSigMem, valid_of_sigMem hm] using hm
  simp [Core.exReady, Stage.ready, valid_of_sigMem hm, Core.memExReady, Core.memValid, hacc, hm]

theorem not_sigMem_of_flush (hfl : y.core.flush i = true) :
    (y.step i).core.axiSigMem = false := by
  simp [Core.axiSigMem, step_exLs_of_flush hfl, ExLs.zero]

theorem sigMem_of_ex (h : Occ y) (he : y.core.idEx.valid = true) (hfl : y.core.flush i = false) :
    (y.step i).core.axiSigMem = (y.core.idEx.data.lden || y.core.idEx.data.sten) := by
  rw [Core.axiSigMem, h.step_mem_of_ex he, h.step_exLs_of_ex he]
  simp [Core.toExLs, hfl]

theorem step_pcStall (h : Occ y) (hf : y.core.ifReadyAxi i = false)
    (hfl : y.core.flush i = false) :
    (y.step i).core.pcStall = (y.core.ifId.valid && System.selfLoad y.core.ifId.data.ins) := by
  cases hv : y.core.ifId.valid with
  | false =>
    have he : (y.step i).core.idEx.valid = false := by rw [h.step_ex, hv]
    simp [not_pcStall he]
  | true =>
    have hb := not_pcStall (h.id hv).1
    unfold Core.pcStall Core.iduLdstbp
    rw [h.step_ex, hv, h.step_idEx_of_id hv, step_ifId_of_quiet hf hfl]
    simp only [Core.toIdEx, hfl, hb, Bool.false_eq_true, if_false, System.selfLoad]
    generalize y.core.ifId.data.ins = ins
    cases hl : oLsuLden ins with
    | false => simp
    | true =>
      have hop : opcode ins = TYPE_I_LOAD := by simpa [oLsuLden] using hl
      have hst : oLsuSten ins = false := by simp [oLsuSten, hop, TYPE_I_LOAD, TYPE_S]
      have hrs2 : oRs2id ins = 0#5 := by
        simp [oRs2id, hop, TYPE_I_LOAD, TYPE_R, TYPE_R_W, TYPE_S, TYPE_B]
      cases hw : oRdwen ins with
      | false => simp
      | true => simp [hst, hrs2, oRdwen_ne_zero hw]

/-! ## The read address channel -/

/-- A waiting read address: the machine stands still and nothing has been answered. -/
theorem of_arWait (h : Occ y) (hw : y.arWait i = true) :
    y.core.rw.rState = .addr ∧ (y.step i).core.rw.rState = .addr ∧ y.core.axiSigWrite = false ∧
      y.core.rw.rwReady = false ∧ (y.core.axiSigMem = false → y.core.pcStall = false) := by
  simp only [System.arWait, Core.out, AxiRw.out, Bool.and_eq_true, beq_iff_eq,
    Bool.not_eq_true'] at hw
  obtain ⟨⟨hst, hv⟩, har⟩ := hw
  have hst' : (y.step i).core.rw.rState = .addr := by
    change y.core.rw.nextR y.core.req i = .addr
    simp [AxiRw.nextR, hst, hv, AxiRw.arHs, har]
  rw [Core.req_rValid] at hv
  have hwr : y.core.axiSigWrite = false := by
    cases hs : y.core.axiSigWrite with
    | false => rfl
    | true => simp [hs] at hv
  refine ⟨hst, hst', hwr, ?_, ?_⟩
  · by_contra hr
    exact (h.fetched (Bool.eq_true_of_not_eq_false hr) hwr).2 hst
  · intro hm
    simpa [hwr, hm] using hv

theorem sameAr_of_load (h : Occ y) (hw : y.arWait i = true) (hm : y.core.axiSigMem = true) :
    SameAr y.core.out (y.step i).core.out := by
  obtain ⟨-, hst', hwr, hnr, -⟩ := h.of_arWait hw
  have hl : y.core.exReady i = false := by
    rw [exReady_of_sigMem hm]
    simp [Core.memReadyAxi, hnr]
  have heq := h.step_exLs_of_wait hm hl
  have hm' : (y.step i).core.axiSigMem = true := by
    rw [← hm]
    simp only [Core.axiSigMem, heq]
  have hw' : (y.step i).core.axiSigWrite = false := by
    rw [← hwr]
    simp only [Core.axiSigWrite, Core.axiSigMem, heq]
  have haddr : (y.step i).core.req.axiAddr = y.core.req.axiAddr ∧
      (y.step i).core.req.axiLen = y.core.req.axiLen := by
    simp [RwReq.axiAddr, RwReq.axiLen, RwReq.aligned, RwReq.overstep, RwReq.addrEnd, Core.req, hm,
      hm', heq]
  refine ⟨?_, haddr.1, ?_, haddr.2, rfl⟩
  · simp [Core.out, AxiRw.out, hst', Core.req_rValid, hw', hm']
  · simp [Core.out, AxiRw.out, Core.req, hm, hm']

/-- A waiting fetch keeps its request exactly if the next cycle presents a fetch of that address. -/
theorem sameAr_of_fetch (h : Occ y) (hw : y.arWait i = true) (hm : y.core.axiSigMem = false) :
    SameAr y.core.out (y.step i).core.out ↔
      (y.step i).core.axiSigMem = false ∧ (y.step i).core.pcStall = false ∧
        (y.step i).core.req.axiAddr = y.core.req.axiAddr ∧
          (y.step i).core.req.axiLen = y.core.req.axiLen := by
  obtain ⟨-, hst', -, -, -⟩ := h.of_arWait hw
  have hid (c : Core) : c.out.arId = if c.axiSigMem then 2#4 else 1#4 := rfl
  have hvalid : (y.step i).core.out.arValid = (y.step i).core.req.rValid := by
    simp [Core.out, AxiRw.out, hst']
  constructor
  · intro hs
    have hm' : (y.step i).core.axiSigMem = false := by
      by_contra hm'
      have := hs.id
      rw [hid, hid, hm, Bool.eq_true_of_not_eq_false hm'] at this
      exact absurd this (by decide)
    have hv := hvalid.symm.trans hs.valid
    rw [Core.req_rValid, hm'] at hv
    refine ⟨hm', ?_, hs.addr, hs.len⟩
    simp only [Bool.and_eq_true, Bool.false_or, Bool.not_eq_true'] at hv
    exact hv.2
  · rintro ⟨hm', hp, ha, hl⟩
    refine ⟨?_, ha, ?_, hl, rfl⟩
    · rw [hvalid, Core.req_rValid]
      simp [Core.axiSigWrite, hm', hp]
    · rw [hid, hid, hm, hm']

theorem sameAr_iff (h : Occ y) (hw : y.arWait i = true) :
    SameAr y.core.out (y.step i).core.out ↔ y.fetchDisturbed i = false := by
  cases hm : y.core.axiSigMem with
  | true => simp [System.fetchDisturbed, hm, h.sameAr_of_load hw hm]
  | false =>
    obtain ⟨-, -, -, hnr, hp⟩ := h.of_arWait hw
    have hf : y.core.ifReadyAxi i = false := by simp [Core.ifReadyAxi, hnr]
    have haddr (c : Core) (hc : c.axiSigMem = false) : c.req.addr = c.ifuPc ∧ c.req.size = SIZE_W := by
      simp [Core.req, hc]
    rw [h.sameAr_of_fetch hw hm]
    cases hfl : y.core.flush i with
    | true =>
      have hm' := not_sigMem_of_flush hfl
      have hp' : (y.step i).core.pcStall = false := by
        simp [Core.pcStall, step_idEx_of_flush hfl, IdEx.zero]
      have hz : (y.step i).core.req.axiAddr = 0#64 ∧ (y.step i).core.req.axiLen = 0#8 := by
        simp [RwReq.axiAddr, RwReq.axiLen, RwReq.aligned, haddr _ hm', step_ifuPc_of_flush hfl]
      have hd : y.fetchDisturbed i =
          (y.core.req.axiAddr != 0#64 || y.core.req.axiLen != 0#8) := by
        simp [System.fetchDisturbed, hm, hfl]
      rw [hd, Bool.or_eq_false_iff, bne_eq_false_iff_eq, bne_eq_false_iff_eq, hz.1, hz.2]
      exact ⟨fun hs => ⟨hs.2.2.1.symm, hs.2.2.2.symm⟩, fun hs => ⟨hm', hp', hs.1.symm, hs.2.symm⟩⟩
    | false =>
      have hsame (hm' : (y.step i).core.axiSigMem = false) :
          (y.step i).core.req.axiAddr = y.core.req.axiAddr ∧
            (y.step i).core.req.axiLen = y.core.req.axiLen := by
        simp [RwReq.axiAddr, RwReq.axiLen, RwReq.aligned, RwReq.overstep, RwReq.addrEnd,
          haddr _ hm', haddr _ hm, step_ifuPc_of_quiet hf hfl]
      have hmem : (y.step i).core.axiSigMem =
          (y.core.idEx.valid && (y.core.idEx.data.lden || y.core.idEx.data.sten)) := by
        cases he : y.core.idEx.valid with
        | true => rw [h.sigMem_of_ex he hfl]; rfl
        | false =>
          by_contra hm'
          have := (sigMem_of_step he (by simpa using hm')).1
          rw [hm] at this
          exact Bool.false_ne_true this
      simp only [System.fetchDisturbed, hm, hfl, h.step_pcStall hf hfl, hmem]
      constructor
      · rintro ⟨h1, h2, -⟩
        simp [h1, h2]
      · intro hd
        simp only [Bool.not_false, Bool.true_and, Bool.false_eq_true, if_false,
          Bool.or_eq_false_iff] at hd
        exact ⟨hd.1, hd.2, hsame (hmem.trans hd.1)⟩

/-! ## The write channels -/

theorem sameAw_iff (h : Occ y) (hw : y.awWait i = true) :
    SameAw y.core.out (y.step i).core.out ↔ y.storeLeaves i = false := by
  simp only [System.awWait, Core.out, AxiRw.out, Bool.and_eq_true, beq_iff_eq,
    Bool.not_eq_true'] at hw
  obtain ⟨⟨hst, hv⟩, haw⟩ := hw
  have hst' : (y.step i).core.rw.wState = .addr := by
    change y.core.rw.nextW y.core.req i = .addr
    simp [AxiRw.nextW, hst, hv, AxiRw.awHs, haw]
  rw [Core.req_wValid] at hv
  have hm := Core.axiSigMem_of_write hv
  rw [System.storeLeaves, ← exReady_of_sigMem hm]
  cases hl : y.core.exReady i with
  | true =>
    have hm' : (y.step i).core.axiSigMem = false := by
      simp [Core.axiSigMem, step_mem_of_not_ex (h.not_ex_of_mem (valid_of_sigMem hm)), hl]
    refine ⟨?_, fun hne => absurd hne (by simp)⟩
    intro hs
    have hvalid := hs.valid
    simp [Core.out, AxiRw.out, Core.req_wValid, Core.axiSigWrite, hm'] at hvalid
  | false =>
    have heq := h.step_exLs_of_wait hm hl
    have hm' : (y.step i).core.axiSigMem = true := by
      rw [← hm]
      simp only [Core.axiSigMem, heq]
    have hw' : (y.step i).core.axiSigWrite = true := by
      rw [← hv]
      simp only [Core.axiSigWrite, Core.axiSigMem, heq]
    refine iff_of_true ⟨?_, ?_, ?_, ?_, rfl⟩ rfl
    · simp [Core.out, AxiRw.out, hst', Core.req_wValid, hw']
    · simp [Core.out, AxiRw.out, Core.req, hm, hm', heq]
    · simp [Core.out, AxiRw.out, Core.req, hm, hm']
    · simp [Core.out, AxiRw.out, RwReq.axiLen, RwReq.aligned, RwReq.overstep, RwReq.addrEnd,
        Core.req, hm, hm', heq]

/-- The write data after an edge: those of the store that enters MEM, else they are held. -/
theorem step_memWdata (h : Occ y) :
    ((y.step i).core.memWdata, (y.step i).core.memWmask) =
      if !y.core.flush i && y.core.idEx.valid && y.core.idEx.data.sten then
        (storeData y.core.idEx.data.func3 y.core.exuExres (y.core.exuRs2 i),
          storeMask y.core.idEx.data.func3 y.core.exuExres)
      else (y.core.memWdata, y.core.memWmask) := by
  have hq : (y.step i).core.wdataQ = y.core.memWdata ∧ (y.step i).core.wmaskQ = y.core.memWmask :=
    ⟨rfl, rfl⟩
  cases hfl : y.core.flush i with
  | true =>
    simp [Core.memWdata, Core.memWmask, step_exLs_of_flush hfl, ExLs.zero, hq]
  | false =>
    cases he : y.core.idEx.valid with
    | true =>
      cases hs : y.core.idEx.data.sten <;>
        simp [Core.memWdata, Core.memWmask, h.step_exLs_of_ex he, Core.toExLs, hfl, hs, hq]
    | false =>
      have hdata : (y.step i).core.exLs.data = y.core.exLs.data := by
        rw [step_exLs_of_stay he, hfl]
        rfl
      cases hs : y.core.exLs.data.sten <;>
        simp [Core.memWdata, Core.memWmask, hdata, hs, hq]

theorem sameW_iff (h : Occ y) (hw : y.wWait i = true) :
    SameW y.core.out (y.step i).core.out ↔ y.storeReplaced i = false := by
  simp only [System.wWait, Core.out, AxiRw.out, Bool.and_eq_true, beq_iff_eq,
    Bool.not_eq_true'] at hw
  obtain ⟨hst, hwr⟩ := hw
  have hst' : (y.step i).core.rw.wState = .write := by
    change y.core.rw.nextW y.core.req i = .write
    cases hv : y.core.req.wValid <;> simp [AxiRw.nextW, hst, hv, AxiRw.wHs, hwr]
  have hdata := h.step_memWdata (i := i)
  have hsame : SameW y.core.out (y.step i).core.out ↔
      (y.step i).core.memWdata = y.core.memWdata ∧ (y.step i).core.memWmask = y.core.memWmask :=
    ⟨fun hs => ⟨hs.data, hs.strb⟩,
      fun hs => ⟨by simp [Core.out, AxiRw.out, hst'], hs.1, hs.2, rfl⟩⟩
  rw [hsame, System.storeReplaced]
  cases hc : (!y.core.flush i && y.core.idEx.valid && y.core.idEx.data.sten) with
  | false =>
    rw [hc, if_neg Bool.false_ne_true, Prod.mk.injEq] at hdata
    simp [hdata]
  | true =>
    rw [hc, if_pos rfl, Prod.mk.injEq] at hdata
    simp [hdata]

theorem stable_iff (h : Occ y) : y.Stable i ↔ y.calm i = true := by
  have hch (b c : Bool) (p : Prop) (hp : b = true → (p ↔ c = false)) :
      (b = true → p) ↔ (!(b && c)) = true := by
    cases b <;> cases c <;> simp_all
  unfold System.Stable System.calm
  rw [hch _ _ _ h.sameAr_iff, hch _ _ _ h.sameAw_iff, hch _ _ _ h.sameW_iff, Bool.and_eq_true,
    Bool.and_eq_true, and_assoc]

end Occ

/-- **All request handshakes of a run are stable exactly if all its cycles are calm.** -/
theorem handshakes_stable_iff {y : System} {is : Nat → AxiIn} {n : Nat} (h₀ : y.AfterReset)
    (hok : Admits System.step System.Ok y is n) :
    Admits System.step System.Stable y is n ↔
      Admits System.step (fun y i => y.calm i = true) y is n := by
  have hocc (k : Nat) (hk : k < n) : Occ (run System.step y is k) :=
    Lib.run_invariant (fun _ _ => Occ.step) (Occ.afterReset h₀) hok k hk.le
  exact forall₂_congr fun k hk => (hocc k hk).stable_iff

/-- A slave that takes a request in one cycle of three and answers a read in one of eight. -/
def slowSlave : Nat → Slave.Timing :=
  fun k => ⟨k % 3 == 2, k % 8 == 7, k % 3 == 2, k % 3 == 2, true⟩

/-- A fetch, the address of the store and its data wait, and are stable. -/
theorem handshakes_stable_slowSlave :
    let c := System.driven storeProgram slowSlave
    let i := System.inputs storeProgram slowSlave
    (c 10).arWait (i 10) = true ∧ (c 28).awWait (i 28) = true ∧ (c 30).wWait (i 30) = true ∧
      (c 31).wWait (i 31) = true ∧ Admits System.step System.Stable storeProgram i 40 :=
  ⟨by decide +kernel, by decide +kernel, by decide +kernel, by decide +kernel,
    (handshakes_stable_iff storeProgram_afterReset (System.admits_inputs _ _ _)).2
      (by unfold Admits; decide +kernel)⟩

/-- A slave that accepts no further read address when the store is on its way. -/
def lateAddress : Nat → Slave.Timing := fun k => ⟨k < 10, true, true, true, true⟩

/-- The store enters MEM while the next fetch waits for `ar_ready`, and `ar_valid` falls. -/
theorem handshakes_stable_fails :
    let y := System.driven storeProgram lateAddress 11
    let i := y.slave.drive (lateAddress 11)
    y.Reachable ∧ y.Ok i ∧ y.core.out.arValid = true ∧ i.arReady = false ∧
      (y.step i).core.out.arValid = false :=
  ⟨System.reachable_driven storeProgram_afterReset _ _, Slave.drives_drive _ _,
    by decide +kernel, by decide +kernel, by decide +kernel⟩

end Oscpu.Axi
