import Oscpu.Axi.Younger

/-!
# The program counter of the machine

`Ahead` and `Discards` say which pc comes next, and `Course` that it is the one of the machine: the
pc of the instruction in ID or EX, or the one behind the instruction in MEM. When `keep` is low after
reset the first instruction may be fetched twice, which `Begins` and `Again` describe.
-/

namespace Oscpu.Axi

open Oscpu.Rtl Oscpu.Lib

/-! ## The first instruction without `keep` -/

/-- The first instruction, which does not jump, is in ID or EX and is being fetched again. -/
structure Again (y : System) (pc : Word) : Prop where
  keep : y.core.csr.keep = false
  ifuPc : y.core.ifuPc = pc
  bru : y.core.bru.pc = if y.core.ifId.valid then pc else pc + 4#64
  jump : y.core.jumpNow = false
  delay : y.core.bru.delay = false
  busy : (y.core.ifId.valid || y.core.idEx.valid) = true

namespace Again

variable {y : System} {i : AxiIn} {pc : Word}

theorem not_empty (h : Again y pc) : (y.core.ifId.valid || y.core.idEx.valid) ≠ false := by
  rw [h.busy]
  simp

theorem step_id (h : Again y pc) (ho : Occ y) (hbh : Behind y)
    (hid : y.core.ifId.valid = true) (hfl : y.core.flush i = false) : Again (y.step i) pc := by
  obtain ⟨hex, -, hr, -⟩ := ho.id hid
  have hf : y.core.ifReadyAxi i = false := by simp [Core.ifReadyAxi, hr]
  have hvid : (y.step i).core.ifId.valid = false := by rw [ho.step_id, hf]
  have hvex : (y.step i).core.idEx.valid = true := by rw [ho.step_ex, hid]
  have hwen : y.core.pcWen i = true := by
    simp [Core.pcWen, Core.brHs, hid, ho.idReady i, Occ.not_pcStall hex, h.keep]
  have hbru := h.bru
  rw [hid, if_pos rfl] at hbru
  refine ⟨by rw [Occ.step_keep hfl, h.keep]; rfl, (Occ.step_ifuPc_of_quiet hf hfl).trans h.ifuPc,
    ?_, (hbh.step_jumpNow hf hfl).trans h.jump, ?_, by rw [hvid, hvex]; rfl⟩
  · rw [hvid, Occ.step_bruPc hfl, hwen, if_pos rfl, Core.nextPc, hbh.jump_eq i, h.jump, hbru]
    rfl
  · rw [Occ.step_delay, hbh.jump_eq i, h.jump]
    rfl

theorem step_ex (h : Again y pc) (ho : Occ y) (hbh : Behind y)
    (hex : y.core.idEx.valid = true) (hfl : y.core.flush i = false) : Ahead (y.step i) true pc := by
  have hr := (ho.ex hex).2
  have hid := ho.not_id_of_ex hex
  have hf : y.core.ifReadyAxi i = false := by simp [Core.ifReadyAxi, hr]
  have hvid : (y.step i).core.ifId.valid = false := by rw [ho.step_id, hf]
  have hvex : (y.step i).core.idEx.valid = false := by rw [ho.step_ex, hid]
  have hempty : ((y.step i).core.ifId.valid || (y.step i).core.idEx.valid) = false := by
    simp [hvid, hvex]
  have hwen : y.core.pcWen i = false := by
    simp [Core.pcWen, Core.brHs, hid, hbh.jump_eq i, h.jump, h.delay]
  have hbru := h.bru
  rw [hid, if_neg Bool.false_ne_true] at hbru
  refine ⟨by rw [Occ.step_keep hfl, h.keep]; rfl, fun hr => absurd hr (by simp), ?_, ?_, ?_, ?_⟩
  · intro hv
    rw [hempty] at hv
    exact absurd hv Bool.false_ne_true
  · intro _
    rw [Ahead.pcBehind_of_empty hempty, hvid, Occ.step_ifuPc_of_quiet hf hfl, h.ifuPc,
      Occ.step_bruPc hfl, hwen, if_neg Bool.false_ne_true, hbru]
    exact ⟨rfl, rfl⟩
  · intro hj
    rw [hbh.step_jumpNow hf hfl, h.jump] at hj
    exact absurd hj Bool.false_ne_true
  · intro hd
    rw [Occ.step_delay, hbh.jump_eq i, h.jump] at hd
    exact absurd hd Bool.false_ne_true

end Again

/-- Nothing has been fetched yet, and `keep` is low. -/
structure Begins (y : System) (pc : Word) : Prop where
  keep : y.core.csr.keep = false
  ifuPc : y.core.ifuPc = pc
  bru : y.core.bru.pc = pc
  ins : y.core.ifId.data.ins = 0#32
  delay : y.core.bru.delay = false
  free : y.core.busy = false

namespace Begins

variable {y : System} {i : AxiIn} {pc : Word}

theorem jump (h : Begins y pc) (hbh : Behind y) (i : AxiIn) : y.core.jump i = false := by
  rw [hbh.jump_eq i, Core.jumpNow_of_zero h.ins]

theorem step_bruPc (h : Begins y pc) (hbh : Behind y) (hfl : y.core.flush i = false) :
    (y.step i).core.bru.pc = pc := by
  have hid : y.core.ifId.valid = false := by
    have hfree := h.free
    simp only [Core.busy, Bool.or_eq_false_iff] at hfree
    exact hfree.1.1
  have hwen : y.core.pcWen i = false := by
    simp [Core.pcWen, Core.brHs, hid, h.jump hbh i, h.delay]
  rw [Occ.step_bruPc hfl, hwen]
  exact h.bru

theorem step_quiet (h : Begins y pc) (ho : Occ y) (hbh : Behind y)
    (hf : y.core.ifReadyAxi i = false) (hfl : y.core.flush i = false) : Begins (y.step i) pc := by
  have hfree := h.free
  simp only [Core.busy, Bool.or_eq_false_iff] at hfree
  obtain ⟨⟨hid, hex⟩, hmem⟩ := hfree
  have hvmem : (y.step i).core.exLs.valid = false := by
    rw [Occ.step_mem_of_not_ex hex]
    simp [Core.exReady, Stage.ready, hmem]
  refine ⟨by rw [Occ.step_keep hfl, h.keep]; rfl, (Occ.step_ifuPc_of_quiet hf hfl).trans h.ifuPc,
    h.step_bruPc hbh hfl, ?_, ?_, ?_⟩
  · rw [Occ.step_ifId_of_quiet hf hfl]
    exact h.ins
  · rw [Occ.step_delay, h.jump hbh i]
    rfl
  · simp [Core.busy, ho.step_id, hf, ho.step_ex, hid, hvmem]

/-- The first word arrives. It is fetched again unless it jumps. -/
theorem step_fetch (h : Begins y pc) (ho : Occ y) (hbh : Behind y)
    (hf : y.core.ifReadyAxi i = true) (hfl : y.core.flush i = false) :
    y.delivers i = true ∧
      if (y.step i).core.jumpNow then Ahead (y.step i) true pc else Again (y.step i) pc := by
  have hj := h.jump hbh i
  have hk : (y.step i).core.csr.keep = false := by
    rw [Occ.step_keep hfl, h.keep]
    rfl
  have hvid : (y.step i).core.ifId.valid = true := by rw [ho.step_id, hf]
  have hbru := h.step_bruPc (i := i) hbh hfl
  have hifu : (y.step i).core.ifuPc = pc := (ho.step_ifuPc_of_fetch hf hfl).trans h.bru
  have hdelay : (y.step i).core.bru.delay = false := by
    rw [Occ.step_delay, hj]
    rfl
  refine ⟨by simp [System.delivers, hf, h.keep, hj], ?_⟩
  cases hj' : (y.step i).core.jumpNow with
  | true =>
    refine ⟨hk, fun hr => absurd hr (by simp), ?_, ?_, ?_, ?_⟩
    · intro _ _
      rw [ho.step_ifId_of_delivery hf hfl]
      exact h.ifuPc
    · intro hn
      rw [hj'] at hn
      exact absurd hn (by simp)
    · intro _ hv
      rw [hvid] at hv
      exact absurd hv (by simp)
    · intro hd
      rw [hdelay] at hd
      exact absurd hd Bool.false_ne_true
  | false => exact ⟨hk, hifu, by rw [hvid, if_pos rfl, hbru], hj', hdelay, by rw [hvid]; rfl⟩

end Begins

theorem Occ.leaves_of_fetch {y : System} {i : AxiIn} (hf : y.core.ifReadyAxi i = true) :
    y.core.leaves i = y.core.exLs.valid := by
  cases hv : y.core.exLs.valid with
  | true => rw [← Occ.exReady_of_mem hv, Occ.exReady_of_fetch hf]
  | false => simp [Core.leaves, Occ.memValid_of_empty hv]

/-- The state of the machine behind an edge at which an instruction leaves MEM or not. -/
def Arch.next (a : Arch) (leaves : Bool) : Arch := if leaves then a.step else a

/-- Where the front end is, when the word in IF/ID is an instruction if `real` is true. -/
inductive Course (y : System) (a : Arch) : Bool → Prop
  | begins (h : Begins y a.pc) (ha : a.again = true) : Course y a false
  | again (h : Again y a.pc) (ha : a.again = true) : Course y a true
  | ahead {real : Bool} (h : Ahead y real (if y.core.exLs.valid && real then a.target else a.pc))
      (ha : a.again = true →
        real = true ∧ y.core.busy = true ∧ (y.core.exLs.valid = false → a.jump = true)) :
      Course y a real
  | discards (h : Discards y a.pc) (ha : a.again = false) : Course y a false

namespace Course

variable {y : System} {i : AxiIn} {a : Arch} {real : Bool} (h : Course y a real) (ho : Occ y)
  (hbh : Behind y) (hfl : y.core.flush i = false)
include h ho hbh hfl

theorem step_id (hid : y.core.ifId.valid = true) : Course (y.step i) a real := by
  obtain ⟨hex, hmem, hr, -⟩ := ho.id hid
  have hf : y.core.ifReadyAxi i = false := by simp [Core.ifReadyAxi, hr]
  have hvex : (y.step i).core.idEx.valid = true := by rw [ho.step_ex, hid]
  have hvmem : (y.step i).core.exLs.valid = false := by
    rw [Occ.step_mem_of_not_ex hex]
    simp [Core.exReady, Stage.ready, hmem]
  cases h with
  | begins h ha =>
    have hfree := h.free
    simp [Core.busy, hid] at hfree
  | again h ha => exact .again (h.step_id ho hbh hid hfl) ha
  | ahead h ha =>
    refine .ahead ?_ ?_
    · have hstep := h.step_id hbh ho hid hfl
      rwa [hmem, ← hvmem] at hstep
    · intro hag
      obtain ⟨hreal, -, hj⟩ := ha hag
      exact ⟨hreal, by simp [Core.busy, hvex], fun _ => hj hmem⟩
  | discards h ha => exact .discards (h.step_quiet hf hfl) ha

/-- The instruction in EX decides where the program goes on. -/
theorem step_ex (hex : y.core.idEx.valid = true)
    (hto : real = true → y.core.jumpNow = a.jump ∧
      (a.again = false ∨ a.jump = true → y.core.target i = a.target)) :
    Course (y.step i) a real := by
  obtain ⟨hmem, hr⟩ := ho.ex hex
  have hf : y.core.ifReadyAxi i = false := by simp [Core.ifReadyAxi, hr]
  have hvmem := ho.step_mem_of_ex (i := i) hex
  have hbusy : (y.step i).core.busy = true := by simp [Core.busy, hvmem]
  cases h with
  | begins h ha =>
    have hfree := h.free
    simp [Core.busy, hex] at hfree
  | again h ha =>
    have htarget : a.target = a.pc := by
      rw [Arch.target, ← (hto rfl).1, h.jump, ha]
      rfl
    refine .ahead ?_ fun _ => ⟨rfl, hbusy, ?_⟩
    · rw [hvmem, Bool.and_true, if_pos rfl, htarget]
      exact h.step_ex ho hbh hex hfl
    · intro hn
      rw [hvmem] at hn
      exact absurd hn (by simp)
  | ahead h ha =>
    refine .ahead ?_ fun hag => ⟨(ha hag).1, hbusy, ?_⟩
    · have hstep := h.step_ex hbh ho hex hfl
      rw [hmem, Bool.false_and, if_neg Bool.false_ne_true] at hstep
      rw [hvmem, Bool.true_and]
      cases hreal : real with
      | false =>
        rw [hreal] at hstep
        simpa [System.decidedIf, goesOn] using hstep
      | true =>
        have hcase : a.again = false ∨ a.jump = true := by
          cases hag : a.again with
          | false => exact .inl rfl
          | true => exact .inr ((ha hag).2.2 hmem)
        rw [hreal] at hstep
        simpa [System.decidedIf, goesOn, hex, (hto hreal).2 hcase] using hstep
    · intro hn
      rw [hvmem] at hn
      exact absurd hn (by simp)
  | discards h ha => exact .discards (h.step_quiet hf hfl) ha

/-- Nothing is in ID or EX, and no fetch completes. -/
theorem step_wait (hempty : (y.core.ifId.valid || y.core.idEx.valid) = false)
    (hf : y.core.ifReadyAxi i = false)
    (hpc : y.core.leaves i = true → real = true → a.step.pc = a.target) :
    Course (y.step i) (a.next (y.core.leaves i && real)) real := by
  obtain ⟨hid, hex⟩ := Bool.or_eq_false_iff.1 hempty
  have hvmem : (y.step i).core.exLs.valid = (y.core.exLs.valid && !y.core.leaves i) := by
    rw [Occ.step_mem_of_not_ex hex]
    cases hv : y.core.exLs.valid with
    | true => rw [Occ.exReady_of_mem hv]; rfl
    | false => simp [Core.exReady, Stage.ready, hv]
  cases h with
  | begins h ha =>
    rw [Bool.and_false]
    exact .begins (h.step_quiet ho hbh hf hfl) ha
  | again h ha =>
    exact absurd hempty h.not_empty
  | ahead h ha =>
    have hstep := h.step_wait hbh ho hempty hf hfl
    cases hl : y.core.leaves i with
    | false =>
      rw [Bool.false_and]
      rw [hl, Bool.not_false, Bool.and_true] at hvmem
      refine .ahead ?_ ?_
      · rw [hvmem]
        exact hstep
      · intro hag
        obtain ⟨hreal, hbusy, hj⟩ := ha hag
        have hmem : y.core.exLs.valid = true := by simpa [Core.busy, hid, hex] using hbusy
        refine ⟨hreal, by simp [Core.busy, hvmem, hmem], ?_⟩
        intro hn
        rw [hvmem, hmem] at hn
        exact absurd hn (by simp)
    | true =>
      have hmem : y.core.exLs.valid = true := Occ.mem_of_leave hl
      rw [hl, Bool.not_true, Bool.and_false] at hvmem
      rw [hmem, Bool.true_and] at hstep
      rw [Bool.true_and]
      refine .ahead ?_ ?_
      · rw [hvmem, Bool.false_and, if_neg Bool.false_ne_true]
        cases hreal : real with
        | false =>
          rw [hreal] at hstep
          exact hstep
        | true =>
          rw [hreal] at hstep
          change Ahead _ true a.step.pc
          rw [hpc hl hreal]
          exact hstep
      · intro hag
        cases hreal : real with
        | false =>
          rw [hreal] at hag ha
          exact absurd (ha hag).1 Bool.false_ne_true
        | true =>
          rw [hreal] at hag
          exact absurd hag Bool.false_ne_true
  | discards h ha =>
    rw [Bool.and_false]
    exact .discards (h.step_quiet hf hfl) ha

omit h ho hbh hfl in
theorem due_eq (hleaves : y.core.leaves i = y.core.exLs.valid)
    (hpc : y.core.leaves i = true → real = true → a.step.pc = a.target) :
    (if y.core.exLs.valid && real then a.target else a.pc) =
      (a.next (y.core.leaves i && real)).pc := by
  rw [← hleaves]
  cases hl : y.core.leaves i with
  | false => rfl
  | true =>
    cases hreal : real with
    | false => rfl
    | true => exact (hpc hl hreal).symm

omit hfl in
/-- What is delivered is the word at the pc of the machine. -/
theorem ifuPc_eq (hd : y.delivers i = true)
    (hpc : y.core.leaves i = true → real = true → a.step.pc = a.target) :
    y.core.ifuPc = (a.next (y.core.leaves i && real)).pc := by
  simp only [System.delivers, Bool.and_eq_true, Bool.not_eq_true'] at hd
  obtain ⟨⟨hf, hk⟩, hj⟩ := hd
  have hready := (Occ.ready_of_fetch hf).2.2
  have hempty : (y.core.ifId.valid || y.core.idEx.valid) = false := by
    simp [ho.not_id_of_ready hready, ho.not_ex_of_ready hready]
  rw [hbh.jump_eq i] at hj
  cases h with
  | begins h ha =>
    rw [Bool.and_false]
    exact h.ifuPc
  | again h ha =>
    exact absurd hempty h.not_empty
  | ahead h ha =>
    rw [(h.seq hj).1, Ahead.pcBehind_of_empty hempty]
    exact due_eq (Occ.leaves_of_fetch hf) hpc
  | discards h ha =>
    rw [h.keep] at hk
    exact absurd hk (by simp)

omit hfl in
/-- What is dropped is behind a jump or a bubble. -/
theorem not_isCsr_of_drop (hf : y.core.ifReadyAxi i = true) (hd : y.delivers i = false) :
    isCsr y.core.ifId.data.ins = false := by
  have hready := (Occ.ready_of_fetch hf).2.2
  cases h with
  | begins h ha =>
    rw [h.ins]
    exact decode_zero.1
  | again h ha =>
    refine absurd ?_ h.not_empty
    simp [ho.not_id_of_ready hready, ho.not_ex_of_ready hready]
  | ahead h ha =>
    rw [h.delivers_eq hbh hf, Bool.not_eq_false'] at hd
    by_contra hc
    rw [Core.jumpNow, not_jump_of_isCsr (Bool.eq_true_of_not_eq_false hc)] at hd
    exact Bool.false_ne_true hd
  | discards h ha =>
    rw [h.ins]
    exact decode_zero.1

/-- A fetch completes: what was in MEM leaves it. -/
theorem step_fetch (hf : y.core.ifReadyAxi i = true)
    (hpc : y.core.leaves i = true → real = true → a.step.pc = a.target)
    (hjump : y.delivers i = true → (y.step i).core.jumpNow = (a.next (y.core.leaves i && real)).jump) :
    Course (y.step i) (a.next (y.core.leaves i && real)) (y.delivers i) := by
  have hready := (Occ.ready_of_fetch hf).2.2
  have hid := ho.not_id_of_ready hready
  have hex := ho.not_ex_of_ready hready
  have hvmem : (y.step i).core.exLs.valid = false := by
    rw [Occ.step_mem_of_not_ex hex, Occ.exReady_of_fetch hf]
    rfl
  have hleaves := Occ.leaves_of_fetch hf
  cases h with
  | begins h ha =>
    obtain ⟨hd, hcase⟩ := h.step_fetch ho hbh hf hfl
    rw [Bool.and_false] at hjump ⊢
    rw [hd]
    cases hj : (y.step i).core.jumpNow with
    | true =>
      rw [hj, if_pos rfl] at hcase
      refine .ahead ?_ fun _ => ⟨rfl, by simp [Core.busy, ho.step_id, hf], ?_⟩
      · rw [hvmem]
        exact hcase
      · intro _
        exact (hjump hd).symm.trans hj
    | false =>
      rw [hj, if_neg Bool.false_ne_true] at hcase
      exact .again hcase ha
  | again h ha =>
    refine absurd ?_ h.not_empty
    simp [hid, hex]
  | ahead h ha =>
    have hstep := h.step_fetch hbh ho hf hfl
    rw [h.delivers_eq hbh hf]
    have hnext := due_eq hleaves hpc
    have hagain : (a.next (y.core.leaves i && real)).again = false := by
      by_contra hag
      rw [Bool.not_eq_false] at hag
      cases hl : (y.core.leaves i && real) with
      | true =>
        rw [hl] at hag
        exact absurd hag Bool.false_ne_true
      | false =>
        rw [hl] at hag
        obtain ⟨hreal, hbusy, -⟩ := ha hag
        simp [Core.busy, hid, hex, ← hleaves] at hbusy
        simp [hbusy, hreal] at hl
    refine .ahead ?_ ?_
    · rw [hvmem, Bool.false_and, if_neg Bool.false_ne_true, ← hnext]
      exact hstep
    · intro hag
      rw [hagain] at hag
      exact absurd hag Bool.false_ne_true
  | discards h ha =>
    have hd : y.delivers i = false := by simp [System.delivers, h.keep]
    rw [Bool.and_false, hd]
    refine .ahead ?_ ?_
    · rw [hvmem]
      exact h.step_fetch hbh ho hf hfl
    · intro hag
      have hag' : a.again = true := hag
      rw [ha] at hag'
      exact absurd hag' Bool.false_ne_true

end Course

end Oscpu.Axi
