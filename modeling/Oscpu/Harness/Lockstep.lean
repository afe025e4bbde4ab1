import Oscpu.Harness.Difftest
import Oscpu.Lib.Partial

/-!
# What a run under difftest has shown

For a core that commits one instruction at a time, the flags, counters and stale packets of
`Difftest` come to this: the reference is started with the registers that the core reports together
with its first instruction, obeys the core from then on, and has to have the same registers each
time. `Cosim` is the reference with what is remembered of it.
-/

namespace Oscpu.Harness

open Oscpu.Rtl Oscpu.Lib

variable {ρ : Type*} [NemuProxy ρ]

/-! ## One cycle of a core -/

/-- What the modules of `difftest.v` are connected to. -/
structure Probe where
  commit : InstrCommit
  event : ArchEvent
  gpr : RegId → Word
  trap : TrapEvent
  csr : CSRState
  fpr : RegId → Word

namespace Probe

variable (p : Probe)

def calls : List Call :=
  difftestInstrCommit 0 p.commit ++ difftestArchEvent p.event ++ difftestArchIntRegState p.gpr ++
    difftestTrapEvent p.trap.valid (p.trap.code.setWidth 3) p.trap.pc p.trap.cycleCnt
      p.trap.instrCnt ++
    difftestCSRState p.csr ++ difftestArchFpRegState p.fpr

/-- The registers as reported in this cycle, with this pc. -/
def shows (pc : Word) : DiffRegs :=
  ((DiffRegs.withGpr (fun _ => pc) p.gpr).withCSR
    { p.csr with priviledgeMode := (p.csr.priviledgeMode.setWidth 2).zeroExtend 8 }).withFpr p.fpr

/-- There is no commit in the cycle of an interrupt or an exception. -/
def Exclusive : Prop :=
  p.event.interrupt ≠ 0#32 ∨ p.event.exception ≠ 0#32 → p.commit.valid = false

end Probe

/-- What the reference is made to do. -/
inductive Command where
  | interrupt (no : BitVec 32)
  | exception (no : BitVec 32) (mtval stval : Word)
  | commit (c : InstrCommit)

def Command.isCommit : Command → Bool
  | .commit _ => true
  | _ => false

/-- The interrupt, the exception or the instruction of this cycle, with its pc. -/
def Probe.command (p : Probe) : Option (Command × Word) :=
  if p.event.interrupt ≠ 0#32 then some (.interrupt p.event.interrupt, p.event.exceptionPC)
  else if p.event.exception ≠ 0#32 then
    some (.exception p.event.exception p.csr.mtval p.csr.stval, p.event.exceptionPC)
  else if p.commit.valid then some (.commit p.commit, p.commit.pc)
  else none

theorem Probe.command_ne_none {p : Probe} (h : p.commit.valid = true) : p.command ≠ none := by
  unfold command
  rw [h]
  split
  · nofun
  · split <;> nofun

/-- The reference after a command. -/
def obey (r : ρ) : Command → ρ
  | .interrupt no => NemuProxy.raiseIntr (no.zeroExtend 64 ||| 1#64 <<< 63) r
  | .exception no mtval stval =>
    if no == 12#32 || no == 13#32 || no == 15#32 then
      NemuProxy.guidedExec ⟨no.zeroExtend 64, mtval, stval⟩ r
    else NemuProxy.exec r
  | .commit c =>
    let r := if c.scFailed then NemuProxy.uarchstatusCpy ⟨0#64, 0#64⟩ r else r
    if c.skip then NemuProxy.setRegs (Difftest.skipped c (NemuProxy.getRegs r)) r
    else NemuProxy.exec r

/-! ## The reference in step with a core -/

structure Cosim (ρ : Type*) where
  ref : ρ
  /-- Where the reference was when it was looked at. -/
  pc : Word
  enabled : Bool
  /-- The cycles since the last commit. -/
  idle : Nat

namespace Cosim

/-- Before the first cycle. -/
def start (r : ρ) : Cosim ρ := ⟨r, 0#64, false, 0⟩

variable (image : List (BitVec 8)) (c : Cosim ρ) (p : Probe)

/-- The first instruction makes the reference a copy of the core. -/
def enable : Cosim ρ :=
  if !c.enabled && p.commit.valid && p.commit.pc == FIRST_INST_ADDRESS then
    { c with
      ref := NemuProxy.setRegs (p.shows p.commit.pc) (NemuProxy.memcpy 0x80000000#64 image c.ref)
      pc := p.commit.pc
      enabled := true }
  else c

/-- One cycle. -/
def next : Cosim ρ :=
  let c := c.enable image p
  match (if c.enabled then p.command else none) with
  | some (k, _) =>
    let r := obey c.ref k
    { c with
      ref := r
      pc := NemuProxy.getRegs r THIS_PC
      idle := if k.isCommit then 0 else c.idle + 1 }
  | none => { c with idle := c.idle + 1 }

/-- The core is not stuck, and what it reports is what the reference has. -/
def Agrees : Prop :=
  c.idle < stuckLimit ∧ ((c.enable image p).enabled = true → ∀ k pc, p.command = some (k, pc) →
    p.shows pc = Function.update (NemuProxy.getRegs (obey (c.enable image p).ref k)) THIS_PC
      (c.enable image p).pc)

end Cosim

/-! ## The class is such a reference -/

namespace Difftest

variable (d : Difftest ρ)

theorem finRange_commit : List.finRange DIFFTEST_COMMIT_WIDTH = [0, 1, 2, 3, 4, 5] := by decide

omit [NemuProxy ρ] in
/-- The packets after the calls of a cycle. -/
theorem foldl_receive (p : Probe) :
    p.calls.foldl receive d =
      { d with
        dut := {
          trap := ⟨p.trap.valid, (p.trap.code.setWidth 3).zeroExtend 8, p.trap.pc,
            p.trap.cycleCnt, p.trap.instrCnt⟩
          event := p.event
          commit := if p.commit.valid then Function.update d.dut.commit 0 p.commit else d.dut.commit
          regs := ((d.dut.regs.withGpr p.gpr).withCSR
            { p.csr with
              priviledgeMode := (p.csr.priviledgeMode.setWidth 2).zeroExtend 8 }).withFpr p.fpr
          store := d.dut.store } } := by
  cases hv : p.commit.valid <;>
    simp [Probe.calls, difftestInstrCommit, difftestArchEvent, difftestArchIntRegState,
      difftestTrapEvent, difftestCSRState, difftestArchFpRegState, receive, CoreState.receive,
      InstrCommit.onto, hv]

/-- Only `this_pc` can be left over from an earlier cycle. -/
theorem update_shows (regs : DiffRegs) (p : Probe) (pc : Word) :
    Function.update (((regs.withGpr p.gpr).withCSR
      { p.csr with priviledgeMode := (p.csr.priviledgeMode.setWidth 2).zeroExtend 8 }).withFpr
        p.fpr) THIS_PC pc = p.shows pc := by
  funext k
  by_cases hk : k = THIS_PC
  · subst hk
    simp [Probe.shows, DiffRegs.withFpr, DiffRegs.withCSR, DiffRegs.withGpr, THIS_PC]
  · by_cases hg : k < 32
    · simp [Probe.shows, DiffRegs.withFpr, DiffRegs.withCSR, DiffRegs.withGpr, hk, hg]
    · by_cases hf : 32 ≤ k ∧ k < 64
      · simp [Probe.shows, DiffRegs.withFpr, hk, hf]
      · have hc : ¬ k ≤ THIS_PC := by
          simp only [THIS_PC] at hk ⊢
          omega
        simp [Probe.shows, DiffRegs.withFpr, DiffRegs.withCSR, hk, hf, hc]

theorem doInstrCommit_fields (c : InstrCommit) :
    (d.doInstrCommit c).proxy = obey d.proxy (.commit c) ∧ (d.doInstrCommit c).dut = d.dut ∧
      (d.doInstrCommit c).progress = true ∧ (d.doInstrCommit c).lastCommit = d.ticks ∧
      (d.doInstrCommit c).ticks = d.ticks ∧ (d.doInstrCommit c).hasCommit = d.hasCommit ∧
      (d.doInstrCommit c).nemuThisPc = d.nemuThisPc ∧ (d.doInstrCommit c).image = d.image := by
  cases hf : c.scFailed <;> cases hs : c.skip <;> simp [doInstrCommit, obey, hf, hs]

theorem doException_eq : d.doException =
    { d with
      proxy := obey d.proxy (.exception d.dut.event.exception (d.dut.regs 78) (d.dut.regs 79))
      progress := true } := by
  simp only [doException, obey]
  split <;> rfl

theorem commitLoop_none (h : (d.dut.commit 0).valid = false) :
    commitLoop (List.finRange _) d = d := by
  simp [finRange_commit, commitLoop, h]

theorem commitLoop_one (h : (d.dut.commit 0).valid = true)
    (hrest : ∀ i ≠ 0, (d.dut.commit i).valid = false) :
    commitLoop (List.finRange _) d =
      { d.doInstrCommit (d.dut.commit 0) with
        dut := { d.dut with
          commit := Function.update d.dut.commit 0 { d.dut.commit 0 with valid := false } }
        numCommit := (d.doInstrCommit (d.dut.commit 0)).numCommit + 1 } := by
  have hdut := (d.doInstrCommit_fields (d.dut.commit 0)).2.1
  simp [finRange_commit, commitLoop, h, hrest, hdut]

/-- The state in which the checks of a cycle begin. -/
def begun (p : Probe) : Difftest ρ := (p.calls.foldl receive d).opened

omit [NemuProxy ρ] in
theorem begun_regs (p : Probe) :
    (d.begun p).dut.regs = p.shows ((d.begun p).dut.commit 0).pc := by
  have hshow := update_shows d.dut.regs p ((d.begun p).dut.commit 0).pc
  rw [← hshow]
  simp [begun, Difftest.opened, setThisPc, foldl_receive]

/-- A cycle of a core that reports no stores. -/
theorem tick_eq (hs : ∀ i, (d.dut.store i).valid = false) (p : Probe) :
    d.tick p.calls =
      if (d.begun p).checkTimeout.1 then none
      else
        let d := (d.begun p).doFirstInstrCommit
        if !d.hasCommit then some d
        else
          let d := { d with numCommit := 0 }.advance
          if !d.progress then some d else if d.compare.1 then none else some d.compare.2 := by
  have hstore (i : Fin DIFFTEST_STORE_WIDTH) :
      ((p.calls.foldl receive d).dut.store i).valid = false := by simp [foldl_receive, hs]
  rw [tick, begun]
  cases hl : (p.calls.foldl receive d).opened.checkTimeout.1 with
  | true => simp [step_of_late _ hl]
  | false =>
    rw [step_of_quiet _ hl hstore]
    cases hc : (p.calls.foldl receive d).opened.doFirstInstrCommit.hasCommit with
    | false => simp [hc]
    | true =>
      simp only [hc, Bool.not_true, Bool.false_eq_true, if_false]
      split <;> rfl

/-- `d'` is `d` when the reference has obeyed a command that was reported with this pc. -/
structure Advanced (d : Difftest ρ) (k : Command) (pc : Word) (d' : Difftest ρ) : Prop where
  proxy : d'.proxy = obey d.proxy k
  regs : d'.dut.regs = Function.update d.dut.regs THIS_PC pc
  progress : d'.progress = true
  lastCommit : d'.lastCommit = if k.isCommit then d.ticks else d.lastCommit
  kept : d'.ticks = d.ticks ∧ d'.hasCommit = d.hasCommit ∧ d'.nemuThisPc = d.nemuThisPc ∧
    d'.image = d.image ∧ d'.dut.store = d.dut.store
  commit : ∀ i, (d'.dut.commit i).valid = false

variable {d} {p : Probe}

theorem advance_of_command (he : d.dut.event = p.event)
    (hc : p.commit.valid = true → d.dut.commit 0 = p.commit)
    (hv : (d.dut.commit 0).valid = p.commit.valid)
    (hrest : ∀ i ≠ 0, (d.dut.commit i).valid = false) (hx : p.Exclusive)
    (hpc : d.dut.regs THIS_PC = (d.dut.commit 0).pc)
    (hval : d.dut.regs 78 = p.csr.mtval ∧ d.dut.regs 79 = p.csr.stval) :
    (p.command = none → d.advance = d) ∧
      ∀ k pc, p.command = some (k, pc) → Advanced d k pc d.advance := by
  have hquiet (h : p.commit.valid = false) (i : Fin DIFFTEST_COMMIT_WIDTH) :
      (d.dut.commit i).valid = false := by
    by_cases hi : i = 0
    · rw [hi, hv, h]
    · exact hrest i hi
  have h78 : (78 : Fin DIFFTEST_NR_REG) ≠ THIS_PC := by decide
  have h79 : (79 : Fin DIFFTEST_NR_REG) ≠ THIS_PC := by decide
  unfold Probe.command advance
  rw [he]
  by_cases hint : p.event.interrupt = 0#32
  · by_cases hexc : p.event.exception = 0#32
    · cases hcv : p.commit.valid with
      | false => simp [hint, hexc, commitLoop_none _ (hquiet hcv 0)]
      | true =>
        have h0 : (d.dut.commit 0).valid = true := hv.trans hcv
        obtain ⟨hp, -, hpr, hlast, hticks, hhas, hthis, himg⟩ :=
          d.doInstrCommit_fields (d.dut.commit 0)
        simp only [hint, hexc, ne_eq, not_true_eq_false, if_false, if_true, reduceCtorEq,
          IsEmpty.forall_iff, Option.some.injEq, Prod.mk.injEq, true_and, commitLoop_one _ h0 hrest]
        rintro k pc ⟨rfl, rfl⟩
        rw [hc hcv] at hp hpc
        refine ⟨?_, ?_, hpr, hlast, ⟨hticks, hhas, hthis, himg, rfl⟩, fun i => ?_⟩
        · rw [hc hcv]
          exact hp
        · rw [← hpc, Function.update_eq_self]
        · by_cases hi : i = 0
          · subst hi
            simp
          · simp [hi, hrest i hi]
    · have hcv := hquiet (hx (.inr hexc))
      simp only [hint, hexc, ne_eq, not_true_eq_false, not_false_eq_true, if_false, if_true,
        reduceCtorEq, IsEmpty.forall_iff, Option.some.injEq, Prod.mk.injEq, true_and]
      rintro k pc ⟨rfl, rfl⟩
      rw [doException_eq]
      refine ⟨?_, rfl, rfl, rfl, ⟨rfl, rfl, rfl, rfl, rfl⟩, hcv⟩
      simp [setThisPc, he, Function.update_of_ne h78, Function.update_of_ne h79, hval]
  · have hcv := hquiet (hx (.inl hint))
    simp only [hint, ne_eq, not_false_eq_true, if_true, reduceCtorEq, IsEmpty.forall_iff,
      Option.some.injEq, Prod.mk.injEq, true_and]
    rintro k pc ⟨rfl, rfl⟩
    exact ⟨by simp [doInterrupt, setThisPc, obey, he], rfl, rfl, rfl, ⟨rfl, rfl, rfl, rfl, rfl⟩,
      hcv⟩

end Difftest

open Difftest

/-- The class between two cycles, and the reference with what is remembered of it. -/
structure Follows (image : List (BitVec 8)) (d : Difftest ρ) (c : Cosim ρ) : Prop where
  image : d.image = image
  proxy : d.proxy = c.ref
  enabled : d.hasCommit = c.enabled
  pc : c.enabled = true → d.nemuThisPc = c.pc
  idle : d.ticks = d.lastCommit + c.idle
  rest : ∀ i ≠ 0, (d.dut.commit i).valid = false
  /-- A commit that is still marked as valid was reported before difftest was enabled. -/
  stale : (d.dut.commit 0).valid = true →
    c.enabled = false ∧ (d.dut.commit 0).pc ≠ FIRST_INST_ADDRESS
  store : ∀ i, (d.dut.store i).valid = false

namespace Follows

variable {img : List (BitVec 8)} {d d' : Difftest ρ} {c : Cosim ρ} {p : Probe}

omit [NemuProxy ρ] in
theorem start (h : d.hasCommit = false) (hidle : d.ticks = d.lastCommit)
    (hc : ∀ i, (d.dut.commit i).valid = false) (hs : ∀ i, (d.dut.store i).valid = false) :
    Follows d.image d (.start d.proxy) :=
  ⟨rfl, rfl, h, nofun, hidle, fun i _ => hc i, fun h0 => by simp [hc 0] at h0, hs⟩

omit [NemuProxy ρ] in
theorem begun_commit (h : Follows img d c) (p : Probe) :
    ((d.begun p).dut.commit 0 = if p.commit.valid then p.commit else d.dut.commit 0) ∧
      ∀ i ≠ 0, ((d.begun p).dut.commit i).valid = false := by
  constructor
  · cases hv : p.commit.valid <;> simp [begun, Difftest.opened, foldl_receive, setThisPc, hv]
  · intro i hi
    cases hv : p.commit.valid <;>
      simp [begun, Difftest.opened, foldl_receive, setThisPc, hv, hi, h.rest i hi]

theorem late_iff (h : Follows img d c) (p : Probe) :
    (d.begun p).checkTimeout.1 = true ↔ ¬ c.idle < stuckLimit := by
  have hticks : (d.begun p).ticks = d.lastCommit + c.idle + 1 := by
    simp [begun, Difftest.opened, setThisPc, foldl_receive, ← h.idle]
  have hlast : (d.begun p).lastCommit = d.lastCommit := by
    simp [begun, Difftest.opened, foldl_receive, setThisPc]
  rw [checkTimeout_fst, hticks, hlast, decide_eq_true_eq]
  omega

/-- The state behind `do_first_instr_commit`. -/
structure Opened (img : List (BitVec 8)) (d : Difftest ρ) (c : Cosim ρ) (p : Probe)
    (e : Difftest ρ) : Prop where
  image : e.image = img
  proxy : e.proxy = (c.enable img p).ref
  enabled : e.hasCommit = (c.enable img p).enabled
  pc : (c.enable img p).enabled = true → e.nemuThisPc = (c.enable img p).pc
  counts : e.ticks = d.lastCommit + c.idle + 1 ∧ e.lastCommit = d.lastCommit ∧ e.progress = false
  dut : e.dut = (d.begun p).dut

theorem opened (h : Follows img d c) (p : Probe) :
    Opened img d c p (d.begun p).doFirstInstrCommit := by
  have hfirst : (d.begun p).dut.regs THIS_PC = ((d.begun p).dut.commit 0).pc := by
    simp [begun, Difftest.opened, setThisPc]
  have hregs := begun_regs d p
  have hcounts : (d.begun p).ticks = d.lastCommit + c.idle + 1 ∧
      (d.begun p).lastCommit = d.lastCommit ∧ (d.begun p).progress = false := by
    refine ⟨?_, ?_, ?_⟩ <;> simp [begun, Difftest.opened, setThisPc, foldl_receive, ← h.idle]
  have hkept : (d.begun p).image = img ∧ (d.begun p).proxy = c.ref ∧
      (d.begun p).hasCommit = c.enabled ∧ (d.begun p).nemuThisPc = d.nemuThisPc := by
    refine ⟨?_, ?_, ?_, ?_⟩ <;>
      simp [begun, Difftest.opened, setThisPc, foldl_receive, h.image, h.proxy, h.enabled]
  obtain ⟨himg, hproxy, hhas, hthis⟩ := hkept
  have hcond : (!(d.begun p).hasCommit && ((d.begun p).dut.commit 0).valid &&
      ((d.begun p).dut.commit 0).pc == FIRST_INST_ADDRESS) =
      (!c.enabled && p.commit.valid && p.commit.pc == FIRST_INST_ADDRESS) := by
    rw [hhas, (h.begun_commit p).1]
    cases hv : p.commit.valid with
    | true => simp [hv]
    | false =>
      cases hs : (d.dut.commit 0).valid with
      | false => simp [hs]
      | true => simp [(h.stale hs).2]
  unfold doFirstInstrCommit
  rw [hcond]
  cases hnew : (!c.enabled && p.commit.valid && p.commit.pc == FIRST_INST_ADDRESS) with
  | false =>
    have hen : c.enable img p = c := by simp only [Cosim.enable, hnew, Bool.false_eq_true, if_false]
    exact ⟨himg, by simp [hen, hproxy], by simp [hen, hhas],
      fun he => by rw [hen] at he ⊢; simpa [hthis] using h.pc he, hcounts, rfl⟩
  | true =>
    have hcv : p.commit.valid = true := by
      simp only [Bool.and_eq_true] at hnew
      exact hnew.1.2
    have hcommit : (d.begun p).dut.commit 0 = p.commit := by simp [(h.begun_commit p).1, hcv]
    have hen : c.enable img p = ⟨NemuProxy.setRegs (p.shows p.commit.pc)
        (NemuProxy.memcpy 0x80000000#64 img c.ref), p.commit.pc, true, c.idle⟩ := by
      simp only [Cosim.enable, hnew, if_true]
    rw [hcommit] at hregs hfirst
    exact ⟨himg, by simp [hen, hregs, himg, hproxy], by simp [hen],
      fun _ => by simp [hen, hfirst], hcounts, rfl⟩

theorem next_of_idle (h : ¬ (c.enable img p).enabled = true ∨ p.command = none) :
    c.next img p = { c.enable img p with idle := (c.enable img p).idle + 1 } := by
  rcases h with h | h <;> simp [Cosim.next, h]

theorem next_of_command {k : Command} {pc : Word} (hen : (c.enable img p).enabled = true)
    (h : p.command = some (k, pc)) :
    c.next img p =
      { c.enable img p with
        ref := obey (c.enable img p).ref k
        pc := NemuProxy.getRegs (obey (c.enable img p).ref k) THIS_PC
        idle := if k.isCommit then 0 else (c.enable img p).idle + 1 } := by
  simp [Cosim.next, hen, h]

theorem enable_idle : (c.enable img p).idle = c.idle := by
  unfold Cosim.enable
  split <;> rfl

/-- A cycle in which the reference does nothing. -/
theorem Opened.quiet {e : Difftest ρ} (h : Follows img d c) (ho : Opened img d c p e)
    (hq : ¬ (c.enable img p).enabled = true ∨ p.command = none) :
    Follows img e (c.next img p) := by
  have hcommit := h.begun_commit p
  have hstore (i : Fin DIFFTEST_STORE_WIDTH) : (e.dut.store i).valid = false := by
    rw [ho.dut]
    simp [begun, Difftest.opened, setThisPc, foldl_receive, h.store]
  rw [next_of_idle hq]
  refine ⟨ho.image, ho.proxy, ho.enabled, ho.pc, ?_, ?_, ?_, hstore⟩
  · rw [ho.counts.1, ho.counts.2.1, enable_idle, Nat.add_assoc]
  · rw [ho.dut]
    exact hcommit.2
  · rw [ho.dut, hcommit.1]
    intro hv
    cases hp : p.commit.valid with
    | true =>
      simp only [if_true]
      rcases hq with hen | hcmd
      · refine ⟨Bool.eq_false_iff.2 hen, fun hpc => hen ?_⟩
        cases hc : c.enabled <;> simp [Cosim.enable, hc, hp, hpc]
      · exact absurd hcmd (Probe.command_ne_none hp)
    | false =>
      simp only [hp, Bool.false_eq_true, if_false] at hv ⊢
      have hen : c.enable img p = c := by simp [Cosim.enable, hp]
      rw [hen]
      exact h.stale hv

/-- A cycle in which it obeys a command. -/
theorem Opened.obeyed {e e' : Difftest ρ} {k : Command} {pc : Word} (ho : Opened img d c p e)
    (hs : ∀ i, (e.dut.store i).valid = false) (hen : (c.enable img p).enabled = true)
    (hcmd : p.command = some (k, pc)) (ha : Advanced { e with numCommit := 0 } k pc e') :
    (e'.compare.1 = false ↔ p.shows pc = Function.update
      (NemuProxy.getRegs (obey (c.enable img p).ref k)) THIS_PC (c.enable img p).pc) ∧
      Follows img e'.compare.2 (c.next img p) := by
  obtain ⟨hticks, hhas, hthis, himg, hstore⟩ := ha.kept
  have hproxy : e'.proxy = obey (c.enable img p).ref k := ha.proxy.trans (by rw [ho.proxy])
  have hregs : e'.dut.regs = p.shows pc := by
    have hbegun := begun_regs d p
    rw [ha.regs]
    simp only [ho.dut, hbegun]
    exact update_shows _ p pc
  constructor
  · simp [Difftest.compare, hregs, hproxy, hthis, ho.pc hen]
  · rw [next_of_command hen hcmd]
    refine ⟨himg.trans ho.image, hproxy, hhas.trans ho.enabled, fun _ => ?_, ?_, ?_, ?_, ?_⟩
    · simp [Difftest.compare, hproxy]
    · have hlast := ha.lastCommit
      have hcount := ho.counts
      simp only [Difftest.compare, hticks, hlast, enable_idle]
      cases k.isCommit
      · simp [hcount, Nat.add_assoc]
      · simp
    · exact fun i _ => ha.commit i
    · intro hv
      simp [Difftest.compare, ha.commit] at hv
    · intro i
      simp only [Difftest.compare, hstore]
      exact hs i

/-- **One cycle.** -/
theorem tick (h : Follows img d c) (hx : p.Exclusive) :
    ((∃ d', d.tick p.calls = some d') ↔ c.Agrees img p) ∧
      ∀ d', d.tick p.calls = some d' → Follows img d' (c.next img p) := by
  have ho := h.opened p
  rw [tick_eq d h.store]
  by_cases hidle : c.idle < stuckLimit
  · have hlate : (d.begun p).checkTimeout.1 = false := by
      rw [← Bool.not_eq_true, h.late_iff, not_not]
      exact hidle
    rw [hlate]
    set e := (d.begun p).doFirstInstrCommit with he
    cases hen : (c.enable img p).enabled with
    | false =>
      have hq := ho.quiet h (.inl (by simp [hen]))
      have hhas : e.hasCommit = false := ho.enabled.trans hen
      simp [hhas, Cosim.Agrees, hidle, hen, hq]
    | true =>
      have hhas : e.hasCommit = true := ho.enabled.trans hen
      have hcommit := h.begun_commit p
      have hs (i : Fin DIFFTEST_STORE_WIDTH) : (e.dut.store i).valid = false := by
        rw [ho.dut]
        simp [begun, Difftest.opened, setThisPc, foldl_receive, h.store]
      have hv : (e.dut.commit 0).valid = p.commit.valid := by
        rw [ho.dut, hcommit.1]
        cases hp : p.commit.valid with
        | true => simp [hp]
        | false =>
          have hen' : c.enabled = true := by simpa [Cosim.enable, hp] using hen
          by_contra hstale
          simp [(h.stale (by simpa using hstale)).1] at hen'
      obtain ⟨hnone, hsome⟩ := advance_of_command (d := { e with numCommit := 0 }) (p := p)
        (by simp [ho.dut, begun, Difftest.opened, setThisPc, foldl_receive])
        (fun hp => by simp [ho.dut, hcommit.1, hp]) hv
        (fun i hi => by simpa [ho.dut] using hcommit.2 i hi) hx
        (by simp only [ho.dut, begun_regs]; rfl)
        (by simp only [ho.dut, begun_regs]; exact ⟨rfl, rfl⟩)
      rw [if_neg Bool.false_ne_true, if_neg (by simp [hhas])]
      cases hcmd : p.command with
      | none =>
        have hq : Follows img { e with numCommit := 0 } (c.next img p) :=
          have hq := ho.quiet h (.inr hcmd)
          ⟨hq.image, hq.proxy, hq.enabled, hq.pc, hq.idle, hq.rest, hq.stale, hq.store⟩
        rw [hnone hcmd, if_pos (by simp [ho.counts])]
        simp only [Option.some.injEq, exists_eq', true_iff]
        exact ⟨⟨hidle, fun _ k pc hk => by simp [hcmd] at hk⟩, fun d' hd => hd ▸ hq⟩
      | some kp =>
        obtain ⟨k, pc⟩ := kp
        have ha := hsome k pc hcmd
        obtain ⟨hiff, hfollows⟩ := ho.obeyed hs hen hcmd ha
        generalize { e with numCommit := 0 }.advance = e' at ha hiff hfollows ⊢
        have hagrees : c.Agrees img p ↔ e'.compare.1 = false := by
          rw [hiff, Cosim.Agrees]
          constructor
          · exact fun hagree => hagree.2 hen k pc hcmd
          · rintro heq
            refine ⟨hidle, fun _ k' pc' hk => ?_⟩
            cases hcmd.symm.trans hk
            exact heq
        rw [hagrees]
        cases hc : e'.compare.1 <;> simp [ha.progress, hc, hfollows]
  · have hlate := (h.late_iff p).2 hidle
    simp [hlate, Cosim.Agrees, hidle]

end Follows

/-- **What difftest checks**, of a core that reports no stores and no commit beside an interrupt or an
exception. A run goes on as long as the core is not stuck and shows in every cycle with a command,
from the first instruction on, the registers of the reference that has obeyed it. In the other
cycles nothing is compared. -/
theorem lockstep_iff {d : Difftest ρ} {ps : Nat → Probe} {n : Nat} (h : d.Fresh)
    (hx : ∀ k < n, (ps k).Exclusive) :
    (∃ d', Reaches (fun d p => Difftest.tick d (Probe.calls p)) d ps n d') ↔
      Admits (Cosim.next d.image) (Cosim.Agrees d.image) (.start d.proxy) ps n :=
  (reaches_iff_admits (fun _ _ _ hR ha => (hR.tick ha).1) (fun _ _ _ d' hR ha => (hR.tick ha).2 d')
    (Follows.start h.hasCommit (h.ticks.trans h.lastCommit.symm) h.commit h.store) hx).1

/-- A reference for programs of `nop`s. -/
structure NopRef where
  regs : DiffRegs

namespace NopRef

def next (r : NopRef) : NopRef :=
  ⟨Function.update r.regs THIS_PC (r.regs THIS_PC + 4#64)⟩

instance : NemuProxy NopRef where
  memcpy _ _ r := r
  getRegs r := r.regs
  setRegs regs _ := ⟨regs⟩
  uarchstatusCpy _ r := r
  storeCommit _ _ _ r := (true, r)
  exec := next
  guidedExec _ := next
  raiseIntr _ r := r

end NopRef

/-- A core that runs `nop`s. -/
def nops (k : Nat) : Probe where
  commit := ⟨true, 0x80000000#64 + BitVec.ofNat 64 (4 * k), 0x13#32, false, false, false, false, 0, 0⟩
  event := ⟨0, 0, 0, 0⟩
  gpr _ := 0#64
  trap := ⟨false, 0, 0, 0, 0⟩
  csr := ⟨0, 0, 0, 0, 0, 0, 0, 0, 0, 0, 0, 0, 0, 0, 0, 0, 0, 3⟩
  fpr _ := 0#64

/-- Difftest before the first cycle. -/
def Difftest.init (r : ρ) : Difftest ρ where
  dut := ⟨⟨false, 0, 0, 0, 0⟩, ⟨0, 0, 0, 0⟩, fun _ => ⟨false, 0, 0, false, false, false, false, 0, 0⟩,
    fun _ => 0#64, fun _ => ⟨false, 0, 0, 0⟩⟩
  refRegs _ := 0#64
  proxy := r
  image := []
  numCommit := 0
  hasCommit := false
  progress := false
  ticks := 0
  lastCommit := 0
  nemuThisPc := 0#64

omit [NemuProxy ρ] in
theorem Difftest.fresh_init (r : ρ) : (Difftest.init r).Fresh :=
  ⟨rfl, rfl, rfl, rfl, fun _ => rfl, fun _ => rfl⟩

theorem nops_run : (run (lift fun d p => Difftest.tick d (Probe.calls p))
    (some (Difftest.init (NopRef.mk fun _ => 7#64))) nops 3).isSome = true := by decide +kernel

theorem lockstep_nops : Admits (Cosim.next []) (Cosim.Agrees [])
    (.start (NopRef.mk fun _ => 7#64)) nops 3 :=
  (lockstep_iff (Difftest.fresh_init _) fun _ _ h => h.elim (absurd rfl) (absurd rfl)).1
    ⟨_, reaches_get nops_run⟩

end Oscpu.Harness
