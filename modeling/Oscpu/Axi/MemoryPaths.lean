import Oscpu.Axi.RoundTrip
import Oscpu.Diff.ByteMemory

/-!
# The memory paths of the two cores

`cpu_diff` selects lanes behind a combinational read and writes under a bit mask; `cpu_axi_diff`
shifts the lanes of a bus read before it extends them, and writes under a byte strobe. On aligned
accesses within the RAM both are the same byte memory.
-/

namespace Oscpu.Axi

open Oscpu.Rtl Oscpu.Lib

/-- The addresses of the RAM. -/
def InRam (x : Word) : Prop :=
  PC_START.toNat ≤ x.toNat ∧ x.toNat < PC_START.toNat + EMU_RAM_SIZE

/-- The RAM of `cpu_diff` and a memory on the bus have the same bytes. -/
def SameBytes (ram : Diff.Ram) (m : ByteMem 64) : Prop := ∀ x, InRam x → ram.byte x = m x

/-- The request of `lsu` in `cpu_axi_diff` for an access; the write data and the strobe of a load
are left over. -/
def accessReq (c : Diff.Access) (wdata : Word) (strb : BitVec 8) : RwReq :=
  if c.write then storeReq c.f3 c.addr c.rs2 else loadReq c.f3 c.addr wdata strb

/-- The load or store in MEM. -/
def Core.access (s : Core) : Diff.Access :=
  ⟨s.exLs.data.sten, s.exLs.data.func3, s.exLs.data.exres, s.exLs.data.rs2⟩

/-- The arbiter presents the request of the access in MEM. -/
theorem Core.req_eq_accessReq {s : Core} (hv : s.exLs.valid = true)
    (h : (s.exLs.data.lden || s.exLs.data.sten) = true) :
    s.req = accessReq s.access s.wdataQ s.wmaskQ := by
  cases hs : s.exLs.data.sten with
  | true => rw [accessReq, access, hs, if_pos rfl, req_store hv hs]
  | false =>
    rw [hs, Bool.or_false] at h
    rw [accessReq, access, hs, if_neg Bool.false_ne_true, req_load hv h hs]

section

variable {f3 : BitVec 3}

theorem storeF3_eq (hf : f3.getLsbD 2 = false) : storeF3 (f3.extractLsb' 0 2) = f3 := by
  revert f3
  decide

theorem loadF3_eq (f3 : BitVec 3) : loadF3 (f3.extractLsb' 0 2) (f3.getLsbD 2) = f3 := by
  revert f3
  decide

theorem unsigned_ne_double (hf : f3 ≠ 7#3) : f3.getLsbD 2 = true → f3.extractLsb' 0 2 ≠ SIZE_D := by
  revert f3
  decide

theorem sizeBytes_eq (f3 : BitVec 3) : sizeBytes (f3.extractLsb' 0 2) = Diff.accessBytes f3 := by
  revert f3
  decide

end

theorem sizeBytes_memSize {f3 : BitVec 3} (hf : f3 ≠ 7#3) :
    sizeBytes (memSize f3) = Diff.accessBytes f3 := by
  revert f3
  decide

/-- The registers of the timer are not in the RAM. -/
theorem ne_of_inRam {a : Word} (h : InRam a) : a ≠ MTIME ∧ a ≠ MTIMECMP := by
  refine ⟨?_, ?_⟩ <;> rintro rfl <;> exact absurd h.1 (by decide)

/-- The extension in `lsu`, of the bytes that the bus has shifted down. -/
theorem ldData_load {f3 : BitVec 3} (hf : f3 ≠ 7#3) (m : ByteMem 64) (a : Word) :
    ldData true f3 (m.load 64 a (Diff.accessBytes f3)) =
      Diff.extended f3 (m.load 64 a (Diff.accessBytes f3)) := by
  have hlow : lowBytes (Diff.accessBytes f3) (m.load 64 a (Diff.accessBytes f3)) =
      m.load 64 a (Diff.accessBytes f3) := by
    apply BitVec.eq_of_getLsbD_eq
    intro k hk
    rw [← sizeBytes_eq, getLsbD_lowBytes, ByteMem.getLsbD_load _ _ _ hk]
    cases decide (k < 8 * sizeBytes (f3.extractLsb' 0 2)) <;> simp
  have h := ldData_lowBytes (unsigned_ne_double hf) (m.load 64 a (Diff.accessBytes f3))
  rw [loadF3_eq, sizeBytes_eq, hlow] at h
  exact h

namespace SameBytes

variable {ram : Diff.Ram} {m : ByteMem 64} {c : Diff.Access}

/-- The bytes of an access are in the RAM. -/
theorem load_eq (h : SameBytes ram m) (hc : c.Legal) :
    ByteMem.load 64 ram.byte c.addr (Diff.accessBytes c.f3) =
      m.load 64 c.addr (Diff.accessBytes c.f3) := by
  apply BitVec.eq_of_getLsbD_eq
  intro k hk
  rw [ByteMem.getLsbD_load _ _ _ hk, ByteMem.getLsbD_load _ _ _ hk]
  by_cases hlt : k < 8 * Diff.accessBytes c.f3
  · have hram : InRam (c.addr + BitVec.ofNat 64 (k / 8)) := by
      have hlo := hc.lower
      have hhi := hc.upper
      have hal := hc.aligned
      rw [Diff.toNat_PC_START] at hlo hhi
      rw [InRam, Diff.toNat_PC_START, BitVec.toNat_add, BitVec.toNat_ofNat]
      unfold EMU_RAM_SIZE at *
      rcases Diff.accessBytes_cases c.f3 with hn | hn | hn | hn <;> rw [hn] at hal hlt <;> omega
    rw [h _ hram]
  · simp [hlt]

theorem store (h : SameBytes ram m) {ram' : Diff.Ram} {n : Nat} {a v : Word}
    (hram : ram'.byte = ram.byte.store a n v) : SameBytes ram' (m.store a n v) := by
  intro x hx
  rw [hram, ByteMem.store, ByteMem.store, h x hx]

end SameBytes

/-- **The memory paths agree.** -/
theorem memoryPaths_agree {c : Diff.Access} (hc : c.Legal) (l : Diff.Lsu) (wdata : Word)
    (strb : BitVec 8) {b : Bus} {xs : BusInputs} {s : Nat} (hx : b.Serves xs)
    (hs : b.Issues xs s (accessReq c wdata strb))
    (hm : SameBytes l.ram (b.after xs s).slave.mem) :
    ∃ l' t, l.step c.input = some l' ∧ b.AnswersAt xs s t ∧
      SameBytes l'.ram (b.after xs t).slave.mem ∧
      (c.write = false → ∀ mtime mtimecmp : Word,
        ldData true c.f3 (memChooseData c.addr mtime mtimecmp (b.after xs t).rw.dataRead) =
          l'.regld) := by
  have hkind := hc.kind
  cases hw : c.write with
  | true =>
    rw [hw, if_pos rfl] at hkind
    rw [accessReq, hw, if_pos rfl] at hs
    obtain ⟨l', hstep, hbyte⟩ := Diff.Lsu.step_store (l := l) hc hw
    obtain ⟨t, ht⟩ := Bus.exists_answersAt hx hs rfl
    have hmem : (b.after xs t).slave.mem =
        (b.after xs s).slave.mem.store c.addr (Diff.accessBytes c.f3) c.rs2 := by
      rw [Bus.mem_of_issues hx hs ht rfl, ← sizeBytes_eq]
      have hal : sizeBytes (c.f3.extractLsb' 0 2) ∣ byteOffset c.addr := by
        rw [dvd_byteOffset, sizeBytes_eq]
        exact hc.aligned
      have h := writeStrb_eq_store hal (b.after xs s).slave.mem c.rs2
      rw [storeF3_eq hkind] at h
      exact h
    refine ⟨l', t, hstep, ht, ?_, fun h => absurd h (by decide)⟩
    rw [hmem]
    exact hm.store hbyte
  | false =>
    rw [hw, if_neg Bool.false_ne_true] at hkind
    rw [accessReq, hw, if_neg Bool.false_ne_true] at hs
    obtain ⟨l', hstep, hbyte, hval⟩ := Diff.Lsu.step_load (l := l) hc hw
    obtain ⟨t, ht⟩ := Bus.exists_answersAt hx hs rfl
    obtain ⟨-, hmem, hread⟩ := (Bus.done_of_issues hx hs ht).read rfl
    refine ⟨l', t, hstep, ht, ?_, ?_⟩
    · intro x hxram
      rw [hmem, hbyte]
      exact hm x hxram
    · intro _ mtime mtimecmp
      have hchoose (d : Word) : memChooseData c.addr mtime mtimecmp d = d := by
        simp [memChooseData, ne_of_inRam ⟨hc.lower, hc.upper⟩]
      have hbytes : (b.after xs t).rw.dataRead =
          (b.after xs s).slave.mem.load 64 c.addr (Diff.accessBytes c.f3) := by
        rw [hread, ← sizeBytes_memSize hkind]
        rfl
      rw [hchoose, hbytes, ldData_load hkind, ← hm.load_eq hc]
      exact hval.symm

/-- `lh` of the third half word of a bus word, against a bus that serves. -/
theorem memoryPaths_agree_lh :
    let c : Diff.Access := ⟨false, 1#3, 0x80000004#64, 0#64⟩
    let l : Diff.Lsu := ⟨fun _ => 0xfedcba9876543210#64, 0#64, 0#64⟩
    let b := Bus.idle l.ram.byte
    let xs := b.serving fun _ => accessReq c 0#64 0#8
    ∃ l' t, l.step c.input = some l' ∧ l'.regld = 0xffffffffffffba98#64 ∧ b.AnswersAt xs 0 t ∧
      SameBytes l'.ram (b.after xs t).slave.mem ∧
      (c.write = false → ∀ mtime mtimecmp : Word,
        ldData true 1#3 (memChooseData 0x80000004#64 mtime mtimecmp (b.after xs t).rw.dataRead) =
          l'.regld) := by
  intro c l b xs
  have hc : c.Legal := by decide
  obtain ⟨l', t, hstep, hans, hbytes, hval⟩ := memoryPaths_agree hc l 0#64 0#8
    (Bus.serves_serving _ _) (Bus.issues_serving rfl) fun _ _ => rfl
  have hregld : (l.step c.input).map Diff.Lsu.regld = some 0xffffffffffffba98#64 := by decide
  rw [hstep, Option.map_some, Option.some_inj] at hregld
  exact ⟨l', t, hstep, hregld, hans, hbytes, hval⟩

end Oscpu.Axi
