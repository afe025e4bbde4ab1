import Oscpu.Axi.RoundTrip

/-!
# The bursts of `axi_rw`

The length of a burst is computed from the offset and the size for both directions alike, but a
write has one data beat whatever its length, and nothing keeps two words of a read in one page. So
a write is a legal burst if its bytes fit into one word, and a read if they fit into one page.
-/

namespace Oscpu.Axi

open Oscpu.Rtl Oscpu.Lib

/-- The words of a burst, from the aligned address on, are in one page of 4 KB. -/
def InPage (addr : Word) (len : BitVec 8) : Prop :=
  8 * (addr.toNat / 8) % 4096 + 8 * (len.toNat + 1) ≤ 4096

namespace Bus

variable (b : Bus) (xs : BusInputs)

/-- The outputs of `axi_rw` in cycle `k`. -/
def outAt (k : Nat) : AxiOut := (b.after xs k).rw.out (xs k).1

/-- The W handshakes between the cycles `s` and `t`. -/
def dataBeats (s t : Nat) : Finset Nat :=
  (Finset.range t).filter fun k => s < k ∧ (b.after xs k).rw.wHs (xs k).1 (xs k).2 = true

/-- The write address of cycle `s` is answered in cycle `t`. -/
structure WriteBurst (s t : Nat) : Prop where
  aw : (b.after xs s).rw.awHs (xs s).1 (xs s).2 = true
  lt : s < t
  bHs : (b.after xs t).rw.bHs (xs t).1 (xs t).2 = true
  first : ∀ k, s < k → k < t → (b.after xs k).rw.bHs (xs k).1 (xs k).2 = false

/-- There are `aw_len + 1` data beats, and `w_last` is set on exactly the last one. -/
def LegalData (s t : Nat) : Prop :=
  (b.dataBeats xs s t).card = (b.outAt xs s).awLen.toNat + 1 ∧
    ∀ k ∈ b.dataBeats xs s t, (b.outAt xs k).wLast = true ↔ ∀ j ∈ b.dataBeats xs s t, j ≤ k

variable {b xs} {s t k : Nat}

theorem dataBeats_succ (hsk : s < k) : b.dataBeats xs s (k + 1) =
    if (b.after xs k).rw.wHs (xs k).1 (xs k).2 then insert k (b.dataBeats xs s k)
    else b.dataBeats xs s k := by
  rw [dataBeats, Finset.range_add_one, Finset.filter_insert]
  simp only [hsk, true_and]
  rfl

theorem dataBeats_start : b.dataBeats xs s (s + 1) = ∅ := by
  apply Finset.filter_eq_empty_iff.2
  intro k hk hks
  have hlt := Finset.mem_range.1 hk
  omega

/-- While the response is awaited the one data beat is over. -/
structure Beats (b : Bus) (xs : BusInputs) (s k : Nat) : Prop where
  writing : ∃ m, Writing (fun _ => True) (b.after xs k) (xs k).1 m
  card : (b.dataBeats xs s k).card = if (b.after xs k).rw.wState = .write then 0 else 1

section

variable (hb : b.AfterReset) (hok : ∀ k, (b.after xs k).Ok (xs k)) (hheld : b.Holds xs)
include hb hok hheld

theorem beats_start (haw : (b.after xs s).rw.awHs (xs s).1 (xs s).2 = true) :
    Beats b xs s (s + 1) := by
  obtain ⟨m, hph⟩ := phase hb hok hheld s
  have hst : (b.after xs s).rw.wState = .addr ∧ (xs s).1.wValid = true := by
    have haw' := haw
    simp only [AxiRw.awHs, AxiRw.out, Bool.and_eq_true, beq_iff_eq] at haw'
    exact haw'.2
  have hrest : Rest (b.after xs s) m := by
    cases hph with
    | rest h => exact h
    | reading h => exact absurd ((not_awHs_of_rValid h.req).symm.trans haw) Bool.false_ne_true
    | writing h =>
      obtain ⟨w, -, -, ⟨hs, -⟩ | ⟨hs, -⟩⟩ := h.trans <;> rw [hst.1] at hs <;> cases hs
    | done h =>
      have hs := (h.write (write_of_wValid hst.2)).1
      rw [hst.1] at hs
      cases hs
  have hnext : (b.after xs (s + 1)).rw.wState = .write := by
    change (b.after xs s).rw.nextW (xs s).1 (xs s).2 = _
    simp [AxiRw.nextW, hst.1, hst.2, haw]
  refine ⟨⟨m, (hrest.step_writing haw).congr (hheld s (valid_of_wValid hst.2) hrest.ready)⟩, ?_⟩
  rw [dataBeats_start, hnext]
  rfl

omit hb hok in
theorem Beats.step (h : Beats b xs s k) (hsk : s < k)
    (hno : (b.after xs k).rw.bHs (xs k).1 (xs k).2 = false) : Beats b xs s (k + 1) := by
  obtain ⟨m, hw⟩ := h.writing
  have hheld' := hheld k (valid_of_wValid hw.req) hw.ready
  have hready : (b.after xs (k + 1)).rw.rwReady = false := hw.step_ready.trans hno
  have hnext : Writing (fun _ => True) (b.after xs (k + 1)) (xs k).1 m := by
    rcases hw.step (i := (xs k).2) trivial with h' | h'
    · exact h'
    · exact absurd (hready.symm.trans h'.ready) Bool.false_ne_true
  have hstate : (b.after xs (k + 1)).rw.wState = (b.after xs k).rw.nextW (xs k).1 (xs k).2 := rfl
  refine ⟨⟨m, hnext.congr hheld'⟩, ?_⟩
  rw [dataBeats_succ hsk, hstate, AxiRw.nextW, if_pos hw.req]
  have hcard := h.card
  obtain ⟨w, -, -, ⟨hs, -⟩ | ⟨hs, -⟩⟩ := hw.trans
  · rw [hs, if_pos rfl] at hcard
    cases hwhs : (b.after xs k).rw.wHs (xs k).1 (xs k).2 with
    | false => simp [hs, hcard]
    | true =>
      have hnot : k ∉ b.dataBeats xs s k := by simp [dataBeats]
      simp [hs, Finset.card_insert_of_notMem hnot, hcard]
  · have hwhs : (b.after xs k).rw.wHs (xs k).1 (xs k).2 = false := by
      simp [AxiRw.wHs, AxiRw.out, hs]
    rw [hs, if_neg (by decide)] at hcard
    simp [hs, hwhs, hno, hcard]

/-- A write has one data beat. -/
theorem WriteBurst.card_dataBeats (h : b.WriteBurst xs s t) : (b.dataBeats xs s t).card = 1 := by
  have hbeats : ∀ k, s + 1 ≤ k → k ≤ t → Beats b xs s k := by
    intro k hsk
    induction k, hsk using Nat.le_induction with
    | base => exact fun _ => beats_start hb hok hheld h.aw
    | succ k hsk ih =>
      intro hkt
      exact (ih (Nat.le_of_succ_le hkt)).step hheld hsk (h.first k hsk hkt)
  have hend := hbeats t h.lt le_rfl
  have hresp : (b.after xs t).rw.wState = .resp := by
    have hbhs := h.bHs
    simp only [AxiRw.bHs, AxiRw.out, Bool.and_eq_true, beq_iff_eq] at hbhs
    exact hbhs.1
  rw [hend.card, hresp]
  rfl

/-- The data of a write are a legal burst if it has one word. -/
theorem WriteBurst.legalData_iff (h : b.WriteBurst xs s t) :
    b.LegalData xs s t ↔ (xs s).1.axiLen = 0#8 := by
  have hcard := h.card_dataBeats hb hok hheld
  unfold LegalData
  rw [hcard]
  change 1 = (xs s).1.axiLen.toNat + 1 ∧ _ ↔ _
  rw [← BitVec.toNat_inj]
  refine ⟨fun hl => (Nat.succ_inj.1 hl.1).symm, fun hl => ⟨by rw [hl]; rfl, ?_⟩⟩
  intro k hk
  obtain ⟨j, hj⟩ := Finset.card_eq_one.1 hcard
  rw [hj, Finset.mem_singleton] at hk
  apply iff_of_true rfl
  intro i hi
  rw [hj, Finset.mem_singleton] at hi
  rw [hi, hk]

end

end Bus

/-- One word is in a page, and two are unless the page ends between them. -/
theorem RwReq.inPage_iff (r : RwReq) :
    InPage r.addr r.axiLen ↔ r.addr.toNat % 4096 + sizeBytes r.size ≤ 4096 := by
  have hoff := byteOffset_eq r.addr
  have hsize : 1 ≤ sizeBytes r.size ∧ sizeBytes r.size ≤ 8 := by
    rcases sizeBytes_cases r.size with h | h | h | h <;> omega
  rw [InPage, r.axiLen_eq]
  split_ifs with hlen
  · have hone : (1#8).toNat = 1 := rfl
    rw [hone]
    omega
  · have hzero : (0#8).toNat = 0 := rfl
    rw [hzero]
    omega

theorem RwReq.inPage_axiAddr (r : RwReq) :
    InPage r.axiAddr r.axiLen ↔ InPage r.addr r.axiLen := by
  have haddr : r.axiAddr.toNat = 8 * (r.addr.toNat / 8) := busAddr_toNat r.addr
  rw [InPage, InPage, haddr, Nat.mul_div_cancel_left _ (by omega)]

/-- **The bursts of `axi_rw`.** A write burst is legal exactly if its bytes are in one word, and a
read burst exactly if they are in one page. -/
theorem bursts_iff {b : Bus} {xs : BusInputs} (hb : b.AfterReset)
    (hok : ∀ k, (b.after xs k).Ok (xs k)) (hheld : b.Holds xs) :
    (∀ s t, b.WriteBurst xs s t →
      ((b.LegalData xs s t ∧ InPage (b.outAt xs s).awAddr (b.outAt xs s).awLen) ↔
        byteOffset (xs s).1.addr + sizeBytes (xs s).1.size ≤ 8)) ∧
    ∀ s, (b.after xs s).rw.arHs (xs s).1 (xs s).2 = true →
      (InPage (b.outAt xs s).arAddr (b.outAt xs s).arLen ↔
        (xs s).1.addr.toNat % 4096 + sizeBytes (xs s).1.size ≤ 4096) := by
  refine ⟨?_, ?_⟩
  · intro s t h
    have hlen : (xs s).1.axiLen = 0#8 ↔ byteOffset (xs s).1.addr + sizeBytes (xs s).1.size ≤ 8 := by
      rw [RwReq.axiLen_eq]
      split_ifs with hlt
      · exact iff_of_false (by decide) (by omega)
      · exact iff_of_true rfl (by omega)
    rw [← hlen, h.legalData_iff hb hok hheld]
    apply and_iff_left_of_imp
    intro hzero
    -- one word ends before the page does
    have hfit := hlen.1 hzero
    rw [byteOffset_eq] at hfit
    exact (xs s).1.inPage_iff.2 (by omega)
  · intro s _
    exact (xs s).1.inPage_axiAddr.trans (xs s).1.inPage_iff

/-- `sd` to the start of the RAM. -/
theorem bursts_iff_sd :
    let xs := Bus.zero.serving fun _ => storeReq FUNC3_LD_SD 0x80000000#64 0#64
    Bus.zero.LegalData xs 1 3 ∧
      InPage (Bus.zero.outAt xs 1).awAddr (Bus.zero.outAt xs 1).awLen := by
  intro xs
  have hx : Bus.zero.Serves xs := Bus.serves_serving _ _
  have hw : Bus.zero.WriteBurst xs 1 3 :=
    ⟨by decide, by decide, by decide, fun k h1 h3 => by
      obtain rfl : k = 2 := by omega
      decide⟩
  exact ((bursts_iff hx.reset hx.ok hx.held).1 1 3 hw).2 (by decide)

/-- `sh` at an address of the form `8 * n + 7` announces two beats and sends one, and `lw` two bytes
before the end of a page reads over it. -/
theorem bursts_fail :
    let sh := Bus.zero.serving fun _ => storeReq FUNC3_LH_SH 0x80000007#64 0#64
    let lw := Bus.zero.serving fun _ => loadReq FUNC3_LW_SW 0x80000ffe#64 0#64 0#8
    Bus.zero.Serves sh ∧ Bus.zero.WriteBurst sh 1 3 ∧ (Bus.zero.outAt sh 1).awLen = 1#8 ∧
      (Bus.zero.dataBeats sh 1 3).card = 1 ∧ ¬ Bus.zero.LegalData sh 1 3 ∧
    Bus.zero.Serves lw ∧ (Bus.zero.after lw 1).rw.arHs (lw 1).1 (lw 1).2 = true ∧
      ¬ InPage (Bus.zero.outAt lw 1).arAddr (Bus.zero.outAt lw 1).arLen := by
  intro sh lw
  have hx : Bus.zero.Serves sh := Bus.serves_serving _ _
  have hw : Bus.zero.WriteBurst sh 1 3 :=
    ⟨by decide, by decide, by decide, fun k h1 h3 => by
      obtain rfl : k = 2 := by omega
      decide⟩
  refine ⟨hx, hw, by decide, hw.card_dataBeats hx.reset hx.ok hx.held, ?_,
    Bus.serves_serving _ _, by decide, ?_⟩
  · intro hl
    exact absurd ((hw.legalData_iff hx.reset hx.ok hx.held).1 hl) (by decide)
  · unfold InPage
    decide

end Oscpu.Axi
