import Oscpu.Axi.Transactions

/-!
# A store and a load after it

`lsu` shifts the data of a store to its lanes by a table that has entries for aligned addresses
only: at any other address a half word or a word is written with an empty strobe, and a double word
without a shift. `axi_rw` reads any address. So what is stored is read back exactly where the
address is a multiple of the width.
-/

namespace Oscpu.Axi

open Oscpu.Rtl Oscpu.Lib

/-! ## Requests of `lsu` -/

/-- `funct3` of the store of a width. -/
def storeF3 (size : BitVec 2) : BitVec 3 := 0#1 ++ size

/-- `funct3` of a load of a width. -/
def loadF3 (size : BitVec 2) (unsigned : Bool) : BitVec 3 := BitVec.ofBool unsigned ++ size

/-- The request of a store. -/
def storeReq (f3 : BitVec 3) (addr wt : Word) : RwReq :=
  ⟨true, true, addr, memSize f3, true, storeData f3 addr wt, storeMask f3 addr⟩

/-- The request of a load; the write data and the strobe are left over. -/
def loadReq (f3 : BitVec 3) (addr wdata : Word) (strb : BitVec 8) : RwReq :=
  ⟨true, false, addr, memSize f3, true, wdata, strb⟩

/-- What the arbiter presents for a store in MEM. -/
theorem Core.req_store {s : Core} (hv : s.exLs.valid = true) (hs : s.exLs.data.sten = true) :
    s.req = storeReq s.exLs.data.func3 s.exLs.data.exres s.exLs.data.rs2 := by
  have hsig : s.axiSigMem = true := by simp [axiSigMem, hv, hs]
  simp [req, storeReq, axiSigWrite, hsig, hs, memWdata, memWmask]

/-- What the arbiter presents for a load in MEM. -/
theorem Core.req_load {s : Core} (hv : s.exLs.valid = true) (hl : s.exLs.data.lden = true)
    (hs : s.exLs.data.sten = false) :
    s.req = loadReq s.exLs.data.func3 s.exLs.data.exres s.wdataQ s.wmaskQ := by
  have hsig : s.axiSigMem = true := by simp [axiSigMem, hv, hl]
  simp [req, loadReq, axiSigWrite, hsig, hs, memWdata, memWmask]

theorem memSize_loadF3 (size : BitVec 2) {unsigned : Bool} (h : unsigned = true → size ≠ SIZE_D) :
    memSize (loadF3 size unsigned) = size := by
  revert size unsigned
  decide

theorem size_cases (size : BitVec 2) :
    size = SIZE_B ∨ size = SIZE_H ∨ size = SIZE_W ∨ size = SIZE_D := by
  revert size
  decide

/-! ## The lanes of a store -/

section

variable {size : BitVec 2} {addr : Word}

/-- Where the offset is a multiple of the width, the strobe selects the bytes of the store. -/
theorem getLsbD_storeMask (h : sizeBytes size ∣ byteOffset addr) {j : Nat} (hj : j < 8) :
    (storeMask (storeF3 size) addr).getLsbD j =
      decide (byteOffset addr ≤ j ∧ j < byteOffset addr + sizeBytes size) := by
  obtain ⟨j, rfl⟩ : ∃ k : Fin 8, k.val = j := ⟨⟨j, hj⟩, rfl⟩
  unfold storeMask byteOffset at *
  generalize addr.extractLsb' 0 3 = o at *
  revert o size j
  decide

/-- Elsewhere it is empty, unless the store is of a double word. -/
theorem storeMask_misaligned (h : ¬ sizeBytes size ∣ byteOffset addr) :
    storeMask (storeF3 size) addr = if size = SIZE_D then 0xff#8 else 0#8 := by
  unfold storeMask byteOffset at *
  generalize addr.extractLsb' 0 3 = o at *
  revert o size
  decide

theorem lowBytes_eq {n : Nat} (hn : 8 * n ≤ 64) (w : Word) :
    lowBytes n w = (w.extractLsb' 0 (8 * n)).zeroExtend 64 := by
  apply BitVec.eq_of_getLsbD_eq
  intro k hk
  rw [lowBytes, BitVec.getLsbD_and, getLsbD_ones hn, BitVec.getLsbD_setWidth,
    BitVec.getLsbD_extractLsb', Nat.zero_add, Bool.and_comm]
  simp [hk]

theorem storeData_eq (h : sizeBytes size ∣ byteOffset addr) (wt : Word) :
    storeData (storeF3 size) addr wt =
      lowBytes (sizeBytes size) wt <<< (8 * byteOffset addr) := by
  have hlow : 8 * sizeBytes size ≤ 64 := by
    rcases sizeBytes_cases size with h | h | h | h <;> omega
  rw [lowBytes_eq hlow]
  unfold storeData byteOffset at *
  rcases size_cases size with rfl | rfl | rfl | rfl
  · rfl
  · have hhalf : ((addr.extractLsb' 0 3).extractLsb' 0 1 == 0#1) = true := by
      generalize addr.extractLsb' 0 3 = o at *
      revert o
      decide
    simp only [hhalf]
    rfl
  · have hword : ((addr.extractLsb' 0 3).extractLsb' 0 2 == 0#2) = true := by
      generalize addr.extractLsb' 0 3 = o at *
      revert o
      decide
    simp only [hword]
    rfl
  · have hzero : (addr.extractLsb' 0 3).toNat = 0 := by
      generalize addr.extractLsb' 0 3 = o at *
      revert o
      decide
    rw [hzero]
    change wt = (wt.extractLsb' 0 64).zeroExtend 64 <<< 0
    simp

/-- A beat with these lanes stores the bytes and no others. -/
theorem writeStrb_eq_store (h : sizeBytes size ∣ byteOffset addr) (m : ByteMem 64) (wt : Word) :
    m.writeStrb (busAddr addr) (storeData (storeF3 size) addr wt)
        (storeMask (storeF3 size) addr) = m.store addr (sizeBytes size) wt := by
  have hoff : byteOffset addr + sizeBytes size ≤ 8 := by
    have hlt : byteOffset addr < 8 := (addr.extractLsb' 0 3).isLt
    rcases sizeBytes_cases size with hn | hn | hn | hn <;> rw [hn] at h ⊢ <;> omega
  funext x
  have hx : (x - addr).toNat = (2 ^ 64 - byteOffset addr + (x - busAddr addr).toNat) % 2 ^ 64 := by
    have hsplit : x - addr = x - busAddr addr - BitVec.ofNat 64 (byteOffset addr) := by
      rw [BitVec.sub_sub, busAddr_add]
    have hmod : byteOffset addr % 2 ^ 64 = byteOffset addr := Nat.mod_eq_of_lt (by omega)
    rw [hsplit, BitVec.toNat_sub, BitVec.toNat_ofNat, hmod]
  have hd := (x - busAddr addr).isLt
  unfold ByteMem.writeStrb ByteMem.store
  generalize (x - busAddr addr).toNat = d at *
  rw [hx, storeData_eq h]
  by_cases hin : byteOffset addr ≤ d ∧ d < byteOffset addr + sizeBytes size
  · have hdist : (2 ^ 64 - byteOffset addr + d) % 2 ^ 64 = d - byteOffset addr := by omega
    have hstrb : (storeMask (storeF3 size) addr).getLsbD d = true := by
      rw [getLsbD_storeMask h (by omega)]
      simpa using hin
    rw [hdist, if_pos hstrb, if_pos (by omega)]
    apply BitVec.eq_of_getLsbD_eq
    intro k hk
    rw [ByteMem.getLsbD_lane, ByteMem.getLsbD_lane, BitVec.getLsbD_shiftLeft, getLsbD_lowBytes]
    have hbit : 8 * d + k - 8 * byteOffset addr = 8 * (d - byteOffset addr) + k := by omega
    have hlt : 8 * d + k < 64 ∧ ¬ 8 * d + k < 8 * byteOffset addr ∧
        8 * (d - byteOffset addr) + k < 8 * sizeBytes size := by omega
    simp [hbit, hlt]
  · have hstrb : (storeMask (storeF3 size) addr).getLsbD d = false := by
      by_cases hlt : d < 8
      · rw [getLsbD_storeMask h hlt]
        simpa using hin
      · exact BitVec.getLsbD_of_ge _ _ (by omega)
    rw [if_neg (by simp [hstrb]), if_neg (by omega)]

theorem ldData_lowBytes {unsigned : Bool} (h : unsigned = true → size ≠ SIZE_D) (v : Word) :
    ldData true (loadF3 size unsigned) (lowBytes (sizeBytes size) v) =
      if unsigned then (v.extractLsb' 0 (8 * sizeBytes size)).zeroExtend 64
      else (v.extractLsb' 0 (8 * sizeBytes size)).signExtend 64 := by
  have hlow : 8 * sizeBytes size ≤ 64 := by
    rcases sizeBytes_cases size with h | h | h | h <;> omega
  have hcut : (lowBytes (sizeBytes size) v).extractLsb' 0 (8 * sizeBytes size) =
      v.extractLsb' 0 (8 * sizeBytes size) := by
    apply BitVec.eq_of_getLsbD_eq
    intro k hk
    rw [BitVec.getLsbD_extractLsb', BitVec.getLsbD_extractLsb', getLsbD_lowBytes]
    simp [hk]
  rw [← hcut]
  generalize lowBytes (sizeBytes size) v = d
  rcases size_cases size with rfl | rfl | rfl | rfl <;> cases unsigned
  · rfl
  · rfl
  · rfl
  · rfl
  · rfl
  · rfl
  · change d = (d.extractLsb' 0 64).signExtend 64
    simp
  · exact absurd rfl (h rfl)

end

/-! ## Requests in a run -/

namespace Bus

variable {b : Bus} {xs : BusInputs} {s t : Nat} {r : RwReq}

/-- A run of `axi_rw` after reset with requests that are held and a slave that serves them. -/
structure Serves (b : Bus) (xs : BusInputs) : Prop where
  reset : b.AfterReset
  ok : ∀ k, (b.after xs k).Ok (xs k)
  held : b.Holds xs
  fair : b.Fair xs
  fairWrite : b.FairWrite xs

/-- The answer to the request that starts in cycle `s` comes in cycle `t`. -/
def AnswersAt (b : Bus) (xs : BusInputs) (s t : Nat) : Prop :=
  s ≤ t ∧ (b.after xs t).rw.rwReady = true ∧
    ∀ k, s ≤ k → k < t → (b.after xs k).rw.rwReady = false

/-- The request `r` starts in cycle `s` and is presented until it is answered. -/
def Issues (b : Bus) (xs : BusInputs) (s : Nat) (r : RwReq) : Prop :=
  b.Starts xs s ∧ ∀ k, s ≤ k → (∀ j, s ≤ j → j < k → (b.after xs j).rw.rwReady = false) →
    (xs k).1 = r

theorem Issues.eq (h : b.Issues xs s r) : (xs s).1 = r :=
  h.2 s le_rfl fun _ hj hjs => absurd hj (Nat.not_le.2 hjs)

theorem exists_answersAt (hx : b.Serves xs) (h : b.Issues xs s r) (hv : r.valid = true) :
    ∃ t, b.AnswersAt xs s t := by
  have hrest := rest_of_starts hx.reset hx.ok hx.held h.1
  have hready : ∃ j, s ≤ j ∧ (b.after xs j).rw.rwReady = true := by
    cases hw : r.write with
    | false =>
      apply exists_ready hx.ok hx.held hx.fair hrest
      rw [h.eq]
      simp [RwReq.rValid, hv, hw]
    | true =>
      apply exists_ready_of_wValid hx.held hx.fairWrite hrest
      rw [h.eq]
      simp [RwReq.wValid, hv, hw]
  obtain ⟨t, hst, ht, hbusy⟩ := exists_first hready
  exact ⟨t, hst, ht, fun k hsk hkt => Bool.eq_false_iff.2 (hbusy k hsk hkt)⟩

theorem done_of_issues (hx : b.Serves xs) (h : b.Issues xs s r) (ht : b.AnswersAt xs s t) :
    Done (· = r) (b.after xs t) r (b.after xs s).slave.mem := by
  have hconst (k : Nat) (hsk : s ≤ k) (hkt : k ≤ t) : (xs k).1 = r :=
    h.2 k hsk fun j hsj hjk => ht.2.2 j hsj (Nat.lt_of_lt_of_le hjk hkt)
  obtain ⟨-, hph⟩ := window (Q := (· = r)) hx.reset hx.ok hx.held h.1 ht.2.2
    (fun k hsk hkt => hconst k hsk (Nat.le_of_lt hkt)) ht.1 le_rfl
  rw [hconst t ht.1 le_rfl] at hph
  exact hph.done_of_ready ht.2.1

/-- A write that is answered has put its beat into the memory. -/
theorem mem_of_issues (hx : b.Serves xs) (h : b.Issues xs s r) (ht : b.AnswersAt xs s t)
    (hw : r.write = true) : (b.after xs t).slave.mem =
      (b.after xs s).slave.mem.writeStrb (busAddr r.addr) r.wdata r.strb := by
  obtain ⟨q, hq, hmem⟩ := ((done_of_issues hx h ht).write hw).2
  have hqr : q = r := hq
  rw [hmem, hqr]

theorem dataRead_of_issues (hx : b.Serves xs) (h : b.Issues xs s r) (ht : b.AnswersAt xs s t)
    (hw : r.write = false) :
    (b.after xs t).rw.dataRead = r.bytes (b.after xs s).slave.mem :=
  ((done_of_issues hx h ht).read hw).2.2

end Bus

/-! ## The round trip -/

/-- Whatever is stored with a width at `addr` in whatever run, the store is answered and has changed
exactly the bytes of its width, and every load of this width from this memory is answered with the
extended value. -/
def RoundTrip (size : BitVec 2) (addr : Word) : Prop :=
  ∀ (v : Word) (b : Bus) (xs : BusInputs) (s : Nat), b.Serves xs →
    b.Issues xs s (storeReq (storeF3 size) addr v) →
    ∃ t, b.AnswersAt xs s t ∧
      (b.after xs t).slave.mem = (b.after xs s).slave.mem.store addr (sizeBytes size) v ∧
      ∀ (s' : Nat) (unsigned : Bool) (wdata : Word) (strb : BitVec 8), t < s' →
        (unsigned = true → size ≠ SIZE_D) →
        b.Issues xs s' (loadReq (loadF3 size unsigned) addr wdata strb) →
        (b.after xs s').slave.mem = (b.after xs t).slave.mem →
        ∃ t', b.AnswersAt xs s' t' ∧ ∀ mtime mtimecmp : Word,
          ldData true (loadF3 size unsigned)
              (memChooseData addr mtime mtimecmp (b.after xs t').rw.dataRead) =
            if unsigned then (v.extractLsb' 0 (8 * sizeBytes size)).zeroExtend 64
            else (v.extractLsb' 0 (8 * sizeBytes size)).signExtend 64

theorem load_store_eq (size : BitVec 2) (m : ByteMem 64) (addr v : Word) :
    (m.store addr (sizeBytes size) v).load 64 addr (sizeBytes size) =
      lowBytes (sizeBytes size) v := by
  have hle : sizeBytes size ≤ 2 ^ 64 := by
    rcases sizeBytes_cases size with h | h | h | h <;> omega
  apply BitVec.eq_of_getLsbD_eq
  intro k hk
  rw [ByteMem.load_store _ _ hle _ hk, getLsbD_lowBytes, Bool.and_comm]

theorem dvd_byteOffset (size : BitVec 2) (addr : Word) :
    sizeBytes size ∣ byteOffset addr ↔ sizeBytes size ∣ addr.toNat := by
  rw [byteOffset_eq]
  apply Nat.dvd_mod_iff
  rcases sizeBytes_cases size with h | h | h | h <;> rw [h] <;> decide

theorem roundTrip_of_aligned {size : BitVec 2} {addr : Word} (htime : addr ≠ MTIME)
    (htimecmp : addr ≠ MTIMECMP) (h : sizeBytes size ∣ addr.toNat) : RoundTrip size addr := by
  intro v b xs s hx hs
  obtain ⟨t, ht⟩ := Bus.exists_answersAt hx hs rfl
  have hmem : (b.after xs t).slave.mem =
      (b.after xs s).slave.mem.store addr (sizeBytes size) v := by
    rw [Bus.mem_of_issues hx hs ht rfl]
    exact writeStrb_eq_store ((dvd_byteOffset size addr).2 h) _ v
  refine ⟨t, ht, hmem, ?_⟩
  intro s' unsigned wdata strb _ hun hs' hmem'
  obtain ⟨t', ht'⟩ := Bus.exists_answersAt hx hs' rfl
  refine ⟨t', ht', ?_⟩
  intro mtime mtimecmp
  have hchoose (d : Word) : memChooseData addr mtime mtimecmp d = d := by
    simp [memChooseData, htime, htimecmp]
  have hread : (b.after xs t').rw.dataRead = lowBytes (sizeBytes size) v := by
    rw [Bus.dataRead_of_issues hx hs' ht' rfl, hmem', hmem, RwReq.bytes]
    change ByteMem.load 64 _ addr (sizeBytes (memSize (loadF3 size unsigned))) = _
    rw [memSize_loadF3 size hun, load_store_eq]
  rw [hchoose, hread, ldData_lowBytes hun]

/-- A machine after reset with a memory. -/
def Bus.idle (mem : ByteMem 64) : Bus := ⟨AxiRw.zero, mem, none, none⟩

/-- A machine after reset with a memory of zeros. -/
def Bus.zero : Bus := Bus.idle fun _ => 0#8

theorem Bus.serves_serving (mem : ByteMem 64) (r : RwReq) :
    (Bus.idle mem).Serves ((Bus.idle mem).serving fun _ => r) where
  reset := ⟨rfl, rfl, rfl⟩
  ok := ok_serving _ _
  held _ _ _ := .refl r
  fair := fair_serving _ _
  fairWrite := fairWrite_serving _ _

theorem Bus.issues_serving {mem : ByteMem 64} {r : RwReq} (hr : r.valid = true) :
    (Bus.idle mem).Issues ((Bus.idle mem).serving fun _ => r) 0 r :=
  ⟨⟨hr, fun k hk => absurd hk (Nat.succ_ne_zero k).symm⟩, fun _ _ _ => rfl⟩

/-- Elsewhere ones that are stored into zeros do not arrive where they should. -/
theorem misaligned_ne {size : BitVec 2} {addr : Word} (h : ¬ sizeBytes size ∣ byteOffset addr) :
    ByteMem.writeStrb (fun _ => 0#8) (busAddr addr)
        (storeData (storeF3 size) addr (BitVec.allOnes 64)) (storeMask (storeF3 size) addr) ≠
      ByteMem.store (fun _ => 0#8) addr (sizeBytes size) (BitVec.allOnes 64) := by
  intro heq
  have hlane : ByteMem.lane (BitVec.allOnes 64) 0 ≠ 0#8 := by decide
  rw [storeMask_misaligned h] at heq
  by_cases hd : size = SIZE_D
  · -- the first byte of the bus word is written, and is not one of the eight
    subst hd
    have hoff : 0 < byteOffset addr ∧ byteOffset addr < 8 := by
      have hlt : byteOffset addr < 8 := (addr.extractLsb' 0 3).isLt
      refine ⟨Nat.pos_of_ne_zero fun h0 => h ?_, hlt⟩
      rw [h0]
      exact Nat.dvd_zero _
    have hdist : (busAddr addr - addr).toNat = 2 ^ 64 - byteOffset addr := by
      rw [BitVec.toNat_sub, busAddr_toNat]
      rw [byteOffset_eq] at *
      have := addr.isLt
      omega
    have hx := congrFun heq (busAddr addr)
    have hn : sizeBytes SIZE_D = 8 := rfl
    have hstrb : (0xff#8).getLsbD 0 = true := by decide
    have hne : ¬ 2 ^ 64 - byteOffset addr < 8 := by omega
    simp only [ByteMem.writeStrb, ByteMem.store, BitVec.sub_self, BitVec.toNat_ofNat,
      Nat.zero_mod, if_true, hdist, hn, hstrb, hne, if_false] at hx
    exact hlane hx
  · -- nothing is written
    have hx := congrFun heq addr
    have hn : 0 < sizeBytes size := by
      rcases sizeBytes_cases size with h | h | h | h <;> omega
    rw [if_neg hd] at hx
    simp [ByteMem.writeStrb, ByteMem.store, hn] at hx
    exact hlane hx.symm

theorem not_roundTrip_of_misaligned {size : BitVec 2} {addr : Word}
    (h : ¬ sizeBytes size ∣ addr.toNat) : ¬ RoundTrip size addr := by
  intro hrt
  let r := storeReq (storeF3 size) addr (BitVec.allOnes 64)
  have hx : Bus.zero.Serves _ := Bus.serves_serving _ r
  have hs : Bus.zero.Issues (Bus.zero.serving fun _ => r) 0 r := Bus.issues_serving rfl
  obtain ⟨t, ht, hmem, -⟩ := hrt _ _ _ 0 hx hs
  rw [Bus.mem_of_issues hx hs ht rfl] at hmem
  exact misaligned_ne (fun hoff => h ((dvd_byteOffset size addr).1 hoff)) hmem

/-- **The round trip of a store and a load.** -/
theorem roundTrip_iff (size : BitVec 2) (addr : Word) (htime : addr ≠ MTIME)
    (htimecmp : addr ≠ MTIMECMP) : RoundTrip size addr ↔ sizeBytes size ∣ addr.toNat :=
  ⟨fun hrt => by_contra fun h => not_roundTrip_of_misaligned h hrt,
    roundTrip_of_aligned htime htimecmp⟩

theorem roundTrip_iff_word : RoundTrip SIZE_W 0x80000004#64 :=
  (roundTrip_iff SIZE_W 0x80000004#64 (by decide) (by decide)).2 (by decide)

/-- A half word at an odd address. -/
theorem not_roundTrip_odd : ¬ ∀ (size : BitVec 2) (addr : Word), addr ≠ MTIME → addr ≠ MTIMECMP →
    RoundTrip size addr := by
  intro hall
  have hodd : ¬ sizeBytes SIZE_H ∣ (0x80000001#64).toNat := by decide
  exact not_roundTrip_of_misaligned hodd (hall SIZE_H 0x80000001#64 (by decide) (by decide))

end Oscpu.Axi
