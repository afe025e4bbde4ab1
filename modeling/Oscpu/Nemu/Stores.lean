import Oscpu.Nemu.Ref

/-!
# The stores of NEMU

Whatever NEMU executes, its memory changes by stores, and each of them enters the store queue. So
the stores of the core that passed difftest's check are the first of those that made the memory of
the reference.
-/

namespace Oscpu.Nemu

open Oscpu.Rtl Oscpu.Lib

abbrev Store := ByteMem.Store 32 64

/-- The sizes of stores. -/
def SIZES : List Nat := [1, 2, 4, 8]

/-- The entry of a store. -/
def Store.commit (w : Store) : StoreCommit := .ofStore (w.addr.zeroExtend 64) w.value w.bytes

/-- The part of the state that stores change, and `amo`, which keeps them from the queue. -/
structure Storage where
  pmem : ByteMem 32
  queue : StoreQueue
  amo : Bool

def Storage.write (m : Storage) (w : Store) : Storage :=
  { m with
    pmem := m.pmem.store w.addr w.bytes w.value
    queue := m.queue.push m.amo (w.addr.zeroExtend 64) w.value w.bytes }

def State.storage (n : State) : Storage := ⟨n.pmem, n.storeQueue, n.amo⟩

/-- What an execution leaves behind, however it ends: its result, or the state that it jumps out
with. Nothing is left of a process that died. -/
def Leaves {α : Type} (P : State → Prop) (Q : α → Prop) : Exec α → Prop
  | .ok a => Q a
  | .error (.exception _ n) => P n
  | .error (.halt n) => P n
  | .error .fault => True
  | .error .unmodelled => True

namespace Leaves

variable {α β : Type} {P : State → Prop} {Q : α → Prop} {Q' : β → Prop}

theorem bind {r : Exec α} {f : α → Exec β} (hr : Leaves P Q r) (hf : ∀ a, Q a → Leaves P Q' (f a)) :
    Leaves P Q' (r >>= f) := by
  rcases r with (_ | _ | _ | _) | a
  · exact hr
  · exact hr
  · trivial
  · trivial
  · exact hf a hr

theorem mono {P' : State → Prop} {Q' : α → Prop} {r : Exec α} (hr : Leaves P Q r)
    (hP : ∀ n, P n → P' n) (hQ : ∀ a, Q a → Q' a) : Leaves P' Q' r := by
  rcases r with (_ | _ | _ | _) | a
  · exact hP _ hr
  · exact hP _ hr
  · trivial
  · trivial
  · exact hQ a hr

end Leaves

namespace State

/-! ## What leaves the memory alone -/

section

variable (n : State)

@[simp] theorem storage_setCsr (id : BitVec 12) (v : Word) :
    (n.setCsr id v).storage = n.storage := rfl

@[simp] theorem storage_rtlLi (dest : Reg) (imm : Word) :
    (rtlLi dest imm n).storage = n.storage := rfl

@[simp] theorem storage_rtlSext (dest src1 : Reg) (width : Nat) :
    (rtlSext dest src1 width n).storage = n.storage := rfl

@[simp] theorem storage_rtlZext (dest src1 : Reg) (width : Nat) :
    (rtlZext dest src1 width n).storage = n.storage := rfl

@[simp] theorem storage_csrRead (src : BitVec 12) : (n.csrRead src).2.storage = n.storage := by
  unfold csrRead
  split <;> rfl

/-- `n` is left with this storage. -/
abbrev Keeps (m : Storage) : State → Prop := fun n => n.storage = m

variable {n} {m : Storage}

theorem storage_ite {c : Prop} [Decidable c] {a b : State} (ha : a.storage = m)
    (hb : b.storage = m) : (if c then a else b).storage = m := by
  split <;> assumption

theorem keeps_updateMmuState (h : n.storage = m) : Leaves (Keeps m) (Keeps m) n.updateMmuState := by
  unfold updateMmuState
  split
  · exact h
  · trivial

theorem keeps_csrWrite (h : n.storage = m) (dest : BitVec 12) (src : Word) :
    Leaves (Keeps m) (Keeps m) (n.csrWrite dest src) := by
  unfold csrWrite
  split
  · trivial
  · extract_lets n₁ n₂
    have h₁ : n₁.storage = m := by
      simp only [n₁]
      split_ifs <;> exact h
    have h₂ : n₂.storage = m := by
      simp only [n₂]
      split_ifs <;> exact h₁
    split
    · exact keeps_updateMmuState h₂
    · exact h₂

theorem keeps_csrrw (h : n.storage = m) (dest src : Option Reg) (csrid : BitVec 12) :
    Leaves (Keeps m) (Keeps m) (n.csrrw dest src csrid) := by
  unfold csrrw
  split
  · exact h
  · extract_lets tmp n₁
    have h₁ : n₁.storage = m := by
      cases dest with
      | none => exact h
      | some d => exact (storage_csrRead n csrid).trans h
    split
    · exact keeps_csrWrite h₁ ..
    · exact h₁

/-- `n` comes with a value. -/
abbrev KeepsSnd (m : Storage) : Word × State → Prop := fun p => p.2.storage = m

theorem keeps_raiseIntr (h : n.storage = m) (no epc : Word) :
    Leaves (Keeps m) (KeepsSnd m) (n.raiseIntr no epc) := by
  unfold raiseIntr
  extract_lets deleg mstatus n₁ mstatus₁ mstatus₂ n₂ toS n₃ mstatus₃ mstatus₄ n₄ toM
  have h₁ : n₁.storage = m := h
  have h₂ : n₂.storage = m := (storage_setCsr n₁ ..).trans h₁
  have hS : toS.storage = m := storage_ite h₂ ((storage_setCsr n₂ ..).trans h₂)
  have h₃ : n₃.storage = m := h
  have h₄ : n₄.storage = m := (storage_setCsr n₃ ..).trans h₃
  have hM : toM.storage = m := storage_ite h₄ ((storage_setCsr n₄ ..).trans h₄)
  split
  · exact (keeps_updateMmuState (n := { toS with mode := MODE_S }) hS).bind fun n' h' => h'
  · exact (keeps_updateMmuState (n := { toM with mode := MODE_M }) hM).bind fun n' h' => h'

theorem keeps_privInstr (h : n.storage = m) (op : BitVec 12) :
    Leaves (Keeps m) (KeepsSnd m) (n.privInstr op) := by
  unfold privInstr
  extract_lets mstatus
  split
  · exact h
  · split
    · refine Leaves.bind (keeps_updateMmuState ?_) fun n' h' => h'
      exact h
    · split
      · exact h
      · trivial

theorem keeps_rtlTrap (h : n.storage = m) (retPc no : Word) :
    Leaves (Keeps m) (Keeps m) (n.rtlTrap retPc no) :=
  (keeps_raiseIntr (n := n.rtlLi .t0 retPc) h ..).bind fun ⟨_, _⟩ h' => h'

theorem keeps_system (h : n.storage = m) : Leaves (Keeps m) (Keeps m) n.system := by
  unfold system
  extract_lets id funct3 last op
  have hlast (n' : State) (h' : n'.storage = m) : Leaves (Keeps m) (Keeps m) (last n') := by
    change (if _ then _ else _ : State).storage = m
    split <;> exact h'
  split
  · split
    · exact (keeps_rtlTrap h ..).bind fun _ h' => hlast _ h'
    · exact (keeps_privInstr h _).bind fun ⟨_, _⟩ h' => hlast _ h'
  · refine (keeps_csrrw h ..).bind fun n' h' => ?_
    extract_lets n₁ n₂
    have h₁ : n₁.storage = m := by
      simp only [n₁]
      split_ifs <;> exact h'
    have h₂ : n₂.storage = m := by
      simp only [n₂]
      split_ifs <;> exact h₁
    exact (keeps_csrrw h₂ ..).bind fun _ h' => h'

/-! ## Loads, stores and the other instructions -/

/-- `n` is left with this storage after some stores. -/
def Stores (m : Storage) (n : State) : Prop :=
  ∃ ws : List Store, (∀ w ∈ ws, w.bytes ∈ SIZES) ∧ n.storage = ws.foldl .write m

theorem Stores.none (h : n.storage = m) : Stores m n := ⟨[], by simp, h⟩

theorem keeps_paddrRead (h : n.storage = m) (addr : Paddr) (len : Nat) :
    Leaves (Keeps m) (fun _ => True) (n.paddrRead addr len) := by
  unfold paddrRead pmemRead
  split_ifs
  · trivial
  · trivial
  · exact h

theorem keeps_vaddrIfetch (h : n.storage = m) (addr : Word) (len : Nat) :
    Leaves (Keeps m) (fun _ => True) (n.vaddrIfetch addr len) := by
  unfold vaddrIfetch
  split
  · trivial
  · exact keeps_paddrRead h ..

theorem keeps_rtlLm (h : n.storage = m) (dest addr : Reg) (offset : Word) (len : Nat) :
    Leaves (Keeps m) (Keeps m) (n.rtlLm dest addr offset len) :=
  (keeps_paddrRead h ..).bind fun _ _ => h

theorem keeps_rtlLms (h : n.storage = m) (dest addr : Reg) (offset : Word) (len : Nat) :
    Leaves (Keeps m) (Keeps m) (n.rtlLms dest addr offset len) :=
  (keeps_paddrRead h ..).bind fun _ _ => h

theorem stores_rtlSm (h : n.storage = m) (src1 addr : Reg) (offset : Word) {len : Nat}
    (hlen : len ∈ SIZES) : Leaves (Stores m) (Stores m) (n.rtlSm src1 addr offset len) := by
  unfold rtlSm vaddrWrite paddrWrite pmemWrite
  extract_lets q
  split_ifs
  · subst h
    exact ⟨[⟨(n.get addr + offset).setWidth 32, len, n.get src1⟩], by simpa using hlen, rfl⟩
  · trivial
  · exact .none h

theorem Leaves.stores {r : Exec State} (hr : Leaves (Keeps m) (Keeps m) r) :
    Leaves (Stores m) (Stores m) r :=
  hr.mono (fun _ => .none) fun _ => .none

@[simp] theorem storage_execDiv : n.execDiv.storage = n.storage := storage_ite rfl (storage_ite rfl rfl)

@[simp] theorem storage_execDivu : n.execDivu.storage = n.storage := storage_ite rfl rfl

@[simp] theorem storage_execRem : n.execRem.storage = n.storage := storage_ite rfl (storage_ite rfl rfl)

@[simp] theorem storage_execRemu : n.execRemu.storage = n.storage := storage_ite rfl rfl

@[simp] theorem storage_execDivw : n.execDivw.storage = n.storage := by
  unfold execDivw
  extract_lets n₁ n₂ n₃
  have h₂ : n₂.storage = n.storage :=
    (storage_rtlSext n₁ ..).trans (storage_rtlSext n ..)
  clear_value n₂
  exact (storage_rtlSext n₃ ..).trans
    (storage_ite ((storage_rtlLi n₂ ..).trans h₂) (storage_ite h₂ h₂))

@[simp] theorem storage_execRemw : n.execRemw.storage = n.storage := by
  unfold execRemw
  extract_lets n₁ n₂ n₃
  have h₂ : n₂.storage = n.storage :=
    (storage_rtlSext n₁ ..).trans (storage_rtlSext n ..)
  clear_value n₂
  exact (storage_rtlSext n₃ ..).trans (storage_ite h₂ (storage_ite h₂ h₂))

@[simp] theorem storage_execDivuw : n.execDivuw.storage = n.storage := by
  unfold execDivuw
  extract_lets n₁ n₂ n₃
  have h₂ : n₂.storage = n.storage :=
    (storage_rtlZext n₁ ..).trans (storage_rtlZext n ..)
  clear_value n₂
  exact (storage_rtlSext n₃ ..).trans
    (storage_ite ((storage_rtlLi n₂ ..).trans h₂) h₂)

@[simp] theorem storage_execRemuw : n.execRemuw.storage = n.storage := by
  unfold execRemuw
  extract_lets n₁ n₂ n₃
  have h₂ : n₂.storage = n.storage :=
    (storage_rtlZext n₁ ..).trans (storage_rtlZext n ..)
  clear_value n₂
  exact (storage_rtlSext n₃ ..).trans (storage_ite h₂ h₂)

theorem keeps_execInv (h : n.storage = m) : Leaves (Keeps m) (Keeps m) n.execInv :=
  (keeps_vaddrIfetch h ..).bind fun _ _ => (keeps_vaddrIfetch h ..).bind fun _ _ => h

/-- A helper stores once or not at all. -/
theorem stores_ehelper (h : n.storage = m) (idx : ExecId) :
    Leaves (Stores m) (Stores m) (n.ehelper idx) := by
  cases idx
  case inv => exact Leaves.stores (keeps_execInv h)
  case system => exact Leaves.stores (keeps_system h)
  case ld | lw | lh | lb => exact Leaves.stores (keeps_rtlLms h ..)
  case lwu | lhu | lbu => exact Leaves.stores (keeps_rtlLm h ..)
  case sd | sw | sh | sb => exact stores_rtlSm h _ _ _ (by decide)
  case div => exact .none (storage_execDiv.trans h)
  case divu => exact .none (storage_execDivu.trans h)
  case rem => exact .none (storage_execRem.trans h)
  case remu => exact .none (storage_execRemu.trans h)
  case divw => exact .none (storage_execDivw.trans h)
  case remw => exact .none (storage_execRemw.trans h)
  case divuw => exact .none (storage_execDivuw.trans h)
  case remuw => exact .none (storage_execRemuw.trans h)
  case other => trivial
  -- the others only write registers
  all_goals exact .none h

/-! ## A call of difftest -/

theorem keeps_isaFetchDecode (h : n.storage = m) :
    Leaves (Keeps m) (fun p => p.1.storage = m) n.isaFetchDecode := by
  refine Leaves.bind (keeps_vaddrIfetch h ..) fun lo _ => ?_
  extract_lets s₀ s₁ n₁ rest
  split
  · trivial
  · refine Leaves.bind (keeps_vaddrIfetch (n := n₁) h ..) fun hi _ => ?_
    extract_lets s₂
    split
    exact h

theorem keeps_fetchDecode (h : n.storage = m) (pc : Word) :
    Leaves (Keeps m) (fun p => p.1.storage = m) (n.fetchDecode pc) :=
  keeps_isaFetchDecode (n := { n with s := { n.s with pc := pc, snpc := pc } }) h

theorem stores_execute (h : n.storage = m) : Leaves (Stores m) (Stores m) n.execute :=
  ((keeps_fetchDecode h _).mono (fun _ => .none) fun _ => id).bind
    fun ⟨n', idx⟩ h' => stores_ehelper (n := { n' with pc := n'.s.snpc }) h' idx

theorem stores_cpuExec {n' : State} (h : n.cpuExec = some n') : Stores n.storage n' := by
  unfold cpuExec at h
  split at h
  · exact .none (by rw [← Option.some.inj h])
  · have hexec := stores_execute (n := { n with nemuState := .running }) (m := n.storage) rfl
    split at h
    · rename_i n₁ hn₁
      rw [hn₁] at hexec
      exact Option.some.inj h ▸ hexec
    · rename_i n₁ hn₁
      rw [hn₁] at hexec
      exact Option.some.inj h ▸ hexec
    · rename_i cause n₁ hn₁
      rw [hn₁] at hexec
      have hraise := keeps_raiseIntr (n := n₁) rfl cause n₁.s.pc
      split at h
      · rename_i pc n₂ hn₂
        rw [hn₂] at hraise
        obtain ⟨ws, hsizes, hws⟩ := hexec
        exact ⟨ws, hsizes, by rw [← Option.some.inj h]; exact Eq.trans hraise hws⟩
      · cases h
    · cases h

theorem storage_difftestRegcpy (dut : Nat → Word) :
    (n.difftestRegcpy dut).storage = n.storage := by
  rfl

theorem storage_difftestRaiseIntr {n' : State} {no : Word}
    (h : n.difftestRaiseIntr no = some n') : n'.storage = n.storage := by
  have hraise := keeps_raiseIntr (n := n) rfl no n.pc
  unfold difftestRaiseIntr at h
  split at h
  · rename_i pc n₁ hn₁
    rw [hn₁] at hraise
    exact Option.some.inj h ▸ hraise
  · cases h

end

end State

/-! ## The queue beside the memory -/

namespace Storage

variable {m : Storage} {l : List StoreCommit}

/-- A queue that has overflowed stays as it is. -/
theorem queue_foldl (h : m.queue.overflow = true) (ws : List Store) :
    (ws.foldl write m).queue = m.queue := by
  induction ws generalizing m with
  | nil => rfl
  | cons w ws ih =>
    have hw : (m.write w).queue = m.queue := StoreQueue.push_of_overflow h ..
    rw [List.foldl_cons, ih (hw ▸ h), hw]

theorem pmem_foldl (m : Storage) (ws : List Store) : (ws.foldl write m).pmem =
    ws.foldl (fun mem w => mem.store w.addr w.bytes w.value) m.pmem := by
  induction ws generalizing m with
  | nil => rfl
  | cons w ws ih => exact ih _

theorem amo_foldl (m : Storage) (ws : List Store) : (ws.foldl write m).amo = m.amo := by
  induction ws generalizing m with
  | nil => rfl
  | cons w ws ih => exact ih _

/-- Stores queue up, in their order. -/
theorem holds_foldl (h : m.queue.Holds l) (ha : m.amo = false) (ws : List Store)
    (ho : (ws.foldl write m).queue.overflow = false) :
    (ws.foldl write m).queue.Holds (l ++ ws.map Store.commit) := by
  induction ws generalizing m l with
  | nil => simpa using h
  | cons w ws ih =>
    have hw : (m.write w).queue.overflow = false := by
      by_contra hover
      have hover : (m.write w).queue.overflow = true := by simpa using hover
      rw [List.foldl_cons, queue_foldl hover, hover] at ho
      cases ho
    have hpush : (m.write w).queue.Holds (l ++ [w.commit]) := by
      simp only [write, ha] at hw ⊢
      exact h.push hw
    rw [List.map_cons, List.append_cons]
    exact ih hpush ha ho

end Storage

/-- The entry that the store of a call is to have. -/
def RefCall.stores : RefCall → List StoreCommit
  | .storeCommit addr data mask => [.ofCore addr data mask]
  | _ => []

/-- How the memory and the queue got from `n` to `n'`, when the core had these stores checked: all
that NEMU stored was in the queue, or is there now. -/
structure Accounts (n : State) (checked : List StoreCommit) (n' : State) : Prop where
  amo : n.amo = false → n'.amo = false
  overflow : n.storeQueue.overflow = true → n'.storeQueue.overflow = true
  stores : n.amo = false → n'.storeQueue.overflow = false → ∀ l, n.storeQueue.Holds l →
    ∃ (ws : List Store) (l' : List StoreCommit), (∀ w ∈ ws, w.bytes ∈ SIZES) ∧
      n'.pmem = ws.foldl (fun mem w => mem.store w.addr w.bytes w.value) n.pmem ∧
      n'.storeQueue.Holds l' ∧ l ++ ws.map Store.commit = checked ++ l'

namespace Accounts

variable {n n' n'' : State} {cs ds : List StoreCommit}

theorem of_stores (h : State.Stores n.storage n') : Accounts n [] n' := by
  obtain ⟨ws, hsizes, hws⟩ := h
  have hqueue : n'.storeQueue = (ws.foldl Storage.write n.storage).queue :=
    congrArg Storage.queue hws
  have hamo : n'.amo = n.amo := (congrArg Storage.amo hws).trans (Storage.amo_foldl ..)
  refine ⟨hamo.trans, fun ho => ?_, fun ha ho l hl => ?_⟩
  · rw [hqueue, Storage.queue_foldl ho]
    exact ho
  · rw [hqueue] at ho ⊢
    exact ⟨ws, _, hsizes, (congrArg Storage.pmem hws).trans (Storage.pmem_foldl ..),
      Storage.holds_foldl hl ha ws ho, rfl⟩

theorem refl (n : State) : Accounts n [] n := of_stores (.none rfl)

theorem trans (h : Accounts n cs n') (h' : Accounts n' ds n'') : Accounts n (cs ++ ds) n'' where
  amo ha := h'.amo (h.amo ha)
  overflow ho := h'.overflow (h.overflow ho)
  stores ha ho l hl := by
    have ho' : n'.storeQueue.overflow = false := by
      by_contra hover
      rw [h'.overflow (by simpa using hover)] at ho
      cases ho
    obtain ⟨ws, l₁, hsizes, hmem, hl₁, heq⟩ := h.stores ha ho' l hl
    obtain ⟨ws', l₂, hsizes', hmem', hl₂, heq'⟩ := h'.stores (h.amo ha) ho l₁ hl₁
    refine ⟨ws ++ ws', l₂, ?_, ?_, hl₂, ?_⟩
    · intro w hw
      rcases List.mem_append.1 hw with hw | hw
      · exact hsizes w hw
      · exact hsizes' w hw
    · rw [List.foldl_append, ← hmem, hmem']
    · rw [List.map_append, ← List.append_assoc, heq, List.append_assoc, heq', List.append_assoc]

theorem storeCommit {addr data : Word} {mask : BitVec 8}
    (h : n.difftestStoreCommit addr data mask = some n') :
    Accounts n [.ofCore addr data mask] n' := by
  rcases hcheck : n.storeQueue.check addr data mask with ⟨differs, q⟩
  simp only [State.difftestStoreCommit, hcheck] at h
  cases differs with
  | true => cases h
  | false =>
    obtain rfl : { n with storeQueue := q } = n' := by simpa using h
    refine ⟨id, fun ho => ?_, fun _ _ l hl => ?_⟩
    · have hover := StoreQueue.overflow_check n.storeQueue addr data mask
      rw [hcheck] at hover
      exact hover.trans ho
    · have hl' := hl.check addr data mask
      rw [hcheck] at hl'
      refine ⟨[], l.tail, by simp, rfl, hl'.2, ?_⟩
      rw [List.map_nil, List.append_nil, List.singleton_append]
      exact (List.eq_cons_of_mem_head? (hl'.1.1 rfl))

theorem call {c : RefCall} (h : n.call c = some n') : Accounts n c.stores n' := by
  cases c with
  | regcpy dut =>
    obtain rfl := Option.some.inj h
    exact of_stores (.none (State.storage_difftestRegcpy dut))
  | uarchstatusCpy lrscValid lrscAddr =>
    obtain rfl := Option.some.inj h
    exact of_stores (.none rfl)
  | storeCommit addr data mask => exact storeCommit h
  | exec => exact of_stores (State.stores_cpuExec h)
  | raiseIntr no => exact of_stores (.none (State.storage_difftestRaiseIntr h))

theorem calls {cs : List RefCall} (h : State.calls cs n = some n') :
    Accounts n (cs.flatMap RefCall.stores) n' := by
  induction cs generalizing n with
  | nil =>
    obtain rfl := Option.some.inj h
    exact refl n
  | cons c cs ih =>
    obtain ⟨n₁, hc, hcs⟩ := Option.bind_eq_some_iff.1 h
    exact (call hc).trans (ih hcs)

end Accounts

/-! ## The memory that the entries describe -/

/-- The bytes that the mask of an entry selects. -/
def StoreCommit.writeTo (c : StoreCommit) (mem : ByteMem 32) : ByteMem 32 :=
  mem.writeStrb (c.addr.setWidth 32) c.data c.mask

namespace Store

variable {w : Store}

/-- The place of a store in its doubleword. -/
def offset (w : Store) : Nat := w.addr.toNat % 8

/-- The store does not cross the end of its doubleword. -/
def Within (w : Store) : Prop := w.offset + w.bytes ≤ 8

theorem toNat_offset (w : Store) : (w.addr.zeroExtend 64 % 8#64).toNat = w.offset := by
  simp [offset]

theorem commit_mask (hb : w.bytes ∈ SIZES) (h : w.Within) :
    w.commit.mask = BitVec.ofNat 8 (2 ^ w.bytes - 1) <<< w.offset := by
  have hoff : w.addr.zeroExtend 64 % 8#64 = BitVec.ofNat 64 w.offset := by
    apply BitVec.eq_of_toNat_eq
    rw [toNat_offset, BitVec.toNat_ofNat, Nat.mod_eq_of_lt (by unfold offset; omega)]
  have hshift (x : BitVec 8) : x <<< (w.addr.zeroExtend 64 % 8#64) = x <<< w.offset := by
    rw [BitVec.shiftLeft_eq', toNat_offset]
  obtain ⟨addr, bytes, value⟩ := w
  simp only [SIZES, List.mem_cons, List.not_mem_nil, or_false] at hb
  rcases hb with rfl | rfl | rfl | rfl
  · exact hshift _
  · exact hshift _
  · exact hshift _
  · have hzero : offset ⟨addr, 8, value⟩ = 0 := by
      unfold Within at h
      simp only at h
      omega
    rw [hzero]
    rfl

theorem commit_data (hb : w.bytes ∈ SIZES) (h : w.Within) :
    w.commit.data = (w.value &&& BitVec.ofNat 64 (2 ^ (8 * w.bytes) - 1)) <<< (8 * w.offset) := by
  have hoff := toNat_offset w
  have hshift (x : Word) :
      x <<< ((w.addr.zeroExtend 64 % 8#64) <<< 3) = x <<< (8 * w.offset) := by
    rw [BitVec.shiftLeft_eq', BitVec.toNat_shiftLeft, hoff, Nat.shiftLeft_eq,
      Nat.mod_eq_of_lt (by unfold offset; omega), Nat.mul_comm]
  obtain ⟨addr, bytes, value⟩ := w
  simp only [SIZES, List.mem_cons, List.not_mem_nil, or_false] at hb
  rcases hb with rfl | rfl | rfl | rfl
  · exact hshift _
  · exact hshift _
  · exact hshift _
  · have hzero : offset ⟨addr, 8, value⟩ = 0 := by
      unfold Within at h
      simp only at h
      omega
    rw [hzero]
    change value = (value &&& BitVec.allOnes 64) <<< 0
    rw [BitVec.and_allOnes, BitVec.shiftLeft_zero]

/-- The entry of a store that stays in its doubleword says everything about it. -/
theorem writeTo_commit (hb : w.bytes ∈ SIZES) (h : w.Within) (mem : ByteMem 32) :
    w.commit.writeTo mem = mem.store w.addr w.bytes w.value := by
  have hbase : w.commit.addr.setWidth 32 = w.addr - BitVec.ofNat 32 w.offset := by
    have hle : w.offset ≤ w.addr.toNat := Nat.mod_le ..
    have hlt : w.offset < 2 ^ 32 := by omega
    apply BitVec.eq_of_toNat_eq
    have hsub : w.addr.zeroExtend 64 % 8#64 ≤ w.addr.zeroExtend 64 := by
      rw [BitVec.le_def, toNat_offset]
      rw [BitVec.toNat_setWidth, Nat.mod_eq_of_lt (by omega)]
      exact hle
    have hsub' : BitVec.ofNat 32 w.offset ≤ w.addr := by
      rw [BitVec.le_def, BitVec.toNat_ofNat, Nat.mod_eq_of_lt hlt]
      exact hle
    change ((w.addr.zeroExtend 64 - w.addr.zeroExtend 64 % 8#64).setWidth 32).toNat = _
    rw [BitVec.toNat_setWidth, BitVec.toNat_sub_of_le hsub, BitVec.toNat_sub_of_le hsub',
      toNat_offset, BitVec.toNat_ofNat, Nat.mod_eq_of_lt hlt]
    simp
    omega
  have hin : w.offset + w.bytes ≤ 8 := h
  funext x
  have hdist : (x - w.commit.addr.setWidth 32).toNat = ((x - w.addr).toNat + w.offset) % 2 ^ 32 := by
    have hx : x - w.commit.addr.setWidth 32 = x - w.addr + BitVec.ofNat 32 w.offset := by
      rw [hbase, sub_sub_eq_add_sub, add_sub_right_comm]
    rw [hx, BitVec.toNat_add, BitVec.toNat_ofNat, Nat.add_mod_mod]
  unfold StoreCommit.writeTo ByteMem.writeStrb ByteMem.store
  have hsel : w.commit.mask.getLsbD (x - w.commit.addr.setWidth 32).toNat = true ↔
      (x - w.addr).toNat < w.bytes := by
    rw [commit_mask hb h, BitVec.getLsbD_shiftLeft, getLsbD_ones (by omega), hdist]
    have := (x - w.addr).isLt
    simp
    omega
  generalize (x - w.addr).toNat = e at hdist hsel ⊢
  by_cases hx : e < w.bytes
  · rw [if_pos (hsel.2 hx), if_pos hx]
    have hd : (x - w.commit.addr.setWidth 32).toNat = e + w.offset := by
      rw [hdist]
      omega
    apply BitVec.eq_of_getLsbD_eq
    intro k hk
    rw [ByteMem.getLsbD_lane, ByteMem.getLsbD_lane, commit_data hb h, hd,
      BitVec.getLsbD_shiftLeft, BitVec.getLsbD_and, getLsbD_ones (by omega)]
    have hbit : 8 * (e + w.offset) + k - 8 * w.offset =
        8 * e + k := by omega
    rw [hbit]
    have h1 : 8 * (e + w.offset) + k < 64 := by omega
    have h2 : ¬ 8 * (e + w.offset) + k < 8 * w.offset := by omega
    have h3 : 8 * e + k < 8 * w.bytes := by omega
    simp [h1, h2, h3]
  · rw [if_neg fun hm => hx (hsel.1 hm), if_neg hx]

theorem foldl_writeTo {ws : List Store} (hb : ∀ w ∈ ws, w.bytes ∈ SIZES)
    (h : ∀ w ∈ ws, w.Within) (mem : ByteMem 32) :
    ws.foldl (fun mem w => mem.store w.addr w.bytes w.value) mem =
      (ws.map commit).foldl (fun mem c => c.writeTo mem) mem := by
  induction ws generalizing mem with
  | nil => rfl
  | cons w ws ih =>
    rw [List.foldl_cons, List.map_cons, List.foldl_cons,
      writeTo_commit (hb w List.mem_cons_self) (h w List.mem_cons_self),
      ih (fun w hw => hb w (List.mem_cons_of_mem _ hw))
        fun w hw => h w (List.mem_cons_of_mem _ hw)]

end Store

/-- **The memory of the reference**, as long as its queue has not overflowed: it is what NEMU's stores
made of it, and their entries are those that the core's stores were checked against, in this order,
and those that wait in the queue. Unless a store crosses a doubleword the entries say it all. -/
theorem stores_accounted {n n' : State} {cs : List RefCall} (h : State.calls cs n = some n')
    (hempty : n.storeQueue.Holds []) (hamo : n.amo = false)
    (ho : n'.storeQueue.overflow = false) :
    ∃ (ws : List Store) (l : List StoreCommit), n'.storeQueue.Holds l ∧
      ws.map Store.commit = cs.flatMap RefCall.stores ++ l ∧
      n'.pmem = ws.foldl (fun mem w => mem.store w.addr w.bytes w.value) n.pmem ∧
      ((∀ w ∈ ws, w.Within) → n'.pmem =
        (cs.flatMap RefCall.stores ++ l).foldl (fun mem c => c.writeTo mem) n.pmem) := by
  obtain ⟨ws, l, hsizes, hmem, hl, heq⟩ := (Accounts.calls h).stores hamo ho [] hempty
  refine ⟨ws, l, hl, heq, hmem, fun hin => ?_⟩
  rw [← heq, hmem, List.nil_append]
  exact Store.foldl_writeTo hsizes hin n.pmem

/-- A doubleword is stored. -/
def storing : State where
  regs :=
    { gpr := fun r => if r = 1#5 then 0x1122334455667788#64 else 0x80000100#64
      zeroNull := 0#64
      s0 := 0#64
      s1 := 0#64
      t0 := 0#64 }
  fpr _ := 0#64
  pc := 0x80000000#64
  mode := MODE_M
  amo := false
  lrAddr := 0#64
  lrValid := 0#64
  csrArray _ := 0#64
  s := ⟨0#64, 0#64, 0#32, ⟨.rz, 0#64⟩, ⟨.rz, 0#64⟩, ⟨.rz, 0#64⟩⟩
  -- sd x1, 0(x2)
  pmem := ByteMem.store (fun _ => 0#8) 0x80000000#32 4 0x00113023#32
  storeQueue := ⟨fun _ => ⟨0#64, 0#64, 0#8, false⟩, 0, 0, false⟩
  ifetchMmuState := false
  dataMmuState := false
  nemuState := .stop
  haltPc := 0#64
  haltRet := 0#32

/-- It is executed, and checked. -/
def storingCalls : List RefCall :=
  [.exec, .storeCommit 0x80000100#64 0x1122334455667788#64 0xff#8]

theorem storing_run : ((State.calls storingCalls storing).map fun n => n.storeQueue.overflow) =
    some false := by
  decide +kernel

theorem stores_accounted_storing : ∃ (n : State) (ws : List Store) (l : List StoreCommit),
    State.calls storingCalls storing = some n ∧ n.storeQueue.Holds l ∧
      ws.map Store.commit = storingCalls.flatMap RefCall.stores ++ l ∧
      n.pmem = ws.foldl (fun mem w => mem.store w.addr w.bytes w.value) storing.pmem := by
  obtain ⟨n, hn, ho⟩ := Option.map_eq_some_iff.1 storing_run
  obtain ⟨ws, l, hl, heq, hmem, -⟩ :=
    stores_accounted hn (StoreQueue.Holds.empty (fun _ => rfl) rfl) rfl ho
  exact ⟨n, ws, l, hn, hl, heq, hmem⟩

/-! ## After an overflow -/

theorem State.Stores.queue {m : Storage} {n : State} (h : Stores m n)
    (ho : m.queue.overflow = true) : n.storeQueue = m.queue := by
  obtain ⟨ws, -, hws⟩ := h
  exact (congrArg Storage.queue hws).trans (Storage.queue_foldl ho ws)

/-- Only checks change the queue then. -/
theorem State.call_of_overflow {n n' : State} {c : RefCall} (h : n.call c = some n')
    (ho : n.storeQueue.overflow = true) : n'.storeQueue.overflow = true ∧
      c.stores.length + n'.storeQueue.outstanding = n.storeQueue.outstanding := by
  have hquiet (hs : State.Stores n.storage n') : n'.storeQueue.overflow = true ∧
      0 + n'.storeQueue.outstanding = n.storeQueue.outstanding := by
    have hq : n'.storeQueue = n.storeQueue := hs.queue ho
    rw [hq, Nat.zero_add]
    exact ⟨ho, rfl⟩
  cases c with
  | regcpy dut =>
    obtain rfl := Option.some.inj h
    exact hquiet (.none (State.storage_difftestRegcpy dut))
  | uarchstatusCpy lrscValid lrscAddr =>
    obtain rfl := Option.some.inj h
    exact hquiet (.none rfl)
  | storeCommit addr data mask =>
    have hover := StoreQueue.overflow_check n.storeQueue addr data mask
    have hcount := StoreQueue.outstanding_check n.storeQueue addr data mask
    rcases hcheck : n.storeQueue.check addr data mask with ⟨differs, q⟩
    simp only [State.call, State.difftestStoreCommit, hcheck] at h hover hcount
    cases differs with
    | true => cases h
    | false =>
      obtain rfl : { n with storeQueue := q } = n' := by simpa using h
      exact ⟨hover.trans ho, (Nat.add_comm ..).trans (hcount rfl)⟩
  | exec => exact hquiet (State.stores_cpuExec h)
  | raiseIntr no => exact hquiet (.none (State.storage_difftestRaiseIntr h))

/-- The warning says that the check is off from there on. It goes on, with the entries that are left:
nothing enters the queue any more, whatever NEMU executes, every check that is passed takes an entry
out, and after 48 stores at the latest the check stops the simulation. -/
theorem overflow_stops {n n' : State} {cs : List RefCall} (h : State.calls cs n = some n')
    (ho : n.storeQueue.overflow = true) :
    n'.storeQueue.overflow = true ∧
      (cs.flatMap RefCall.stores).length + n'.storeQueue.outstanding = n.storeQueue.outstanding ∧
      (cs.flatMap RefCall.stores).length ≤ STORE_QUEUE_SIZE := by
  have hrun : n'.storeQueue.overflow = true ∧
      (cs.flatMap RefCall.stores).length + n'.storeQueue.outstanding =
        n.storeQueue.outstanding := by
    induction cs generalizing n with
    | nil =>
      obtain rfl := Option.some.inj h
      simp [ho]
    | cons c cs ih =>
      obtain ⟨n₁, hc, hcs⟩ := Option.bind_eq_some_iff.1 h
      obtain ⟨ho₁, hcount⟩ := State.call_of_overflow hc ho
      obtain ⟨ho', hrest⟩ := ih hcs ho₁
      refine ⟨ho', ?_⟩
      rw [List.flatMap_cons, List.length_append, ← hcount, ← hrest, Nat.add_assoc]
  have hle := n.storeQueue.outstanding_le
  refine ⟨hrun.1, hrun.2, ?_⟩
  have hcount := hrun.2
  omega

/-- The queue is full of one store, and two more are to be executed. -/
def overflowed : State :=
  { storing with
    -- sd x1, 0(x2), twice
    pmem := ByteMem.store (fun _ => 0#8) 0x80000000#32 8 0x0011302300113023#64
    storeQueue := ⟨fun _ => .ofCore 0x80000100#64 7#64 0xff#8, 0, 0, true⟩ }

/-- A check before, between and behind the two stores. -/
def overflowedCalls : List RefCall :=
  [.storeCommit 0x80000100#64 7#64 0xff#8, .exec, .storeCommit 0x80000100#64 7#64 0xff#8, .exec,
    .storeCommit 0x80000100#64 7#64 0xff#8]

theorem overflowed_run : ((State.calls overflowedCalls overflowed).map fun n =>
    (n.pc, ByteMem.load 64 n.pmem 0x80000100#32 8)) = some (0x80000008#64, 0x1122334455667788#64) := by
  decide +kernel

/-- The memory is written, but what is checked are the old entries. -/
theorem overflow_stops_overflowed : ∃ n, State.calls overflowedCalls overflowed = some n ∧
    ByteMem.load 64 n.pmem 0x80000100#32 8 = 0x1122334455667788#64 ∧
      3 + n.storeQueue.outstanding = overflowed.storeQueue.outstanding := by
  obtain ⟨n, hn, hrun⟩ := Option.map_eq_some_iff.1 overflowed_run
  exact ⟨n, hn, congrArg Prod.snd hrun, (overflow_stops hn rfl).2.1⟩

end Oscpu.Nemu
