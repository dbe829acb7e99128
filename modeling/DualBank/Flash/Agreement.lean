import DualBank.Flash.Backend
import DualBank.Flash.Cut
import DualBank.Lib.Run

/-!
# The two backends side by side

The same driver calls on the hardware backend and on the QEMU backend.  The two
agree on erases; they agree on a program operation exactly when the NOR device can
store it, that is, when it only clears bits.  Programming is confined to the windows
that QEMU shadows.
-/

namespace DualBank

open Lib

/-- The calls of the driver that change the flash. -/
inductive FlashOp where
  | eraseSector (sectorStartAddr : Nat)
  | eraseRange (addr size : Nat)
  | programWord (addr : Nat) (value : UInt32)
  | programBytes (addr : Nat) (data : List UInt8)

namespace FlashOp

def onHw : FlashOp → Hw → FlashStatus × Hw
  | eraseSector sectorStartAddr => Hw.flashEraseSector sectorStartAddr
  | eraseRange addr size => Hw.flashEraseRange addr size
  | programWord addr value => Hw.flashProgramWord addr value
  | programBytes addr data => Hw.flashProgramBytes addr data

def onQemu : FlashOp → Qemu → FlashStatus × Qemu
  | eraseSector sectorStartAddr => Qemu.flashEraseSector sectorStartAddr
  | eraseRange addr size => Qemu.flashEraseRange addr size
  | programWord addr value => Qemu.flashProgramWord addr value
  | programBytes addr data => Qemu.flashProgramBytes addr data

/-- The programmed addresses lie in the shadowed windows. -/
def InWindows : FlashOp → Prop
  | eraseSector _ => True
  | eraseRange _ _ => True
  | programWord addr _ => ∀ i < 4, shadowBytePtr (addr + i) ≠ none
  | programBytes addr data => ∀ i < data.length, shadowBytePtr (addr + i) ≠ none

/-- The call asks for no bit to be set: an erase does not program, and a misaligned
word is refused. -/
def Storable (m : Mem) : FlashOp → Prop
  | eraseSector _ => True
  | eraseRange _ _ => True
  | programWord addr value => addr % 4 = 0 → m.Clears addr (bytes32 value)
  | programBytes addr data => m.Clears addr data

end FlashOp

/-- A call that programs nothing outside the windows. -/
abbrev WindowOp := { op : FlashOp // op.InWindows }

/-- Two devices without faults that hold the same bytes in the windows. -/
structure Agree (s : Hw) (t : Qemu) : Prop where
  hw : s.Healthy
  qemu : t.Healthy
  windows : ∀ x, shadowBytePtr x ≠ none → s.mem x = t.byte x

/-- The call on both devices. -/
def stepBoth (p : Hw × Qemu) (op : WindowOp) : Hw × Qemu :=
  ((op.1.onHw p.1).2, (op.1.onQemu p.2).2)

/-- The call returns the same status on both devices and leaves the same bytes in the
windows. -/
def SameOutcome (p : Hw × Qemu) (op : WindowOp) : Prop :=
  (op.1.onHw p.1).1 = (op.1.onQemu p.2).1 ∧
    ∀ x, shadowBytePtr x ≠ none → (stepBoth p op).1.mem x = (stepBoth p op).2.byte x

/-! ## Erases -/

theorem Agree.eraseSector (a : Nat) {s : Hw} {t : Qemu} (h : Agree s t) :
    (Hw.flashEraseSector a s).1 = (Qemu.flashEraseSector a t).1 ∧
      Agree (Hw.flashEraseSector a s).2 (Qemu.flashEraseSector a t).2 := by
  by_cases ha : ∃ i < 12, kSectorStart i = a
  · obtain ⟨i, hi, rfl⟩ := ha
    obtain ⟨hok, hh, hm⟩ := Hw.flashEraseSector_of_healthy hi h.hw
    have he := Qemu.eraseBytes_of_healthy (kSectorStart i) (kSectorSize i) h.qemu
    rw [Qemu.flashEraseSector_eq hi]
    refine ⟨hok, hh, he.1, fun x hx ↦ ?_⟩
    rw [hm]
    by_cases hmem : kSectorStart i ≤ x ∧ x < kSectorStart i + kSectorSize i
    · rw [Mem.fill_of_mem _ _ hmem.1 hmem.2, he.2 x hmem.1 hmem.2 hx]
    · rw [Mem.fill_of_notMem _ _ (by omega), Qemu.eraseBytes_frame _ _ _ (by omega),
        h.windows x hx]
  · have hne : ∀ i < 12, kSectorStart i ≠ a := fun i hi e ↦ ha ⟨i, hi, e⟩
    rw [Hw.flashEraseSector_refuses a s hne, Qemu.flashEraseSector_refuses a t hne]
    exact ⟨rfl, h⟩

theorem Agree.eraseRange (addr size : Nat) {s : Hw} {t : Qemu} (h : Agree s t) :
    (Hw.flashEraseRange addr size s).1 = (Qemu.flashEraseRange addr size t).1 ∧
      Agree (Hw.flashEraseRange addr size s).2 (Qemu.flashEraseRange addr size t).2 :=
  eraseRangeWith_sim (fun a _ _ h ↦ h.eraseSector a) addr size h

/-! ## Programming -/

/-- Two program operations of the same bytes, the one on QEMU with success. -/
theorem Agree.program (addr : Nat) (data : List UInt8) {s s' : Hw} {t t' : Qemu}
    (h : Agree s t) (hs' : s'.Healthy) (ht' : t'.Healthy)
    (hs : s'.mem.read addr data.length = data) (ht : t'.byte.read addr data.length = data)
    (hfs : ∀ x, x < addr ∨ addr + data.length ≤ x → s'.mem x = s.mem x)
    (hft : ∀ x, x < addr ∨ addr + data.length ≤ x → t'.byte x = t.byte x) : Agree s' t' where
  hw := hs'
  qemu := ht'
  windows x hx := by
    by_cases hmem : x < addr ∨ addr + data.length ≤ x
    · rw [hfs x hmem, hft x hmem, h.windows x hx]
    · obtain ⟨i, rfl⟩ := Nat.exists_eq_add_of_le (show addr ≤ x by omega)
      have hi : i < data.length := by omega
      rw [Mem.read_eq_iff.1 hs i hi, Mem.read_eq_iff.1 ht i hi]

theorem Agree.programBytes {addr : Nat} (data : List UInt8) {s : Hw} {t : Qemu} (h : Agree s t)
    (hw : ∀ i < data.length, shadowBytePtr (addr + i) ≠ none) :
    (Qemu.flashProgramBytes addr data t).1 = .ok ∧
      (s.mem.Clears addr data →
        Agree (Hw.flashProgramBytes addr data s).2 (Qemu.flashProgramBytes addr data t).2) := by
  have hq : (Qemu.flashProgramBytes addr data t).2.Healthy :=
    (Qemu.programLoop_of_healthy h.qemu).1
  have hok : (Qemu.flashProgramBytes addr data t).1 = .ok :=
    (Qemu.programLoop_of_healthy h.qemu).2 hw
  refine ⟨hok, fun hc ↦ ?_⟩
  exact h.program addr data (Hw.flashProgramBytes_of_healthy h.hw).1 hq
    (Hw.flashProgramBytes_read ((Hw.flashProgramBytes_ok_iff h.hw).2 hc))
    (Qemu.programLoop_read hok) (Hw.flashProgramBytes_frame addr data s)
    fun x hx ↦ Qemu.programLoop_frame addr data t hx

theorem Agree.programWord {addr : Nat} (value : UInt32) {s : Hw} {t : Qemu} (h : Agree s t)
    (hw : ∀ i < 4, shadowBytePtr (addr + i) ≠ none) (ha : addr % 4 = 0) :
    (Qemu.flashProgramWord addr value t).1 = .ok ∧
      (s.mem.Clears addr (bytes32 value) →
        Agree (Hw.flashProgramWord addr value s).2 (Qemu.flashProgramWord addr value t).2) := by
  have hq : (Qemu.flashProgramWord addr value t).2.Healthy :=
    (Qemu.flashProgramWord_of_healthy value h.qemu).1
  have hok : (Qemu.flashProgramWord addr value t).1 = .ok :=
    (Qemu.flashProgramWord_of_healthy value h.qemu).2 ha hw
  refine ⟨hok, fun hc ↦ ?_⟩
  exact h.program addr (bytes32 value) (h.hw.flashProgramWord addr value) hq
    (Hw.flashProgramWord_read ((Hw.flashProgramWord_ok_iff h.hw ha).2 hc))
    (Qemu.flashProgramWord_read hok) (Hw.flashProgramWord_frame addr value s)
    fun x hx ↦ Qemu.flashProgramWord_frame addr value t hx

/-! ## Runs -/

/-- One call: the outcomes are the same exactly when the call only clears bits, and
then the devices still agree. -/
theorem Agree.step {p : Hw × Qemu} (h : Agree p.1 p.2) (op : WindowOp) :
    (op.1.Storable p.1.mem ↔ SameOutcome p op) ∧
      (op.1.Storable p.1.mem → Agree (stepBoth p op).1 (stepBoth p op).2) := by
  obtain ⟨s, t⟩ := p
  obtain ⟨op, hop⟩ := op
  cases op with
  | eraseSector a =>
      obtain ⟨hst, hagree⟩ := h.eraseSector a
      exact ⟨⟨fun _ ↦ ⟨hst, hagree.windows⟩, fun _ ↦ trivial⟩, fun _ ↦ hagree⟩
  | eraseRange addr size =>
      obtain ⟨hst, hagree⟩ := h.eraseRange addr size
      exact ⟨⟨fun _ ↦ ⟨hst, hagree.windows⟩, fun _ ↦ trivial⟩, fun _ ↦ hagree⟩
  | programWord addr value =>
      by_cases ha : addr % 4 = 0
      · obtain ⟨hok, hagree⟩ := h.programWord value hop ha
        refine ⟨⟨fun hc ↦ ⟨?_, (hagree (hc ha)).windows⟩, fun ho _ ↦ ?_⟩, fun hc ↦ hagree (hc ha)⟩
        · exact ((Hw.flashProgramWord_ok_iff h.hw ha).2 (hc ha)).trans hok.symm
        · exact (Hw.flashProgramWord_ok_iff h.hw ha).1 (ho.1.trans hok)
      · -- a misaligned word is refused by both
        have hs : Hw.flashProgramWord addr value s = (.errRange, s) := if_pos ha
        have ht : Qemu.flashProgramWord addr value t = (.errRange, t) := if_pos ha
        have hagree : Agree (Hw.flashProgramWord addr value s).2
            (Qemu.flashProgramWord addr value t).2 := by rw [hs, ht]; exact h
        have hst : (Hw.flashProgramWord addr value s).1 =
            (Qemu.flashProgramWord addr value t).1 := by rw [hs, ht]
        exact ⟨⟨fun _ ↦ ⟨hst, hagree.windows⟩, fun _ e ↦ absurd e ha⟩, fun _ ↦ hagree⟩
  | programBytes addr data =>
      obtain ⟨hok, hagree⟩ := h.programBytes data hop
      refine ⟨⟨fun hc ↦ ⟨?_, (hagree hc).windows⟩, fun ho ↦ ?_⟩, hagree⟩
      · exact ((Hw.flashProgramBytes_ok_iff h.hw).2 hc).trans hok.symm
      · exact (Hw.flashProgramBytes_ok_iff h.hw).1 (ho.1.trans hok)

/-- **The backends agree** on a run of calls, from equal windows and without faults,
exactly when every program operation of the run only clears bits. -/
theorem backends_agree_iff {s : Hw} {t : Qemu} (h : Agree s t) (ops : List WindowOp) :
    Along stepBoth SameOutcome (s, t) ops ↔
      Along stepBoth (fun p op ↦ op.1.Storable p.1.mem) (s, t) ops :=
  (along_iff_of_inv (I := fun p ↦ Agree p.1 p.2) (fun _ op h ↦ (h.step op).1)
    (fun _ op h hc ↦ (h.step op).2 hc) h).symm

/-! ## Erased and programmed flash -/

/-- The two devices with the given content everywhere. -/
def filledBoth (b : UInt8) : Hw × Qemu :=
  (.reset fun _ ↦ b, ⟨fun _ ↦ b, qemuShadowMagic, fun _ _ ↦ b, none⟩)

theorem agree_filledBoth (b : UInt8) : Agree (filledBoth b).1 (filledBoth b).2 where
  hw := Hw.healthy_reset _
  qemu := ⟨rfl, rfl⟩
  windows x _ := by
    unfold filledBoth Qemu.byte
    dsimp only
    split <;> rfl

/-- One byte at the start of slot B. -/
def storeSlotB (b : UInt8) : WindowOp :=
  ⟨.programBytes slotBAddr [b], fun i hi ↦ by
    have h0 : i = 0 := by simpa using hi
    subst h0
    decide⟩

/-- The first sector of slot B is erased, and a word, some bytes and another word are stored. -/
def eraseAndStore : List WindowOp :=
  [⟨.eraseSector (kSectorStart 8), trivial⟩,
    ⟨.programWord slotBAddr 0xDEADBEEF, by unfold FlashOp.InWindows; decide⟩,
    ⟨.programBytes (slotBAddr + 4) [1, 0, 0, 0, 0, 1, 0, 0], by unfold FlashOp.InWindows; decide⟩,
    ⟨.programWord (slotBAddr + 12) 0x00010000, by unfold FlashOp.InWindows; decide⟩]

/-- The first bytes of slot B are erased from the `n`-th on. -/
def ErasedFrom (n : Nat) (s : Hw) : Prop := ∀ i, n ≤ i → i < 16 → s.mem (slotBAddr + i) = 0xFF

theorem ErasedFrom.clears {n : Nat} {s : Hw} (h : ErasedFrom n s) {data : List UInt8}
    (hlen : n + data.length ≤ 16) : s.mem.Clears (slotBAddr + n) data := by
  intro i hi
  rw [Nat.add_assoc, h (n + i) (Nat.le_add_right _ _) (by omega)]
  exact UInt8.neg_one_and

theorem ErasedFrom.frame {n m : Nat} {s s' : Hw} (h : ErasedFrom n s)
    (hfr : Hw.Frame (slotBAddr + n) (slotBAddr + m) s s') (hm : n ≤ m) : ErasedFrom m s' := by
  intro i hi hlt
  rw [hfr _ (.inr (Nat.add_le_add_left hi _))]
  exact h i (Nat.le_trans hm hi) hlt

theorem erasedFrom_eraseSector {s : Hw} (h : s.Healthy) :
    ErasedFrom 0 (Hw.flashEraseSector (kSectorStart 8) s).2 := by
  intro i _ hi
  rw [(Hw.flashEraseSector_of_healthy (by decide) h).2.2]
  exact Mem.fill_of_mem _ _ (Nat.le_trans (by decide) (Nat.le_add_right _ i))
    (Nat.lt_of_lt_of_le (Nat.add_lt_add_left hi _) (by decide))

/-- Over programmed flash both store once the sector is erased. -/
theorem agree_on_erased :
    Along stepBoth SameOutcome ((filledBoth 0).1, (filledBoth 0).2) eraseAndStore := by
  refine (backends_agree_iff (agree_filledBoth 0) _).2 ?_
  have h₁ := erasedFrom_eraseSector (s := (filledBoth 0).1) (Hw.healthy_reset _)
  have h₂ := h₁.frame (Hw.flashProgramWord_frame slotBAddr 0xDEADBEEF _) (by decide)
  have h₃ := h₂.frame (m := 12)
    (Hw.flashProgramBytes_frame (slotBAddr + 4) [1, 0, 0, 0, 0, 1, 0, 0] _) (by decide)
  exact ⟨trivial, fun _ ↦ h₁.clears (by decide), h₂.clears (by decide),
    fun _ ↦ h₃.clears (by decide), trivial⟩

/-- Over a programmed byte the NOR device fails its readback, while QEMU stores. -/
theorem disagree_on_programmed :
    Agree (filledBoth 0).1 (filledBoth 0).2 ∧
      ¬Along stepBoth SameOutcome (filledBoth 0) [storeSlotB 0x5A] := by
  refine ⟨agree_filledBoth 0, fun h ↦ ?_⟩
  have hc := ((agree_filledBoth 0).step (storeSlotB 0x5A)).1.2 h.1 0 (by decide)
  exact absurd hc (by decide)

end DualBank
