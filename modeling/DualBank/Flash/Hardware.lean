import Mathlib.Data.List.Basic
import DualBank.Flash.Sectors
import DualBank.Lib.Bytes

/-!
# Hardware flash backend

The STM32F4 branch of `bootloader/src/flash_driver.c`, over a device state made of
the memory-mapped flash, the fields of `FLASH_CR` that the driver touches, and two
inputs from outside: what the coming busy waits report, and how long the supply
lasts.

* An erase sets a whole sector to `0xFF` in one step; a store clears bits (NOR), a
  word store being four byte steps, least significant byte first.
* `busy` lists what the coming calls of `wait_busy` find; an empty list is a
  controller that is idle and reports no error.
* `power` counts the steps (sector erases and programmed bytes) before the supply
  fails; from then on nothing changes the flash.  `none` is a supply that lasts.

The watchdog kicks of the loops have no effect here and are left out.
-/

namespace DualBank

open Lib

/-- The fields of `FLASH_CR` that the driver reads or writes.  `STRT` is not kept:
the controller clears it when the operation it starts is over. -/
structure FlashCr where
  pg : Bool
  ser : Bool
  snb : BitVec 4
  psize : BitVec 2
  lock : Bool
deriving DecidableEq, Repr

/-- What one busy wait on `FLASH_SR` ends in. -/
inductive BusyOutcome where
  | idle
  | error
  | timeout
deriving DecidableEq, Repr

/-- The flash device of the hardware build. -/
structure Hw where
  mem : Mem
  cr : FlashCr
  busy : List BusyOutcome
  power : Option Nat

namespace Hw

/-- A device out of reset, with the given flash content and no faults to come. -/
def reset (mem : Mem) : Hw := ⟨mem, ⟨false, false, 0, 0, true⟩, [], none⟩

/-- One step that changes the flash, if there is supply for it. -/
def pulse (f : Mem → Mem) (s : Hw) : Hw :=
  match s.power with
  | none => { s with mem := f s.mem }
  | some 0 => s
  | some (n + 1) => { s with mem := f s.mem, power := some n }

/-- A byte store: NOR programming only clears bits. -/
def storeByte (addr : Nat) (b : UInt8) (s : Hw) : Hw :=
  s.pulse fun m ↦ Function.update m addr (m addr &&& b)

/-- The byte stores that make up a store of several bytes. -/
def storeBytes (addr : Nat) : List UInt8 → Hw → Hw
  | [], s => s
  | b :: bs, s => storeBytes (addr + 1) bs (s.storeByte addr b)

/-- `PSIZE_X32`, which the driver only ever ors into the register. -/
def psizeX32 : BitVec 2 := 2

def waitBusy (s : Hw) : FlashStatus × Hw :=
  match s.busy with
  | [] => (.ok, s)
  | .idle :: rest => (.ok, { s with busy := rest })
  | .error :: rest => (.errProg, { s with busy := rest })
  | .timeout :: rest => (.errBusy, { s with busy := rest })

/-- A write of `FLASH_CR` that computes the new value from the old one. -/
def modifyCr (f : FlashCr → FlashCr) (s : Hw) : Hw := { s with cr := f s.cr }

/-- The two key writes: they clear `LOCK`. -/
def writeKeys (s : Hw) : Hw := s.modifyCr fun cr ↦ { cr with lock := false }

def flashUnlock (s : Hw) : FlashStatus × Hw :=
  if s.cr.lock = false then (.ok, s)
  else
    let s := s.writeKeys
    if s.cr.lock then (.errLocked, s) else (.ok, s)

def flashLock (s : Hw) : Hw := s.modifyCr fun cr ↦ { cr with lock := true }

/-- `flash_init` only clears error flags. -/
def flashInit (s : Hw) : Hw := s

def flashOtaSlotSpan : Nat := slotSize

/-- The readback check of an erase. -/
def isErased (m : Mem) (start size : Nat) : Bool :=
  (List.range size).all fun i ↦ m (start + i) == 0xFF

def flashEraseSector (sectorStartAddr : Nat) (s : Hw) : FlashStatus × Hw :=
  match sectorIndexForAddr sectorStartAddr with
  | none => (.errRange, s)
  | some idx =>
    if kSectorStart idx ≠ sectorStartAddr then (.errRange, s)
    else match s.waitBusy with
      | (.ok, s) =>
        match s.flashUnlock with
        | (.ok, s) =>
          let s := s.modifyCr fun cr ↦
            { cr with pg := false, ser := true, snb := idx, psize := cr.psize ||| psizeX32 }
          let s := s.pulse fun m ↦
            m.fill sectorStartAddr (sectorStartAddr + kSectorSize idx) 0xFF
          let (st, s) := s.waitBusy
          let s := s.modifyCr fun cr ↦ { cr with ser := false, snb := 0 }
          if st = .ok then
            (if isErased s.mem sectorStartAddr (kSectorSize idx) then .ok else .errVerify, s)
          else (st, s)
        | (st, s) => (st, s)
      | (st, s) => (st, s)

def flashEraseRange (addr size : Nat) (s : Hw) : FlashStatus × Hw :=
  eraseRangeWith flashEraseSector addr size s

def flashProgramWord (addr : Nat) (value : UInt32) (s : Hw) : FlashStatus × Hw :=
  if addr % 4 ≠ 0 then (.errRange, s)
  else match s.waitBusy with
    | (.ok, s) =>
      match s.flashUnlock with
      | (.ok, s) =>
        let s := s.modifyCr fun cr ↦
          { cr with ser := false, pg := true, psize := cr.psize ||| psizeX32 }
        let s := s.storeBytes addr (bytes32 value)
        let (st, s) := s.waitBusy
        let s := s.modifyCr fun cr ↦ { cr with pg := false }
        if st = .ok ∧ s.mem.read addr 4 ≠ bytes32 value then (.errVerify, s) else (st, s)
      | (st, s) => (st, s)
    | (st, s) => (st, s)

/-- The byte phase of `flash_program_bytes`, for the tail that no word store covers. -/
def programTail (addr : Nat) : List UInt8 → Hw → FlashStatus × Hw
  | [], s => (.ok, s.flashLock)
  | b :: bs, s =>
    match s.waitBusy with
    | (.ok, s) =>
      let s := s.modifyCr fun cr ↦ { cr with ser := false, pg := true }
      let s := s.storeByte addr b
      let (st, s) := s.waitBusy
      let s := s.modifyCr fun cr ↦ { cr with pg := false }
      if st ≠ .ok then (st, s.flashLock)
      else if s.mem addr ≠ b then (.errVerify, s.flashLock)
      else programTail (addr + 1) bs s
    | (st, s) => (st, s.flashLock)

/-- The word phase of `flash_program_bytes`: as long as four bytes are left and
the address is aligned. -/
def programWords (addr : Nat) : List UInt8 → Hw → FlashStatus × Hw
  | b₀ :: b₁ :: b₂ :: b₃ :: bs, s =>
    if addr % 4 = 0 then
      match s.flashProgramWord addr (le32 b₀ b₁ b₂ b₃) with
      | (.ok, s) => programWords (addr + 4) bs s
      | (st, s) => (st, s.flashLock)
    else programTail addr (b₀ :: b₁ :: b₂ :: b₃ :: bs) s
  | bs, s => programTail addr bs s

def flashProgramBytes (addr : Nat) (data : List UInt8) (s : Hw) : FlashStatus × Hw :=
  match s.flashUnlock with
  | (.ok, s) => programWords addr data s
  | (st, s) => (st, s)

/-! ## Primitive steps -/

/-- A controller without faults on a supply that lasts. -/
def Healthy (s : Hw) : Prop := s.busy = [] ∧ s.power = none

theorem healthy_reset (mem : Mem) : (reset mem).Healthy := ⟨rfl, rfl⟩

/-- `s'` differs from `s` in the flash only inside `[lo, hi)`. -/
def Frame (lo hi : Nat) (s s' : Hw) : Prop :=
  ∀ x, x < lo ∨ hi ≤ x → s'.mem x = s.mem x

theorem Frame.refl (lo hi : Nat) (s : Hw) : Frame lo hi s s := fun _ _ ↦ rfl

theorem Frame.trans {lo hi : Nat} {s₁ s₂ s₃ : Hw} (h : Frame lo hi s₁ s₂)
    (h' : Frame lo hi s₂ s₃) : Frame lo hi s₁ s₃ := fun x hx ↦ (h' x hx).trans (h x hx)

theorem Frame.mono {lo hi lo' hi' : Nat} {s s' : Hw} (h : Frame lo hi s s') (h₁ : lo' ≤ lo)
    (h₂ : hi ≤ hi') : Frame lo' hi' s s' := fun x hx ↦ h x (by omega)

theorem pulse_frame {lo hi : Nat} {f : Mem → Mem} (s : Hw)
    (hf : ∀ m x, x < lo ∨ hi ≤ x → f m x = m x) : Frame lo hi s (s.pulse f) := by
  intro x hx
  unfold pulse
  split
  · exact hf _ _ hx
  · rfl
  · exact hf _ _ hx

theorem pulse_of_healthy {f : Mem → Mem} {s : Hw} (h : s.Healthy) :
    s.pulse f = { s with mem := f s.mem } := by
  unfold pulse; rw [h.2]

theorem storeByte_frame (addr : Nat) (b : UInt8) (s : Hw) :
    Frame addr (addr + 1) s (s.storeByte addr b) :=
  pulse_frame s fun m x hx ↦ Function.update_of_ne (by omega) _ _

theorem storeBytes_frame (addr : Nat) (bs : List UInt8) (s : Hw) :
    Frame addr (addr + bs.length) s (s.storeBytes addr bs) := by
  induction bs generalizing addr s with
  | nil => exact Frame.refl _ _ s
  | cons b bs ih =>
      refine Frame.trans ((storeByte_frame addr b s).mono (Nat.le_refl _) ?_)
        ((ih (addr + 1) (s.storeByte addr b)).mono (by omega) ?_)
      all_goals simp only [List.length_cons]; omega

theorem storeBytes_of_powered {addr : Nat} {bs : List UInt8} {s : Hw} (h : s.power = none) :
    s.storeBytes addr bs = { s with mem := s.mem.program addr bs } := by
  induction bs generalizing addr s with
  | nil => rfl
  | cons b bs ih =>
      have hb : s.storeByte addr b =
          { s with mem := Function.update s.mem addr (s.mem addr &&& b) } := by
        unfold storeByte pulse
        rw [h]
      rw [storeBytes, hb]
      exact ih h

theorem storeBytes_of_healthy {addr : Nat} {bs : List UInt8} {s : Hw} (h : s.Healthy) :
    s.storeBytes addr bs = { s with mem := s.mem.program addr bs } :=
  storeBytes_of_powered h.2

@[simp] theorem modifyCr_mem (f : FlashCr → FlashCr) (s : Hw) : (s.modifyCr f).mem = s.mem := rfl

@[simp] theorem flashLock_mem (s : Hw) : s.flashLock.mem = s.mem := rfl

@[simp] theorem pulse_modifyCr_mem (g : Mem → Mem) (f : FlashCr → FlashCr) (s : Hw) :
    ((s.modifyCr f).pulse g).mem = (s.pulse g).mem := by
  unfold pulse modifyCr; dsimp only; split <;> rfl

@[simp] theorem waitBusy_mem (s : Hw) : s.waitBusy.2.mem = s.mem := by
  unfold waitBusy; split <;> rfl

@[simp] theorem waitBusy_cr (s : Hw) : s.waitBusy.2.cr = s.cr := by
  unfold waitBusy; split <;> rfl

@[simp] theorem pulse_cr (f : Mem → Mem) (s : Hw) : (s.pulse f).cr = s.cr := by
  unfold pulse; split <;> rfl

@[simp] theorem modifyCr_cr (f : FlashCr → FlashCr) (s : Hw) : (s.modifyCr f).cr = f s.cr := rfl

@[simp] theorem storeBytes_cr (addr : Nat) (bs : List UInt8) (s : Hw) :
    (s.storeBytes addr bs).cr = s.cr := by
  induction bs generalizing addr s with
  | nil => rfl
  | cons b bs ih => rw [storeBytes, ih, storeByte, pulse_cr]

theorem Healthy.modifyCr {s : Hw} (h : s.Healthy) (f : FlashCr → FlashCr) :
    (s.modifyCr f).Healthy := h

theorem Healthy.writeKeys {s : Hw} (h : s.Healthy) : s.writeKeys.Healthy := h

theorem Healthy.pulse {s : Hw} (h : s.Healthy) (f : Mem → Mem) : (s.pulse f).Healthy := by
  rw [pulse_of_healthy h]; exact h

theorem Healthy.storeBytes {s : Hw} (h : s.Healthy) (addr : Nat) (bs : List UInt8) :
    (s.storeBytes addr bs).Healthy := by
  rw [storeBytes_of_healthy h]; exact h

theorem waitBusy_of_healthy {s : Hw} (h : s.Healthy) : s.waitBusy = (.ok, s) := by
  unfold waitBusy; rw [h.1]

/-- Unlocking always succeeds and leaves the lock bit clear. -/
theorem flashUnlock_eq (s : Hw) : s.flashUnlock = (.ok, s.writeKeys) := by
  unfold flashUnlock
  split_ifs with h
  · obtain ⟨m, ⟨pg, ser, snb, psize, lock⟩, busy, power⟩ := s
    cases h
    rfl
  · rfl

theorem isErased_iff {m : Mem} {start size : Nat} :
    isErased m start size = true ↔ ∀ x, start ≤ x → x < start + size → m x = 0xFF := by
  simp only [isErased, List.all_eq_true, List.mem_range, beq_iff_eq]
  constructor
  · intro h x h₁ h₂
    have := h (x - start) (by omega)
    rwa [Nat.add_sub_cancel' h₁] at this
  · exact fun h i hi ↦ h _ (by omega) (by omega)

/-! ## Sector erase -/

theorem flashEraseSector_refuses : RefusesUnaligned flashEraseSector := by
  intro a s ha
  unfold flashEraseSector
  split
  · rfl
  · rename_i idx hidx
    rw [if_pos (ha idx (sectorIndexForAddr_lt hidx))]

/-- The part of a sector erase up to the second busy wait. -/
def startErase (i : Nat) (s : Hw) : Hw :=
  (s.writeKeys.modifyCr fun cr ↦
    { cr with pg := false, ser := true, snb := i, psize := cr.psize ||| psizeX32 }).pulse
      fun m ↦ m.fill (kSectorStart i) (kSectorStart i + kSectorSize i) 0xFF

/-- The part of a sector erase after the second busy wait. -/
def finishErase (i : Nat) (w : FlashStatus × Hw) : FlashStatus × Hw :=
  let s := w.2.modifyCr fun cr ↦ { cr with ser := false, snb := 0 }
  if w.1 = .ok then
    (if isErased s.mem (kSectorStart i) (kSectorSize i) then .ok else .errVerify, s)
  else (w.1, s)

theorem flashEraseSector_eq {i : Nat} (hi : i < 12) (s : Hw) :
    flashEraseSector (kSectorStart i) s =
      if s.waitBusy.1 = .ok then finishErase i (startErase i s.waitBusy.2).waitBusy
      else s.waitBusy := by
  unfold flashEraseSector
  rw [sectorIndexForAddr_kSectorStart hi]
  simp only [ne_eq, not_true_eq_false, if_false, flashUnlock_eq]
  split
  · rename_i s₁ h
    rw [h, if_pos rfl]
    rfl
  · rename_i st s₁ hne h
    rw [h, if_neg fun e ↦ hne e]

@[simp] theorem finishErase_mem (i : Nat) (w : FlashStatus × Hw) :
    (finishErase i w).2.mem = w.2.mem := by
  unfold finishErase; dsimp only; split_ifs <;> rfl

/-- Erasing a sector changes no byte outside it, whatever the controller reports. -/
theorem flashEraseSector_frame {i : Nat} (hi : i < 12) (s : Hw) :
    Frame (kSectorStart i) (kSectorStart i + kSectorSize i) s
      (flashEraseSector (kSectorStart i) s).2 := by
  rw [flashEraseSector_eq hi]
  intro x hx
  split_ifs
  · have h := pulse_frame s.waitBusy.2
      (f := fun m ↦ m.fill (kSectorStart i) (kSectorStart i + kSectorSize i) 0xFF)
      (fun m y hy ↦ Mem.fill_of_notMem m _ hy) x hx
    simpa [startErase, writeKeys] using h
  · rw [waitBusy_mem]

theorem flashEraseSector_of_healthy {i : Nat} (hi : i < 12) {s : Hw} (h : s.Healthy) :
    (flashEraseSector (kSectorStart i) s).1 = .ok ∧
      (flashEraseSector (kSectorStart i) s).2.Healthy ∧
      (flashEraseSector (kSectorStart i) s).2.mem =
        s.mem.fill (kSectorStart i) (kSectorStart i + kSectorSize i) 0xFF := by
  have hs : (startErase i s).Healthy := (h.writeKeys.modifyCr _).pulse _
  have hm : (startErase i s).mem =
      s.mem.fill (kSectorStart i) (kSectorStart i + kSectorSize i) 0xFF := by
    rw [startErase, pulse_of_healthy (h.writeKeys.modifyCr _)]
    rfl
  rw [flashEraseSector_eq hi, waitBusy_of_healthy h, if_pos rfl, waitBusy_of_healthy hs,
    finishErase, if_pos rfl, if_pos]
  · exact ⟨rfl, hs, hm⟩
  · rw [modifyCr_mem, hm]
    exact isErased_iff.2 fun x h₁ h₂ ↦ Mem.fill_of_mem _ _ h₁ h₂

/-! ## Programming a word -/

/-- The part of a word store up to the second busy wait. -/
def startWord (addr : Nat) (value : UInt32) (s : Hw) : Hw :=
  (s.writeKeys.modifyCr fun cr ↦
    { cr with ser := false, pg := true, psize := cr.psize ||| psizeX32 }).storeBytes addr
      (bytes32 value)

/-- The part of a word store after the second busy wait. -/
def finishWord (addr : Nat) (value : UInt32) (w : FlashStatus × Hw) : FlashStatus × Hw :=
  let s := w.2.modifyCr fun cr ↦ { cr with pg := false }
  if w.1 = .ok ∧ s.mem.read addr 4 ≠ bytes32 value then (.errVerify, s) else (w.1, s)

theorem flashProgramWord_eq (addr : Nat) (value : UInt32) (s : Hw) :
    flashProgramWord addr value s =
      if addr % 4 ≠ 0 then (.errRange, s)
      else if s.waitBusy.1 = .ok then
        finishWord addr value (startWord addr value s.waitBusy.2).waitBusy
      else s.waitBusy := by
  unfold flashProgramWord
  simp only [flashUnlock_eq]
  split_ifs with h₁ h₂
  · rfl
  · split
    · rename_i s₁ h
      rw [h]
      rfl
    · rename_i st s₁ hne h
      exact absurd (by rw [h] at h₂; exact h₂) hne
  · split
    · rename_i s₁ h
      exact absurd (by rw [h]) h₂
    · rename_i st s₁ hne h
      rw [h]

@[simp] theorem finishWord_mem (addr : Nat) (value : UInt32) (w : FlashStatus × Hw) :
    (finishWord addr value w).2.mem = w.2.mem := by
  unfold finishWord; dsimp only; split_ifs <;> rfl

theorem startWord_frame (addr : Nat) (value : UInt32) (s : Hw) :
    Frame addr (addr + 4) s (startWord addr value s) :=
  storeBytes_frame addr (bytes32 value) (s.writeKeys.modifyCr _)

/-- Programming a word changes only its four bytes. -/
theorem flashProgramWord_frame (addr : Nat) (value : UInt32) (s : Hw) :
    Frame addr (addr + 4) s (flashProgramWord addr value s).2 := by
  rw [flashProgramWord_eq]
  intro x hx
  split_ifs
  · rfl
  · rw [finishWord_mem, waitBusy_mem, startWord_frame addr value _ x hx, waitBusy_mem]
  · rw [waitBusy_mem]

/-- A word store that reports success is readable back. -/
theorem flashProgramWord_read {addr : Nat} {value : UInt32} {s : Hw}
    (h : (flashProgramWord addr value s).1 = .ok) :
    (flashProgramWord addr value s).2.mem.read addr 4 = bytes32 value := by
  rw [flashProgramWord_eq] at h ⊢
  split_ifs at h ⊢ with h₁ h₂
  · unfold finishWord at h ⊢
    dsimp only at h ⊢
    split_ifs at h ⊢ with h₃
    exact not_not.mp fun hne ↦ h₃ ⟨h, hne⟩
  · exact absurd h h₂

theorem flashProgramWord_of_healthy {addr : Nat} (value : UInt32) {s : Hw} (h : s.Healthy)
    (ha : addr % 4 = 0) (hc : s.mem.Clears addr (bytes32 value)) :
    (flashProgramWord addr value s).1 = .ok := by
  have hs : (startWord addr value s).Healthy := (h.writeKeys.modifyCr _).storeBytes _ _
  have hm : (startWord addr value s).mem = s.mem.program addr (bytes32 value) := by
    rw [startWord, storeBytes_of_healthy (h.writeKeys.modifyCr _)]
    rfl
  rw [flashProgramWord_eq, if_neg (by omega), waitBusy_of_healthy h, if_pos rfl,
    waitBusy_of_healthy hs, finishWord, if_neg]
  rintro ⟨-, hne⟩
  have hlen : (bytes32 value).length = 4 := length_bytes32 value
  rw [modifyCr_mem, hm, ← hlen] at hne
  exact hne (Mem.clears_iff_read_program.1 hc)

theorem Healthy.flashProgramWord {s : Hw} (h : s.Healthy) (addr : Nat) (value : UInt32) :
    (flashProgramWord addr value s).2.Healthy := by
  have hs : (startWord addr value s).Healthy := (h.writeKeys.modifyCr _).storeBytes _ _
  rw [flashProgramWord_eq, waitBusy_of_healthy h, if_pos rfl, waitBusy_of_healthy hs]
  unfold finishWord
  dsimp only
  split_ifs <;> first | exact h | exact hs

/-! ## Programming bytes -/

/-- The part of a byte store up to the second busy wait. -/
def startByte (addr : Nat) (b : UInt8) (s : Hw) : Hw :=
  (s.modifyCr fun cr ↦ { cr with ser := false, pg := true }).storeByte addr b

/-- The device after the second busy wait of a byte store. -/
def afterByte (w : FlashStatus × Hw) : Hw := w.2.modifyCr fun cr ↦ { cr with pg := false }

theorem programTail_cons (addr : Nat) (b : UInt8) (bs : List UInt8) (s : Hw) :
    programTail addr (b :: bs) s =
      if s.waitBusy.1 = .ok then
        let w := (startByte addr b s.waitBusy.2).waitBusy
        if w.1 ≠ .ok then (w.1, (afterByte w).flashLock)
        else if (afterByte w).mem addr ≠ b then (.errVerify, (afterByte w).flashLock)
        else programTail (addr + 1) bs (afterByte w)
      else (s.waitBusy.1, s.waitBusy.2.flashLock) := by
  rw [programTail]
  split
  · rename_i s₁ h
    rw [h]
    rfl
  · rename_i st s₁ hne h
    rw [h, if_neg fun e ↦ hne e]

theorem startByte_frame (addr : Nat) (b : UInt8) (s : Hw) :
    Frame addr (addr + 1) s (startByte addr b s) := storeByte_frame addr b (s.modifyCr _)

theorem programTail_frame (addr : Nat) (bs : List UInt8) (s : Hw) :
    Frame addr (addr + bs.length) s (programTail addr bs s).2 := by
  induction bs generalizing addr s with
  | nil => intro x _; rfl
  | cons b bs ih =>
      rw [programTail_cons]
      have h₀ : Frame addr (addr + (b :: bs).length) s
          (afterByte (startByte addr b s.waitBusy.2).waitBusy) := fun x hx ↦ by
        have := startByte_frame addr b s.waitBusy.2 x
          (by simp only [List.length_cons] at hx; omega)
        simpa [afterByte] using this
      dsimp only
      split_ifs
      · exact h₀
      · exact h₀
      · refine h₀.trans ((ih (addr + 1) _).mono (by omega) ?_)
        simp only [List.length_cons]; omega
      · intro x _; simp

/-- A byte phase that reports success is readable back. -/
theorem programTail_read {addr : Nat} {bs : List UInt8} {s : Hw}
    (h : (programTail addr bs s).1 = .ok) :
    (programTail addr bs s).2.mem.read addr bs.length = bs := by
  induction bs generalizing addr s with
  | nil => rfl
  | cons b bs ih =>
      rw [programTail_cons] at h ⊢
      dsimp only at h ⊢
      split_ifs at h ⊢ with h₁ h₂ h₃
      · exact absurd h h₂
      · rw [List.length_cons, Mem.read_succ, ih h,
          programTail_frame (addr + 1) bs _ addr (by omega), not_not.mp h₃]
      · exact absurd h h₁

theorem programTail_of_healthy (addr : Nat) {bs : List UInt8} {s : Hw} (h : s.Healthy) :
    (programTail addr bs s).2.Healthy ∧
      (s.mem.Clears addr bs → (programTail addr bs s).1 = .ok) := by
  induction bs generalizing addr s with
  | nil => exact ⟨h, fun _ ↦ rfl⟩
  | cons b bs ih =>
      have hs : (startByte addr b s).Healthy := (h.modifyCr _).pulse _
      have hm : (startByte addr b s).mem = Function.update s.mem addr (s.mem addr &&& b) := by
        rw [startByte, storeByte, pulse_of_healthy (h.modifyCr _)]
        rfl
      rw [programTail_cons, waitBusy_of_healthy h, if_pos rfl, waitBusy_of_healthy hs]
      dsimp only
      rw [if_neg (not_not.mpr rfl)]
      have hn := ih (addr + 1) (hs.modifyCr fun cr ↦ { cr with pg := false })
      split_ifs with h₃
      · refine ⟨hs, fun hc ↦ absurd ?_ h₃⟩
        rw [afterByte, modifyCr_mem, hm, Function.update_self, hc.head]
      · refine ⟨hn.1, fun hc ↦ hn.2 ?_⟩
        refine (show s.mem.Clears (addr + 1) bs from Mem.Clears.right [b] hc).congr
          fun i _ ↦ ?_
        rw [modifyCr_mem, hm, Function.update_of_ne (by omega)]

theorem programWords_cons (addr : Nat) (b₀ b₁ b₂ b₃ : UInt8) (bs : List UInt8) (s : Hw) :
    programWords addr (b₀ :: b₁ :: b₂ :: b₃ :: bs) s =
      if addr % 4 = 0 then
        let w := s.flashProgramWord addr (le32 b₀ b₁ b₂ b₃)
        if w.1 = .ok then programWords (addr + 4) bs w.2 else (w.1, w.2.flashLock)
      else programTail addr (b₀ :: b₁ :: b₂ :: b₃ :: bs) s := by
  rw [programWords]
  split_ifs
  · dsimp only
    cases h : s.flashProgramWord addr (le32 b₀ b₁ b₂ b₃) with
    | mk st s₁ => cases st <;> rfl
  · rfl

theorem programWords_frame (addr : Nat) (bs : List UInt8) (s : Hw) :
    Frame addr (addr + bs.length) s (programWords addr bs s).2 := by
  match bs with
  | b₀ :: b₁ :: b₂ :: b₃ :: bs =>
      rw [programWords_cons]
      dsimp only
      have h₀ : Frame addr (addr + (b₀ :: b₁ :: b₂ :: b₃ :: bs).length) s
          (s.flashProgramWord addr (le32 b₀ b₁ b₂ b₃)).2 :=
        (flashProgramWord_frame addr _ s).mono (Nat.le_refl _)
          (by simp only [List.length_cons]; omega)
      split_ifs
      · refine h₀.trans ((programWords_frame (addr + 4) bs _).mono (by omega) ?_)
        simp only [List.length_cons]; omega
      · exact h₀
      · exact programTail_frame addr _ s
  | [] => exact programTail_frame addr _ s
  | [_] => exact programTail_frame addr _ s
  | [_, _] => exact programTail_frame addr _ s
  | [_, _, _] => exact programTail_frame addr _ s

theorem programWords_read {addr : Nat} {bs : List UInt8} {s : Hw}
    (h : (programWords addr bs s).1 = .ok) :
    (programWords addr bs s).2.mem.read addr bs.length = bs := by
  match bs with
  | b₀ :: b₁ :: b₂ :: b₃ :: bs =>
      rw [programWords_cons] at h ⊢
      dsimp only at h ⊢
      split_ifs at h ⊢ with h₁ h₂
      · have hw := flashProgramWord_read h₂
        rw [bytes32_le32] at hw
        have hf := programWords_frame (addr + 4) bs (s.flashProgramWord addr (le32 b₀ b₁ b₂ b₃)).2
        have h4 : (programWords (addr + 4) bs
            (s.flashProgramWord addr (le32 b₀ b₁ b₂ b₃)).2).2.mem.read addr 4 =
              [b₀, b₁, b₂, b₃] := by
          rw [← hw]
          exact Mem.read_congr fun x hx ↦ hf x (by have := hx.2; omega)
        have hr := programWords_read h
        rw [List.length_cons, List.length_cons, List.length_cons, List.length_cons,
          show bs.length + 1 + 1 + 1 + 1 = 4 + bs.length by omega, Mem.read_add, h4, hr]
        rfl
      · exact absurd h h₂
      · exact programTail_read h
  | [] => exact programTail_read h
  | [_] => exact programTail_read h
  | [_, _] => exact programTail_read h
  | [_, _, _] => exact programTail_read h

theorem programWords_of_healthy (addr : Nat) (bs : List UInt8) {s : Hw} (h : s.Healthy) :
    (programWords addr bs s).2.Healthy ∧
      (s.mem.Clears addr bs → (programWords addr bs s).1 = .ok) := by
  match bs with
  | b₀ :: b₁ :: b₂ :: b₃ :: bs =>
      rw [programWords_cons]
      dsimp only
      have hh := h.flashProgramWord addr (le32 b₀ b₁ b₂ b₃)
      split_ifs with h₁ h₂
      · have hn := programWords_of_healthy (addr + 4) bs hh
        refine ⟨hn.1, fun hc ↦ hn.2 ?_⟩
        refine (show s.mem.Clears (addr + 4) bs from
          Mem.Clears.right [b₀, b₁, b₂, b₃] hc).congr fun i _ ↦ ?_
        exact flashProgramWord_frame addr _ s _ (.inr (Nat.le_add_right _ _))
      · refine ⟨hh, fun hc ↦ absurd ?_ h₂⟩
        refine flashProgramWord_of_healthy _ h h₁ ?_
        rw [bytes32_le32]
        exact Mem.Clears.left [b₀, b₁, b₂, b₃] hc
      · exact programTail_of_healthy _ h
  | [] => exact programTail_of_healthy _ h
  | [_] => exact programTail_of_healthy _ h
  | [_, _] => exact programTail_of_healthy _ h
  | [_, _, _] => exact programTail_of_healthy _ h

theorem flashProgramBytes_eq (addr : Nat) (data : List UInt8) (s : Hw) :
    flashProgramBytes addr data s = programWords addr data s.writeKeys := by
  rw [flashProgramBytes, flashUnlock_eq]

/-- Programming a range changes only its bytes, whatever the controller reports. -/
theorem flashProgramBytes_frame (addr : Nat) (data : List UInt8) (s : Hw) :
    Frame addr (addr + data.length) s (flashProgramBytes addr data s).2 := by
  rw [flashProgramBytes_eq]
  exact programWords_frame addr data s.writeKeys

/-- A range whose programming reports success is readable back. -/
theorem flashProgramBytes_read {addr : Nat} {data : List UInt8} {s : Hw}
    (h : (flashProgramBytes addr data s).1 = .ok) :
    (flashProgramBytes addr data s).2.mem.read addr data.length = data := by
  rw [flashProgramBytes_eq] at h ⊢
  exact programWords_read h

theorem flashProgramBytes_of_healthy {addr : Nat} {data : List UInt8} {s : Hw} (h : s.Healthy) :
    (flashProgramBytes addr data s).2.Healthy ∧
      (s.mem.Clears addr data → (flashProgramBytes addr data s).1 = .ok) := by
  rw [flashProgramBytes_eq]
  exact programWords_of_healthy addr data (s := s.writeKeys) h

/-! ## Range erase -/

/-- A range erase changes only the sectors its range meets, whatever the
controller reports. -/
theorem flashEraseRange_frame {addr size x : Nat} (s : Hw) (hx : ¬Covered addr size x) :
    (flashEraseRange addr size s).2.mem x = s.mem x := by
  refine eraseRangeWith_inv flashEraseSector_refuses (I := fun t ↦ t.mem x = s.mem x)
    (fun i hi h₁ h₂ t ht ↦ ?_) rfl
  rw [flashEraseSector_frame hi t x ?_]
  · exact ht
  · by_contra hc
    exact hx ⟨by omega, by rw [flashSectorStart_of_mem hi (by omega) (by omega)]; exact h₂⟩

/-- Without faults a range erase inside the flash erases every sector its range
meets. -/
theorem flashEraseRange_of_healthy {addr size : Nat} {s : Hw} (h : s.Healthy)
    (haddr : flashBaseAddr ≤ addr) (hsize : 0 < size)
    (hend : addr + size ≤ flashBaseAddr + flashTotalSize) :
    (flashEraseRange addr size s).1 = .ok ∧
      ∀ x, Covered addr size x → x < flashBaseAddr + flashTotalSize →
        (flashEraseRange addr size s).2.mem x = 0xFF := by
  obtain ⟨i, hi, -, hb⟩ := exists_flashSectorStart haddr
  obtain ⟨hok, k, -, hI, hk⟩ := eraseRangeWith_ok flashEraseSector
    (I := fun k t ↦ t.Healthy ∧
      ∀ x, flashSectorStart addr ≤ x → x < sectorBoundary k → t.mem x = 0xFF)
    (fun j hj _ t ht ↦ by
      obtain ⟨h₁, h₂, h₃⟩ := flashEraseSector_of_healthy hj ht.1
      refine ⟨h₁, h₂, fun x hx hxk ↦ ?_⟩
      rw [h₃]
      by_cases hlt : x < kSectorStart j
      · rw [Mem.fill_of_notMem _ _ (.inl hlt)]
        exact ht.2 x hx (by rw [sectorBoundary_of_lt hj]; exact hlt)
      · have hn := sectorBoundary_succ j hj
        exact Mem.fill_of_mem _ _ (by omega) (by omega))
    hi hb hsize hend (s := s) ⟨h, fun x h₁ h₂ ↦ by omega⟩
  exact ⟨hok, fun x hx hlt ↦ hI.2 x hx.1 (hk x hx hlt)⟩

theorem Healthy.flashEraseRange {s : Hw} (h : s.Healthy) (addr size : Nat) :
    (flashEraseRange addr size s).2.Healthy :=
  eraseRangeWith_inv (I := Healthy) flashEraseSector_refuses
    (fun _ hi _ _ _ ht ↦ (flashEraseSector_of_healthy hi ht).2.1) h

end Hw

end DualBank
