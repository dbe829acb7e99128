import Mathlib.Data.List.Basic
import DualBank.Flash.Sectors
import DualBank.Lib.Bytes

/-!
# QEMU flash backend

The `QEMU_FLASH_SIM` branch of `bootloader/src/flash_driver.c`: the flash itself is
a ROM, and the writable windows (the configuration area and the first 32 KB of each
slot) are served from a shadow in SRAM.  `power` counts the shadow stores before the
supply fails, as in the hardware backend.
-/

namespace DualBank

open Lib

/-- The byte arrays of `qemu_flash_shadow_t`. -/
inductive ShadowField where
  | config
  | slotA
  | slotB
deriving DecidableEq, Repr

def qemuShadowMagic : UInt32 := 0xCAFEFEED
def shadowConfigSize : Nat := bootConfigSize
def shadowSlotSize : Nat := 32 * 1024

/-- The flash device of the QEMU build: the ROM and its shadow. -/
structure Qemu where
  rom : Mem
  magic : UInt32
  shadow : ShadowField → Nat → UInt8
  power : Option Nat

/-- `shadow_byte_ptr`: the shadow byte an address is served from, if any. -/
def shadowBytePtr (addr : Nat) : Option (ShadowField × Nat) :=
  if bootConfigAddr ≤ addr ∧ addr < bootConfigAddr + shadowConfigSize then
    some (.config, addr - bootConfigAddr)
  else if slotAAddr ≤ addr ∧ addr < slotAAddr + shadowSlotSize then
    some (.slotA, addr - slotAAddr)
  else if slotBAddr ≤ addr ∧ addr < slotBAddr + shadowSlotSize then
    some (.slotB, addr - slotBAddr)
  else none

namespace Qemu

/-- The byte the CPU reads at an address (`shadow_aware_read`). -/
def byte (s : Qemu) : Mem := fun addr ↦
  match shadowBytePtr addr with
  | some p => s.shadow p.1 p.2
  | none => s.rom addr

/-- A store through a shadow pointer. -/
def store (p : ShadowField × Nat) (b : UInt8) (s : Qemu) : Qemu :=
  let write := fun f i ↦ if (f, i) = p then b else s.shadow f i
  match s.power with
  | none => { s with shadow := write }
  | some 0 => s
  | some (n + 1) => { s with shadow := write, power := some n }

def flashInit (s : Qemu) : Qemu :=
  if s.magic ≠ qemuShadowMagic then
    { s with
      magic := qemuShadowMagic
      shadow := fun
        | .config => fun i ↦ s.rom (bootConfigAddr + i)
        | .slotA => fun i ↦ s.rom (slotAAddr + i)
        | .slotB => fun i ↦ s.rom (slotBAddr + i) }
  else s

def flashOtaSlotSpan : Nat := shadowSlotSize

/-- The loop of `flash_erase_sector`: the addresses outside the shadow are skipped.
The two nested loops of the source differ from one only by the watchdog kicks. -/
def eraseBytes (addr : Nat) : Nat → Qemu → Qemu
  | 0, s => s
  | n + 1, s =>
    match shadowBytePtr addr with
    | some p => eraseBytes (addr + 1) n (s.store p 0xFF)
    | none => eraseBytes (addr + 1) n s

def flashEraseSector (sectorStartAddr : Nat) (s : Qemu) : FlashStatus × Qemu :=
  match sectorIndexForAddr sectorStartAddr with
  | none => (.errRange, s)
  | some idx =>
    if kSectorStart idx ≠ sectorStartAddr then (.errRange, s)
    else (.ok, eraseBytes sectorStartAddr (kSectorSize idx) s)

def flashEraseRange (addr size : Nat) (s : Qemu) : FlashStatus × Qemu :=
  eraseRangeWith flashEraseSector addr size s

/-- The store and readback loop of the two program functions. -/
def programLoop (addr : Nat) : List UInt8 → Qemu → FlashStatus × Qemu
  | [], s => (.ok, s)
  | b :: bs, s =>
    match shadowBytePtr addr with
    | none => (.errRange, s)
    | some p =>
      let s := s.store p b
      if s.shadow p.1 p.2 ≠ b then (.errVerify, s) else programLoop (addr + 1) bs s

def flashProgramWord (addr : Nat) (value : UInt32) (s : Qemu) : FlashStatus × Qemu :=
  if addr % 4 ≠ 0 then (.errRange, s)
  else if (List.range 4).any fun i ↦ (shadowBytePtr (addr + i)).isNone then (.errRange, s)
  else programLoop addr (bytes32 value) s

def flashProgramBytes (addr : Nat) (data : List UInt8) (s : Qemu) : FlashStatus × Qemu :=
  programLoop addr data s

/-! ## Primitive steps -/

/-- An initialised shadow on a supply that lasts. -/
def Healthy (s : Qemu) : Prop := s.magic = qemuShadowMagic ∧ s.power = none

theorem flashInit_of_healthy {s : Qemu} (h : s.Healthy) : s.flashInit = s :=
  if_neg (not_not.mpr h.1)

/-- The flash address of the first byte of a shadow array. -/
def fieldBase : ShadowField → Nat
  | .config => bootConfigAddr
  | .slotA => slotAAddr
  | .slotB => slotBAddr

theorem eq_of_shadowBytePtr {a : Nat} {p : ShadowField × Nat} (h : shadowBytePtr a = some p) :
    a = fieldBase p.1 + p.2 := by
  unfold shadowBytePtr at h
  split_ifs at h with h₁ h₂ h₃ <;> rw [← Option.some.inj h] <;> simp only [fieldBase] <;> omega

/-- The shadow of one address serves no other address. -/
theorem shadowBytePtr_inj {a b : Nat} {p : ShadowField × Nat} (ha : shadowBytePtr a = some p)
    (hb : shadowBytePtr b = some p) : a = b := by
  rw [eq_of_shadowBytePtr ha, eq_of_shadowBytePtr hb]

theorem store_byte_of_ne {a x : Nat} {p : ShadowField × Nat} (b : UInt8) (s : Qemu)
    (ha : shadowBytePtr a = some p) (hx : x ≠ a) : (s.store p b).byte x = s.byte x := by
  unfold byte
  cases hp : shadowBytePtr x with
  | none => unfold store; dsimp only; split <;> rfl
  | some q =>
      have hne : ¬(q.1, q.2) = p := fun e ↦ hx (shadowBytePtr_inj hp (by rw [ha, ← e]))
      unfold store
      dsimp only
      split
      · exact if_neg hne
      · rfl
      · exact if_neg hne

theorem store_of_healthy {p : ShadowField × Nat} (b : UInt8) {s : Qemu} (h : s.Healthy) :
    (s.store p b).Healthy ∧ (s.store p b).shadow p.1 p.2 = b := by
  have e : s.store p b = { s with shadow := fun f i ↦ if (f, i) = p then b else s.shadow f i } := by
    unfold store; rw [h.2]
  rw [e]
  exact ⟨⟨h.1, h.2⟩, if_pos rfl⟩

theorem byte_of_ptr {a : Nat} {p : ShadowField × Nat} (s : Qemu) (h : shadowBytePtr a = some p) :
    s.byte a = s.shadow p.1 p.2 := by
  unfold byte; rw [h]

/-! ## Sector and range erase -/

theorem eraseBytes_frame (addr n : Nat) (s : Qemu) {x : Nat} (hx : x < addr ∨ addr + n ≤ x) :
    (eraseBytes addr n s).byte x = s.byte x := by
  induction n generalizing addr s with
  | zero => rfl
  | succ n ih =>
      unfold eraseBytes
      split
      · rename_i p hp
        rw [ih (addr + 1) _ (by omega), store_byte_of_ne _ _ hp (by omega)]
      · exact ih (addr + 1) s (by omega)

theorem eraseBytes_of_healthy (addr n : Nat) {s : Qemu} (h : s.Healthy) :
    (eraseBytes addr n s).Healthy ∧
      ∀ x, addr ≤ x → x < addr + n → shadowBytePtr x ≠ none →
        (eraseBytes addr n s).byte x = 0xFF := by
  induction n generalizing addr s with
  | zero => exact ⟨h, fun x _ _ ↦ by omega⟩
  | succ n ih =>
      unfold eraseBytes
      split
      · rename_i p hp
        have hs := store_of_healthy (p := p) 0xFF h
        refine ⟨(ih (addr + 1) hs.1).1, fun x h₁ h₂ hne ↦ ?_⟩
        rcases Nat.eq_or_lt_of_le h₁ with rfl | hlt
        · rw [eraseBytes_frame _ _ _ (by omega), byte_of_ptr _ hp, hs.2]
        · exact (ih (addr + 1) hs.1).2 x hlt (by omega) hne
      · rename_i hp
        refine ⟨(ih (addr + 1) h).1, fun x h₁ h₂ hne ↦ ?_⟩
        rcases Nat.eq_or_lt_of_le h₁ with rfl | hlt
        · exact absurd hp hne
        · exact (ih (addr + 1) h).2 x hlt (by omega) hne

theorem flashEraseSector_refuses : RefusesUnaligned flashEraseSector := by
  intro a s ha
  unfold flashEraseSector
  split
  · rfl
  · rename_i idx hidx
    rw [if_pos (ha idx (sectorIndexForAddr_lt hidx))]

theorem flashEraseSector_eq {i : Nat} (hi : i < 12) (s : Qemu) :
    flashEraseSector (kSectorStart i) s =
      (.ok, eraseBytes (kSectorStart i) (kSectorSize i) s) := by
  unfold flashEraseSector
  rw [sectorIndexForAddr_kSectorStart hi]
  exact if_neg (not_not.mpr rfl)

/-- A range erase changes only the sectors its range meets. -/
theorem flashEraseRange_frame {addr size x : Nat} (s : Qemu) (hx : ¬Covered addr size x) :
    (flashEraseRange addr size s).2.byte x = s.byte x := by
  refine eraseRangeWith_inv flashEraseSector_refuses (I := fun t ↦ t.byte x = s.byte x)
    (fun i hi h₁ h₂ t ht ↦ ?_) rfl
  rw [flashEraseSector_eq hi, eraseBytes_frame _ _ t ?_]
  · exact ht
  · by_contra hc
    exact hx ⟨by omega, by rw [flashSectorStart_of_mem hi (by omega) (by omega)]; exact h₂⟩

/-- A range erase inside the flash erases every shadowed byte of the sectors its
range meets. -/
theorem flashEraseRange_of_healthy {addr size : Nat} {s : Qemu} (h : s.Healthy)
    (haddr : flashBaseAddr ≤ addr) (hsize : 0 < size)
    (hend : addr + size ≤ flashBaseAddr + flashTotalSize) :
    (flashEraseRange addr size s).1 = .ok ∧
      ∀ x, Covered addr size x → x < flashBaseAddr + flashTotalSize → shadowBytePtr x ≠ none →
        (flashEraseRange addr size s).2.byte x = 0xFF := by
  obtain ⟨i, hi, -, hb⟩ := exists_flashSectorStart haddr
  obtain ⟨hok, k, -, hI, hk⟩ := eraseRangeWith_ok flashEraseSector
    (I := fun k t ↦ t.Healthy ∧ ∀ x, flashSectorStart addr ≤ x → x < sectorBoundary k →
      shadowBytePtr x ≠ none → t.byte x = 0xFF)
    (fun j hj _ t ht ↦ by
      have he := eraseBytes_of_healthy (kSectorStart j) (kSectorSize j) ht.1
      rw [flashEraseSector_eq hj]
      refine ⟨rfl, he.1, fun x hx hxk hp ↦ ?_⟩
      have hn := sectorBoundary_succ j hj
      by_cases hlt : x < kSectorStart j
      · rw [eraseBytes_frame _ _ t (.inl hlt)]
        exact ht.2 x hx (by rw [sectorBoundary_of_lt hj]; exact hlt) hp
      · exact he.2 x (by omega) (by omega) hp)
    hi hb hsize hend (s := s) ⟨h, fun x h₁ h₂ ↦ by omega⟩
  exact ⟨hok, fun x hx hlt ↦ hI.2 x hx.1 (hk x hx hlt)⟩

theorem Healthy.flashEraseRange {s : Qemu} (h : s.Healthy) (addr size : Nat) :
    (flashEraseRange addr size s).2.Healthy :=
  eraseRangeWith_inv (I := Healthy) flashEraseSector_refuses
    (fun _ hi _ _ _ ht ↦ by rw [flashEraseSector_eq hi]; exact (eraseBytes_of_healthy _ _ ht).1) h

/-- A byte that an erase cannot change: it is erased, or the ROM serves it. -/
def Fixed (x : Nat) (s : Qemu) : Prop := shadowBytePtr x = none ∨ s.byte x = 0xFF

theorem store_of_fixed {a x : Nat} {p : ShadowField × Nat} {s : Qemu}
    (ha : shadowBytePtr a = some p) (hx : s.Fixed x) : (s.store p 0xFF).byte x = s.byte x := by
  by_cases hxa : x = a
  · subst hxa
    rcases hx with hx | hx
    · rw [hx] at ha; cases ha
    · rw [byte_of_ptr _ ha] at hx ⊢
      rw [byte_of_ptr _ ha, hx]
      unfold store
      dsimp only
      split
      · exact if_pos rfl
      · exact hx
      · exact if_pos rfl
  · exact store_byte_of_ne _ _ ha hxa

theorem eraseBytes_of_fixed (addr n : Nat) {s : Qemu} {x : Nat} (hx : s.Fixed x) :
    (eraseBytes addr n s).byte x = s.byte x := by
  induction n generalizing addr s with
  | zero => rfl
  | succ n ih =>
      unfold eraseBytes
      split
      · rename_i p hp
        have hs := store_of_fixed hp hx
        rw [ih (addr + 1) (hx.imp_right hs.trans), hs]
      · exact ih (addr + 1) hx

/-- Wherever a range erase is cut, such a byte stays what it is. -/
theorem flashEraseRange_of_fixed (addr size : Nat) {s : Qemu} {x : Nat} (hx : s.Fixed x) :
    (flashEraseRange addr size s).2.byte x = s.byte x :=
  eraseRangeWith_inv (I := fun t ↦ t.byte x = s.byte x) flashEraseSector_refuses
    (fun _ hi _ _ t ht ↦ by
      rw [flashEraseSector_eq hi]
      exact (eraseBytes_of_fixed _ _ (hx.imp_right ht.trans)).trans ht) rfl

/-! ## Programming -/

theorem programLoop_frame (addr : Nat) (bs : List UInt8) (s : Qemu) {x : Nat}
    (hx : x < addr ∨ addr + bs.length ≤ x) : (programLoop addr bs s).2.byte x = s.byte x := by
  induction bs generalizing addr s with
  | nil => rfl
  | cons b bs ih =>
      simp only [List.length_cons] at hx
      unfold programLoop
      split
      · rfl
      · rename_i p hp
        dsimp only
        split_ifs
        · exact store_byte_of_ne b s hp (by omega)
        · rw [ih (addr + 1) _ (by omega), store_byte_of_ne b s hp (by omega)]

/-- Programming that reports success is readable back. -/
theorem programLoop_read {addr : Nat} {bs : List UInt8} {s : Qemu}
    (h : (programLoop addr bs s).1 = .ok) :
    (programLoop addr bs s).2.byte.read addr bs.length = bs := by
  induction bs generalizing addr s with
  | nil => rfl
  | cons b bs ih =>
      unfold programLoop at h ⊢
      split at h
      · cases h
      · rename_i p hp
        dsimp only at h ⊢
        split_ifs at h ⊢ with hb
        rw [List.length_cons, Mem.read_succ, ih h, programLoop_frame _ _ _ (by omega),
          byte_of_ptr _ hp, not_not.mp hb]

theorem programLoop_of_healthy {addr : Nat} {bs : List UInt8} {s : Qemu} (h : s.Healthy) :
    (programLoop addr bs s).2.Healthy ∧
      ((∀ i < bs.length, shadowBytePtr (addr + i) ≠ none) → (programLoop addr bs s).1 = .ok) := by
  induction bs generalizing addr s with
  | nil => exact ⟨h, fun _ ↦ rfl⟩
  | cons b bs ih =>
      unfold programLoop
      split
      · rename_i hp
        exact ⟨h, fun hne ↦ absurd hp (hne 0 (by simp))⟩
      · rename_i p hp
        have hs := store_of_healthy (p := p) b h
        dsimp only
        rw [if_neg (not_not.mpr hs.2)]
        refine ⟨(ih hs.1).1, fun hne ↦ (ih hs.1).2 fun i hi ↦ ?_⟩
        have := hne (i + 1) (by simpa using hi)
        rwa [show addr + (i + 1) = addr + 1 + i by omega] at this

theorem flashProgramWord_frame (addr : Nat) (value : UInt32) (s : Qemu) {x : Nat}
    (hx : x < addr ∨ addr + 4 ≤ x) : (flashProgramWord addr value s).2.byte x = s.byte x := by
  unfold flashProgramWord
  split_ifs
  · rfl
  · rfl
  · exact programLoop_frame addr (bytes32 value) s hx

theorem flashProgramWord_read {addr : Nat} {value : UInt32} {s : Qemu}
    (h : (flashProgramWord addr value s).1 = .ok) :
    (flashProgramWord addr value s).2.byte.read addr 4 = bytes32 value := by
  unfold flashProgramWord at h ⊢
  split_ifs at h ⊢ with h₁ h₂
  exact programLoop_read h

theorem flashProgramWord_of_healthy {addr : Nat} (value : UInt32) {s : Qemu} (h : s.Healthy) :
    (flashProgramWord addr value s).2.Healthy ∧
      (addr % 4 = 0 → (∀ i < 4, shadowBytePtr (addr + i) ≠ none) →
        (flashProgramWord addr value s).1 = .ok) := by
  unfold flashProgramWord
  split_ifs with h₁ h₂
  · exact ⟨h, fun e ↦ absurd e h₁⟩
  · simp only [List.any_eq_true, List.mem_range, Option.isNone_iff_eq_none] at h₂
    obtain ⟨i, hi, hp⟩ := h₂
    exact ⟨h, fun _ hne ↦ absurd hp (hne i hi)⟩
  · exact ⟨(programLoop_of_healthy h).1, fun _ hne ↦ (programLoop_of_healthy h).2 hne⟩

end Qemu

end DualBank
