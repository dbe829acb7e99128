import DualBank.Boot.Main

/-!
# Slot images and the platforms of the boot code

Of a slot the boot code sees the header and the outcome of the verification, a
`SlotImage`.  The platforms are the real one over a flash backend (`onFlash`), a
platform whose slots are given from outside (`withSlots`), and a platform that also
lists the records it writes (`logged`).  `Platform.OnSlots` is what a pass needs to
know of them.
-/

namespace DualBank

open Lib BootConfig FlashBackend

/-! ## Slot images -/

/-- What the boot code sees of a slot. -/
structure SlotImage where
  header : FirmwareHeader
  verifies : Bool
  admissible : verifies = true → header.admissible = true

namespace SlotImage

def version (i : SlotImage) : UInt32 := i.header.version

/-- The version `boot_config_recover_from_slots` takes from the slot. -/
def validVersion (i : SlotImage) : Option UInt32 :=
  if i.verifies then some i.version else none

/-- A slot whose header is erased. -/
def erased : SlotImage := ⟨.erased, false, by simp⟩

/-- The slot at an address of a memory. -/
def ofMem (K : KeyStore) (m : Mem) (slotAddr : Nat) : SlotImage :=
  ⟨.ofMem m slotAddr, cryptoVerifyFirmware K m slotAddr, admissible_of_verify⟩

theorem ofMem_congr (K : KeyStore) {m m' : Mem} {slotAddr : Nat}
    (h : Set.EqOn m m' (Set.Ico slotAddr (slotAddr + slotSize))) :
    ofMem K m slotAddr = ofMem K m' slotAddr := by
  have hh : FirmwareHeader.ofMem m slotAddr = .ofMem m' slotAddr :=
    FirmwareHeader.ofMem_congr fun x hx ↦ h ⟨hx.1, Nat.lt_of_lt_of_le hx.2 (by
      simp [firmwareHeaderSize, slotSize])⟩
  simp only [ofMem, hh, cryptoVerifyFirmware_congr K h]

theorem ofMem_eq_erased (K : KeyStore) {m : Mem} {slotAddr : Nat}
    (h : ∀ x, slotAddr ≤ x → x < slotAddr + firmwareHeaderSize → m x = 0xFF) :
    ofMem K m slotAddr = erased := by
  simp only [ofMem, erased, FirmwareHeader.ofMem_eq_erased h, cryptoVerifyFirmware_erased K h]

/-- A slot that holds a signed image. -/
def ofSigned {K : KeyStore} (img : SignedImage K) : SlotImage :=
  ⟨img.header, true, fun _ ↦ img.admissible⟩

theorem ofMem_eq_ofSigned {K : KeyStore} {img : SignedImage K} {m : Mem} {slotAddr : Nat}
    (h : m.read slotAddr img.bytes.length = img.bytes) : ofMem K m slotAddr = ofSigned img := by
  simp only [ofMem, ofSigned, SignedImage.ofMem_eq h, SignedImage.verifies h]

@[simp] theorem verifies_erased : erased.verifies = false := rfl

theorem validVersion_of_verifies {i : SlotImage} (h : i.verifies = true) :
    i.validVersion = some i.version := if_pos h

theorem validVersion_of_not {i : SlotImage} (h : i.verifies = false) : i.validVersion = none := by
  simp [validVersion, h]

theorem toNat_validVersion (i : SlotImage) :
    (i.validVersion.getD 0).toNat = if i.verifies then i.version.toNat else 0 := by
  unfold validVersion
  split_ifs <;> rfl

end SlotImage

/-- The two slots. -/
structure Slots where
  a : SlotImage
  b : SlotImage

namespace Slots

/-- The slot at a slot base. -/
def image (S : Slots) (slotAddr : Nat) : SlotImage := if slotAddr = slotBAddr then S.b else S.a

/-- The slot a slot identifier resolves to. -/
def slot (S : Slots) (slot : UInt8) : SlotImage := if slot = slotB then S.b else S.a

@[simp] theorem image_slotAAddr (S : Slots) : S.image slotAAddr = S.a := rfl
@[simp] theorem image_slotBAddr (S : Slots) : S.image slotBAddr = S.b := rfl
@[simp] theorem slot_slotA (S : Slots) : S.slot slotA = S.a := rfl
@[simp] theorem slot_slotB (S : Slots) : S.slot slotB = S.b := rfl

@[simp] theorem image_memoryMapSlotAddr (S : Slots) (slot : UInt8) :
    S.image (memoryMapSlotAddr slot) = S.slot slot := by
  unfold memoryMapSlotAddr Slots.slot
  split_ifs <;> rfl

theorem slot_of_ne {S : Slots} {slot : UInt8} (h : slot ≠ slotB) : S.slot slot = S.a := if_neg h

/-- Slot A is gone. -/
def eraseA (S : Slots) : Slots := { S with a := .erased }

/-- The slots of a memory. -/
def ofMem (K : KeyStore) (m : Mem) : Slots := ⟨.ofMem K m slotAAddr, .ofMem K m slotBAddr⟩

end Slots

/-! ## Platforms -/

/-- The platform of the build: the driver, the record store and the verifier. -/
def onFlash (σ : Type) [FlashBackend σ] (K : KeyStore) : Platform σ where
  flashInit := flashInit
  readConfig := readConfig
  bootConfigSave := bootConfigSave
  cryptoVerifyFirmware slotAddr s := (cryptoVerifyFirmware K (byte s) slotAddr, s)
  readHeader slotAddr s := .ofMem (byte s) slotAddr

@[simp] theorem readConfig_onFlash {σ : Type} [FlashBackend σ] (K : KeyStore) (s : σ) :
    (onFlash σ K).readConfig s = DualBank.readConfig s := rfl

@[simp] theorem flashInit_onFlash {σ : Type} [FlashBackend σ] (K : KeyStore) (s : σ) :
    (onFlash σ K).flashInit s = FlashBackend.flashInit s := rfl

/-- The platform `P` with the slots given from outside: neither the outcome of a
verification nor a header depends on the device. -/
def Platform.withSlots {σ : Type} (P : Platform σ) (S : Slots) : Platform σ :=
  { P with
    cryptoVerifyFirmware := fun slotAddr s ↦ ((S.image slotAddr).verifies, s)
    readHeader := fun slotAddr _ ↦ (S.image slotAddr).header }

@[simp] theorem readConfig_withSlots {σ : Type} (P : Platform σ) (S : Slots) (s : σ) :
    (P.withSlots S).readConfig s = P.readConfig s := rfl

@[simp] theorem flashInit_withSlots {σ : Type} (P : Platform σ) (S : Slots) (s : σ) :
    (P.withSlots S).flashInit s = P.flashInit s := rfl

/-- The platform `P` with a list of the records that were written, oldest first. -/
def Platform.logged {σ : Type} (P : Platform σ) : Platform (σ × List BootConfig) where
  flashInit s := (P.flashInit s.1, s.2)
  readConfig s := P.readConfig s.1
  bootConfigSave cfg s :=
    let r := P.bootConfigSave cfg s.1
    (r.1, r.2, s.2 ++ [bootConfigStampCrc cfg])
  cryptoVerifyFirmware slotAddr s :=
    let r := P.cryptoVerifyFirmware slotAddr s.1
    (r.1, r.2, s.2)
  readHeader slotAddr s := P.readHeader slotAddr s.1

/-! ## Platforms on slots

What the platforms above have in common: a device stands for two slots, verification
and header reads only look at them, and a save wears them. -/

/-- On the states of `I`, verification and header reads see the slots of the device. -/
structure Platform.Sees {σ : Type} (P : Platform σ) (I : σ → Prop) (slots : σ → Slots) : Prop where
  verify : ∀ slot s, I s →
    P.cryptoVerifyFirmware (memoryMapSlotAddr slot) s = (((slots s).slot slot).verifies, s)
  readHeader : ∀ slot s, I s →
    P.readHeader (memoryMapSlotAddr slot) s = ((slots s).slot slot).header

/-- On the states of `I`, the platform runs on the slots of the device, and every
save applies `wear` to them. -/
structure Platform.OnSlots {σ : Type} (P : Platform σ) (I : σ → Prop) (slots : σ → Slots)
    (wear : Slots → Slots) : Prop extends P.Sees I slots where
  save : ∀ cfg s, I s →
    I (P.bootConfigSave cfg s).2 ∧ slots (P.bootConfigSave cfg s).2 = wear (slots s)

/-- With the slots given from outside, any platform runs on them, whatever its saves do. -/
theorem Platform.withSlots_onSlots {σ : Type} (P : Platform σ) (S : Slots) {I : σ → Prop}
    (hI : ∀ cfg s, I s → I (P.bootConfigSave cfg s).2) :
    (P.withSlots S).OnSlots I (fun _ ↦ S) id where
  verify slot s _ := by simp [Platform.withSlots]
  readHeader slot s _ := by simp [Platform.withSlots]
  save cfg s hs := ⟨hI cfg s hs, rfl⟩

/-- On the states of `I`, a save is read back. -/
def Platform.Stores {σ : Type} (P : Platform σ) (I : σ → Prop) : Prop :=
  ∀ cfg s, I s → I (P.bootConfigSave cfg s).2 ∧
    P.readConfig (P.bootConfigSave cfg s).2 = bootConfigStampCrc cfg

theorem Platform.Stores.withSlots {σ : Type} {P : Platform σ} {I : σ → Prop} (h : P.Stores I)
    (S : Slots) : (P.withSlots S).Stores I := h

/-- Listing the writes changes nothing else. -/
theorem Platform.OnSlots.logged {σ : Type} {P : Platform σ} {I : σ → Prop} {slots : σ → Slots}
    {wear : Slots → Slots} (h : P.OnSlots I slots wear) :
    P.logged.OnSlots (fun s ↦ I s.1) (fun s ↦ slots s.1) wear where
  verify slot s hs := by simp [Platform.logged, h.verify slot s.1 hs]
  readHeader slot s hs := h.readHeader slot s.1 hs
  save cfg s hs := h.save cfg s.1 hs

section OnFlash

variable {σ : Type} [FlashBackend σ]

/-- A completed save erases the head of slot A and leaves slot B alone. -/
theorem Saved.slots {cfg : BootConfig} {s s' : σ} (h : Saved cfg s s') (K : KeyStore) :
    Slots.ofMem K (byte s') = (Slots.ofMem K (byte s)).eraseA := by
  have ha : SlotImage.ofMem K (byte s') slotAAddr = .erased := by
    refine SlotImage.ofMem_eq_erased K fun x h₁ h₂ ↦ h.erased x ?_ ?_ ?_
    · exact ⟨Nat.le_trans (by decide) h₁, Nat.lt_of_lt_of_le h₂ (by decide)⟩
    · exact Nat.le_trans (by decide) h₁
    · have hw := writable_slotA (σ := σ) (x - slotAAddr)
        (Nat.lt_of_lt_of_le (by omega) (headerSize_le_span (σ := σ)))
      rwa [Nat.add_sub_cancel' h₁] at hw
  have hb : SlotImage.ofMem K (byte s') slotBAddr = .ofMem K (byte s) slotBAddr :=
    SlotImage.ofMem_congr K fun x hx ↦ h.frame x fun hc ↦ by
      have h₁ := hx.1
      have h₂ := hc.2
      simp only [slotBAddr, bootConfigAddr] at h₁ h₂
      omega
  simp only [Slots.ofMem, Slots.eraseA, ha, hb]

/-- A flash device shows the slots it holds, in whatever state it is. -/
theorem onFlash_sees (K : KeyStore) :
    (onFlash σ K).Sees (fun _ ↦ True) (fun s ↦ .ofMem K (byte s)) where
  verify slot s _ := by
    rw [← Slots.image_memoryMapSlotAddr]
    rcases memoryMapSlotAddr_cases slot with e | e <;> rw [e] <;> rfl
  readHeader slot s _ := by
    rw [← Slots.image_memoryMapSlotAddr]
    rcases memoryMapSlotAddr_cases slot with e | e <;> rw [e] <;> rfl

/-- A healthy flash device runs on the slots it holds, and loses slot A, which
shares its first sector with the record, with every save. -/
theorem onFlash_onSlots (K : KeyStore) :
    (onFlash σ K).OnSlots Healthy (fun s ↦ .ofMem K (byte s)) Slots.eraseA where
  verify slot s _ := (onFlash_sees K).verify slot s trivial
  readHeader slot s _ := (onFlash_sees K).readHeader slot s trivial
  save cfg _ h :=
    have hs := (bootConfigSave_of_healthy cfg h).2
    ⟨hs.healthy, hs.slots K⟩

theorem onFlash_stores (K : KeyStore) : (onFlash σ K).Stores Healthy := fun cfg _ h ↦
  have hs := (bootConfigSave_of_healthy cfg h).2
  ⟨hs.healthy, hs.record⟩

end OnFlash

end DualBank
