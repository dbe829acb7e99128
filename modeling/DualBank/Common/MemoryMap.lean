import Mathlib.Logic.Basic

/-!
# Memory map

The partition addresses, slot identifiers and magic constants of
`common/memory_map.h`, and the size constants of `common/firmware_format.h`.
Addresses and sizes are natural numbers; every address of the map is below
`2 ^ 32`.
-/

namespace DualBank

/-! ## Flash partitions -/

def flashBaseAddr : Nat := 0x08000000
def flashTotalSize : Nat := 1024 * 1024

def bootloaderAddr : Nat := 0x08000000
def bootloaderSize : Nat := 64 * 1024

def bootConfigAddr : Nat := 0x08010000
def bootConfigSize : Nat := 4 * 1024

def slotAAddr : Nat := 0x08011000
def slotBAddr : Nat := 0x08084000
def slotSize : Nat := 460 * 1024

/-! ## Slot identifiers -/

/-- `'A'`. -/
def slotA : UInt8 := 65

/-- `'B'`. -/
def slotB : UInt8 := 66

/-! ## Magic constants -/

def firmwareMagic : UInt32 := 0xDEADBEEF
def bootConfigMagic : UInt32 := 0xB00710AD
def sharedBlockMagic : UInt32 := 0x5EAFB001

/-! ## Firmware image sizes -/

def firmwareHeaderSize : Nat := 512
def firmwareSignatureSize : Nat := 64

/-- Largest payload of one slot. -/
def firmwareMaxPayloadSize : Nat := 460 * 1024 - firmwareHeaderSize

/-! ## Slot helpers -/

/-- Base address of a slot.  Every identifier but `'B'` means slot A. -/
def memoryMapSlotAddr (slot : UInt8) : Nat :=
  if slot = slotB then slotBAddr else slotAAddr

/-- The other slot.  Every identifier but `'A'` has slot A as its other slot. -/
def memoryMapOtherSlot (slot : UInt8) : UInt8 :=
  if slot = slotA then slotB else slotA

@[simp] theorem memoryMapSlotAddr_slotA : memoryMapSlotAddr slotA = slotAAddr := rfl
@[simp] theorem memoryMapSlotAddr_slotB : memoryMapSlotAddr slotB = slotBAddr := rfl
@[simp] theorem memoryMapOtherSlot_slotA : memoryMapOtherSlot slotA = slotB := rfl
@[simp] theorem memoryMapOtherSlot_slotB : memoryMapOtherSlot slotB = slotA := rfl

theorem memoryMapSlotAddr_of_ne {slot : UInt8} (h : slot ≠ slotB) :
    memoryMapSlotAddr slot = slotAAddr := if_neg h

theorem memoryMapOtherSlot_of_ne {slot : UInt8} (h : slot ≠ slotA) :
    memoryMapOtherSlot slot = slotA := if_neg h

/-- Every slot identifier resolves to one of the two slot bases. -/
theorem memoryMapSlotAddr_cases (slot : UInt8) :
    memoryMapSlotAddr slot = slotAAddr ∨ memoryMapSlotAddr slot = slotBAddr := by
  unfold memoryMapSlotAddr
  split
  · exact .inr rfl
  · exact .inl rfl

/-- A documented slot identifier. -/
abbrev IsSlot (slot : UInt8) : Prop := slot = slotA ∨ slot = slotB

theorem memoryMapSlotAddr_inj {x y : UInt8} (hx : IsSlot x) (hy : IsSlot y) :
    memoryMapSlotAddr x = memoryMapSlotAddr y ↔ x = y := by
  rcases hx with rfl | rfl <;> rcases hy with rfl | rfl <;> decide

theorem memoryMapOtherSlot_ne (slot : UInt8) : memoryMapOtherSlot slot ≠ slot := by
  unfold memoryMapOtherSlot
  split
  · rename_i h; rw [h]; decide
  · rename_i h; exact Ne.symm h

/-- The other slot is always one of the two documented identifiers. -/
theorem memoryMapOtherSlot_cases (slot : UInt8) :
    IsSlot (memoryMapOtherSlot slot) := by
  unfold memoryMapOtherSlot
  split
  · exact .inr rfl
  · exact .inl rfl

/-! ## Layout

The compile-time assertions of the header that later proofs use. -/

theorem bootConfig_before_slotA : bootConfigAddr + bootConfigSize ≤ slotAAddr := by decide
theorem slotA_before_slotB : slotAAddr + slotSize ≤ slotBAddr := by decide
theorem image_fits_slot : firmwareHeaderSize + firmwareMaxPayloadSize = slotSize := by decide

/-- A slot lies in the flash. -/
theorem slot_in_flash (slot : UInt8) :
    flashBaseAddr ≤ memoryMapSlotAddr slot ∧
      memoryMapSlotAddr slot + slotSize ≤ flashBaseAddr + flashTotalSize := by
  rcases memoryMapSlotAddr_cases slot with h | h <;> rw [h] <;> decide

end DualBank
