import DualBank.Flash.Hardware
import DualBank.Flash.Qemu

/-!
# The flash driver interface

`bootloader/include/flash_driver.h` as the modules above the driver see it, with
the facts about it that hold of both backends.  `flash_read` is not an operation:
it returns `FLASH_OK` and the bytes of `byte` on either backend.

The frame and readback facts hold in every state.  Those about success need a
state that reports no fault and loses no supply, `Healthy`; what the backend can
store at all is `Writable`.
-/

namespace DualBank

open Lib

/-- A flash backend. -/
class FlashBackend (σ : Type) where
  /-- The byte the CPU reads at an address. -/
  byte : σ → Mem
  flashInit : σ → σ
  flashOtaSlotSpan : Nat
  flashEraseRange : Nat → Nat → σ → FlashStatus × σ
  flashProgramWord : Nat → UInt32 → σ → FlashStatus × σ
  flashProgramBytes : Nat → List UInt8 → σ → FlashStatus × σ
  /-- Before `flash_init`: no faults and a supply that lasts. -/
  Powered : σ → Prop
  /-- After `flash_init`: no faults and a supply that lasts. -/
  Healthy : σ → Prop
  /-- The address can be erased and programmed. -/
  Writable : Nat → Prop
  healthy_flashInit : ∀ {s}, Powered s → Healthy (flashInit s)
  powered_of_healthy : ∀ {s}, Healthy s → Powered s
  flashInit_of_healthy : ∀ {s}, Healthy s → flashInit s = s
  headerSize_le_span : firmwareHeaderSize ≤ flashOtaSlotSpan
  span_le_slotSize : flashOtaSlotSpan ≤ slotSize
  writable_config : ∀ x, bootConfigAddr ≤ x → x < bootConfigAddr + bootConfigSize → Writable x
  writable_slotA : ∀ i < flashOtaSlotSpan, Writable (slotAAddr + i)
  writable_slotB : ∀ i < flashOtaSlotSpan, Writable (slotBAddr + i)
  erase_frame : ∀ {addr size x} (s), ¬Covered addr size x →
    byte (flashEraseRange addr size s).2 x = byte s x
  healthy_erase : ∀ {s} (addr size), Healthy s → Healthy (flashEraseRange addr size s).2
  erase_of_healthy : ∀ {addr size s}, Healthy s → flashBaseAddr ≤ addr → 0 < size →
    addr + size ≤ flashBaseAddr + flashTotalSize →
    (flashEraseRange addr size s).1 = .ok ∧
      ∀ x, Covered addr size x → x < flashBaseAddr + flashTotalSize → Writable x →
        byte (flashEraseRange addr size s).2 x = 0xFF
  programWord_frame : ∀ {addr x} (value s), x < addr ∨ addr + 4 ≤ x →
    byte (flashProgramWord addr value s).2 x = byte s x
  programWord_read : ∀ {addr value s}, (flashProgramWord addr value s).1 = .ok →
    (byte (flashProgramWord addr value s).2).read addr 4 = bytes32 value
  healthy_programWord : ∀ {s} (addr value), Healthy s → Healthy (flashProgramWord addr value s).2
  programWord_of_healthy : ∀ {addr s} (value), Healthy s → addr % 4 = 0 →
    (∀ i < 4, byte s (addr + i) = 0xFF ∧ Writable (addr + i)) →
    (flashProgramWord addr value s).1 = .ok
  programBytes_frame : ∀ {addr data x} (s), x < addr ∨ addr + data.length ≤ x →
    byte (flashProgramBytes addr data s).2 x = byte s x
  programBytes_read : ∀ {addr data s}, (flashProgramBytes addr data s).1 = .ok →
    (byte (flashProgramBytes addr data s).2).read addr data.length = data
  healthy_programBytes : ∀ {s} (addr data), Healthy s → Healthy (flashProgramBytes addr data s).2
  programBytes_of_healthy : ∀ {addr data s}, Healthy s →
    (∀ i < data.length, byte s (addr + i) = 0xFF ∧ Writable (addr + i)) →
    (flashProgramBytes addr data s).1 = .ok

/-- The STM32F4 controller: every address can be programmed. -/
instance : FlashBackend Hw where
  byte := Hw.mem
  flashInit := Hw.flashInit
  flashOtaSlotSpan := Hw.flashOtaSlotSpan
  flashEraseRange := Hw.flashEraseRange
  flashProgramWord := Hw.flashProgramWord
  flashProgramBytes := Hw.flashProgramBytes
  Powered := Hw.Healthy
  Healthy := Hw.Healthy
  Writable _ := True
  healthy_flashInit h := h
  powered_of_healthy h := h
  flashInit_of_healthy _ := rfl
  headerSize_le_span := by decide
  span_le_slotSize := by decide
  writable_config _ _ _ := trivial
  writable_slotA _ _ := trivial
  writable_slotB _ _ := trivial
  erase_frame := Hw.flashEraseRange_frame
  healthy_erase addr size h := h.flashEraseRange addr size
  erase_of_healthy h h₁ h₂ h₃ :=
    have he := Hw.flashEraseRange_of_healthy h h₁ h₂ h₃
    ⟨he.1, fun x hx hlt _ ↦ he.2 x hx hlt⟩
  programWord_frame value s hx := Hw.flashProgramWord_frame _ value s _ hx
  programWord_read := Hw.flashProgramWord_read
  healthy_programWord addr value h := h.flashProgramWord addr value
  programWord_of_healthy value h ha he := Hw.flashProgramWord_of_healthy value h ha
    (Mem.clears_of_erased fun i hi ↦ (he i hi).1)
  programBytes_frame s hx := Hw.flashProgramBytes_frame _ _ s _ hx
  programBytes_read := Hw.flashProgramBytes_read
  healthy_programBytes _ _ h := (Hw.flashProgramBytes_of_healthy h).1
  programBytes_of_healthy h he := (Hw.flashProgramBytes_of_healthy h).2
    (Mem.clears_of_erased fun i hi ↦ (he i hi).1)

/-- On the hardware the CPU reads the flash itself. -/
theorem FlashBackend.byte_hw (d : Hw) : FlashBackend.byte d = d.mem := rfl

/-- Every byte of a shadow window has a shadow. -/
theorem shadowBytePtr_ne_none {x : Nat}
    (h : (bootConfigAddr ≤ x ∧ x < bootConfigAddr + shadowConfigSize) ∨
      (slotAAddr ≤ x ∧ x < slotAAddr + shadowSlotSize) ∨
      (slotBAddr ≤ x ∧ x < slotBAddr + shadowSlotSize)) : shadowBytePtr x ≠ none := by
  unfold shadowBytePtr
  split_ifs with h₁ h₂ h₃
  · simp
  · simp
  · simp
  · exact absurd h (by tauto)

/-- The QEMU build: only the shadowed windows can be programmed. -/
instance : FlashBackend Qemu where
  byte := Qemu.byte
  flashInit := Qemu.flashInit
  flashOtaSlotSpan := Qemu.flashOtaSlotSpan
  flashEraseRange := Qemu.flashEraseRange
  flashProgramWord := Qemu.flashProgramWord
  flashProgramBytes := Qemu.flashProgramBytes
  Powered s := s.power = none
  Healthy := Qemu.Healthy
  Writable x := shadowBytePtr x ≠ none
  healthy_flashInit {s} h := by
    unfold Qemu.flashInit
    split_ifs with hm
    · exact ⟨rfl, h⟩
    · exact ⟨not_not.mp hm, h⟩
  powered_of_healthy h := h.2
  flashInit_of_healthy := Qemu.flashInit_of_healthy
  headerSize_le_span := by decide
  span_le_slotSize := by decide
  writable_config _ h₁ h₂ := shadowBytePtr_ne_none (.inl ⟨h₁, h₂⟩)
  writable_slotA i hi := shadowBytePtr_ne_none (.inr (.inl ⟨Nat.le_add_right _ _,
    Nat.add_lt_add_left hi _⟩))
  writable_slotB i hi := shadowBytePtr_ne_none (.inr (.inr ⟨Nat.le_add_right _ _,
    Nat.add_lt_add_left hi _⟩))
  erase_frame := Qemu.flashEraseRange_frame
  healthy_erase addr size h := h.flashEraseRange addr size
  erase_of_healthy := Qemu.flashEraseRange_of_healthy
  programWord_frame value s hx := Qemu.flashProgramWord_frame _ value s hx
  programWord_read := Qemu.flashProgramWord_read
  healthy_programWord _ value h := (Qemu.flashProgramWord_of_healthy value h).1
  programWord_of_healthy value h ha he := (Qemu.flashProgramWord_of_healthy value h).2 ha
    fun i hi ↦ (he i hi).2
  programBytes_frame s hx := Qemu.programLoop_frame _ _ s hx
  programBytes_read := Qemu.programLoop_read
  healthy_programBytes _ _ h := (Qemu.programLoop_of_healthy h).1
  programBytes_of_healthy h he := (Qemu.programLoop_of_healthy h).2 fun i hi ↦ (he i hi).2

/-! ## Steps on a healthy device -/

namespace FlashBackend

variable {σ : Type} [FlashBackend σ] (addr : Nat) {s : σ}

/-- A range erase inside the flash. -/
theorem exists_erase (size : Nat) (h : Healthy s) (haddr : flashBaseAddr ≤ addr) (hsize : 0 < size)
    (hend : addr + size ≤ flashBaseAddr + flashTotalSize) :
    ∃ s', flashEraseRange addr size s = (.ok, s') ∧ Healthy s' ∧
      (∀ x, Covered addr size x → x < flashBaseAddr + flashTotalSize → Writable σ x →
        byte s' x = 0xFF) ∧
      ∀ x, ¬Covered addr size x → byte s' x = byte s x := by
  obtain ⟨h₁, h₂⟩ := erase_of_healthy h haddr hsize hend
  exact ⟨_, Prod.ext h₁ rfl, healthy_erase addr size h, h₂, fun x hx ↦ erase_frame s hx⟩

/-- Programming an erased range. -/
theorem exists_programBytes (data : List UInt8) (h : Healthy s)
    (he : ∀ i < data.length, byte s (addr + i) = 0xFF ∧ Writable σ (addr + i)) :
    ∃ s', flashProgramBytes addr data s = (.ok, s') ∧ Healthy s' ∧
      (byte s').read addr data.length = data ∧
      ∀ x, x < addr ∨ addr + data.length ≤ x → byte s' x = byte s x := by
  have hok := programBytes_of_healthy h he
  exact ⟨_, Prod.ext hok rfl, healthy_programBytes addr data h, programBytes_read hok,
    fun x hx ↦ programBytes_frame s hx⟩

/-- Programming an erased word. -/
theorem exists_programWord (value : UInt32) (h : Healthy s) (ha : addr % 4 = 0)
    (he : ∀ i < 4, byte s (addr + i) = 0xFF ∧ Writable σ (addr + i)) :
    ∃ s', flashProgramWord addr value s = (.ok, s') ∧ Healthy s' ∧
      (byte s').read addr 4 = bytes32 value ∧
      ∀ x, x < addr ∨ addr + 4 ≤ x → byte s' x = byte s x := by
  have hok := programWord_of_healthy value h ha he
  exact ⟨_, Prod.ext hok rfl, healthy_programWord addr value h, programWord_read hok,
    fun x hx ↦ programWord_frame value s hx⟩

end FlashBackend

end DualBank
