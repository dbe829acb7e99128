import DualBank.Common.MemoryMap

/-!
# Shared boot block

The 16 bytes of SRAM that survive a soft reset (`common/shared_memory.h`) and the
two calls by which an application writes them
(`application/include/bootloader_api.h`).
-/

namespace DualBank

/-- `SharedBootBlock_t`. -/
@[ext] structure SharedBootBlock where
  magic : UInt32
  bootConfirmed : UInt32
  otaPending : UInt32
  reserved : UInt32
deriving DecidableEq, Repr

/-- The application reports that it is alive. -/
def bootloaderConfirmBoot (b : SharedBootBlock) : SharedBootBlock :=
  { b with magic := sharedBlockMagic, bootConfirmed := 1 }

/-- The application asks for a swap at the next reset. -/
def bootloaderRequestOtaSwap (b : SharedBootBlock) : SharedBootBlock :=
  { b with magic := sharedBlockMagic, otaPending := 1 }

namespace SharedBootBlock

/-- The test of `check_app_confirmation`: a valid block with its flag set. -/
def confirmed (b : SharedBootBlock) : Bool :=
  b.magic == sharedBlockMagic && b.bootConfirmed != 0

/-- A block whose SRAM was lost. -/
def zero : SharedBootBlock := ⟨0, 0, 0, 0⟩

theorem confirmed_of_magic_ne {b : SharedBootBlock} (h : b.magic ≠ sharedBlockMagic) :
    b.confirmed = false := by simp [confirmed, h]

@[simp] theorem confirmed_confirmBoot (b : SharedBootBlock) :
    (bootloaderConfirmBoot b).confirmed = true := by
  simp [confirmed, bootloaderConfirmBoot]

@[simp] theorem otaPending_confirmBoot (b : SharedBootBlock) :
    (bootloaderConfirmBoot b).otaPending = b.otaPending := rfl

end SharedBootBlock

end DualBank
