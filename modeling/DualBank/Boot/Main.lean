import DualBank.Boot.Platform

/-!
# The boot state machine

`bootloader/src/main.c` over a platform.  A pass of `main` ends in one of three
ways, a `Decision`; the log output and the watchdog have no part in it.
-/

namespace DualBank

open BootConfig

variable {σ : Type}

def maxSwapRetries : Nat := 4
def maxBootAttempts : UInt8 := 3

/-- The device and the shared block: what a reset leaves in place. -/
structure Machine (σ : Type) where
  dev : σ
  shared : SharedBootBlock

/-- The locals of `main` and the machine they are about. -/
structure BootState (σ : Type) where
  cfg : BootConfig
  cfgDirty : Bool
  dev : σ
  shared : SharedBootBlock

/-- `save_or_warn` under `if (cfg_dirty)`: the outcome of the save is only logged. -/
def saveIfDirty (P : Platform σ) (st : BootState σ) : BootState σ :=
  if st.cfgDirty then { st with dev := (P.bootConfigSave st.cfg st.dev).2, cfgDirty := false }
  else st

def checkAppConfirmation (st : BootState σ) : BootState σ :=
  let st :=
    if st.shared.magic = sharedBlockMagic ∧ st.shared.bootConfirmed ≠ 0 then
      { st with
        cfg := { st.cfg with bootAttempts := 0, lastGoodBoot := st.cfg.lastGoodBoot + 1 }
        cfgDirty := true }
    else st
  { st with shared := { st.shared with bootConfirmed := 0, magic := sharedBlockMagic } }

/-- The exits of `process_ota_pending_swap`, which the source tells apart on the log. -/
inductive SwapResult where
  | notPending
  | verifyFailed
  | badHeader
  | rejected
  | committed
  | reverted
deriving DecidableEq, Repr

/-- The record a swap to the inactive slot commits. -/
def swapConfig (cfg : BootConfig) (fwVersion : UInt32) : BootConfig :=
  let inactive := memoryMapOtherSlot cfg.activeSlot
  { bootConfigRecordOtaToSlot cfg inactive fwVersion with
    activeSlot := inactive
    bootAttempts := 0 }

def processOtaPendingSwap (P : Platform σ) (st : BootState σ) : SwapResult × BootState σ :=
  if st.shared.otaPending = 0 then (.notPending, st)
  else
    let st := { st with shared := { st.shared with otaPending := 0 } }
    let inactive := memoryMapOtherSlot st.cfg.activeSlot
    let inactiveAddr := memoryMapSlotAddr inactive
    let v := P.cryptoVerifyFirmware inactiveAddr st.dev
    let st := { st with dev := v.2 }
    if !v.1 then (.verifyFailed, st)
    else
      let hdr := P.readHeader inactiveAddr st.dev
      if hdr.magic ≠ firmwareMagic then (.badHeader, st)
      else if !bootConfigFirmwareAllowed st.cfg hdr.version then (.rejected, st)
      else
        let oldActive := st.cfg.activeSlot
        let st := { st with cfg := swapConfig st.cfg hdr.version, cfgDirty := true }
        let st := { st with dev := (P.bootConfigSave st.cfg st.dev).2 }
        let v := P.cryptoVerifyFirmware (memoryMapSlotAddr st.cfg.activeSlot) st.dev
        let st := { st with dev := v.2 }
        if v.1 then (.committed, st)
        else
          let st := { st with cfg := { st.cfg with activeSlot := oldActive } }
          (.reverted, { st with dev := (P.bootConfigSave st.cfg st.dev).2 })

/-- The exits of `pick_slot_to_boot`; the last two return `0`. -/
inductive PickResult where
  | boot (slot : UInt8)
  | bothFailed
  | retriesExceeded
deriving DecidableEq, Repr

/-- The value `pick_slot_to_boot` returns. -/
def PickResult.toUInt8 : PickResult → UInt8
  | .boot slot => slot
  | .bothFailed => 0
  | .retriesExceeded => 0

/-- `n` turns of the loop of `pick_slot_to_boot`. -/
def pickLoop (P : Platform σ) : Nat → BootState σ → PickResult × BootState σ
  | 0, st => (.retriesExceeded, st)
  | n + 1, st =>
    let v := P.cryptoVerifyFirmware (memoryMapSlotAddr st.cfg.activeSlot) st.dev
    let st := { st with dev := v.2 }
    let otherSlot := memoryMapOtherSlot st.cfg.activeSlot
    if v.1 then
      if st.cfg.bootAttempts ≥ maxBootAttempts then
        pickLoop P n
          { st with cfg := { st.cfg with activeSlot := otherSlot, bootAttempts := 0 }
                    cfgDirty := true }
      else
        (.boot st.cfg.activeSlot,
          { st with cfg := { st.cfg with bootAttempts := st.cfg.bootAttempts + 1 }
                    cfgDirty := true })
    else
      let w := P.cryptoVerifyFirmware (memoryMapSlotAddr otherSlot) st.dev
      let st := { st with dev := w.2 }
      if w.1 then
        (.boot otherSlot,
          { st with cfg := { st.cfg with activeSlot := otherSlot, bootAttempts := 0 }
                    cfgDirty := true })
      else (.bothFailed, st)

def pickSlotToBoot (P : Platform σ) (st : BootState σ) : PickResult × BootState σ :=
  pickLoop P maxSwapRetries st

/-- How a pass of `main` ends. -/
inductive Decision where
  /-- The application of the slot at this address runs. -/
  | jump (slotAddr : Nat)
  /-- The vector table is misaligned. -/
  | halted
  /-- `recovery_mode_run`. -/
  | recovery
deriving DecidableEq, Repr

def bootloaderJumpToApplication (slotAddr : Nat) : Decision :=
  if (slotAddr + firmwareHeaderSize) % 0x200 ≠ 0 then .halted else .jump slotAddr

/-- The decision that follows from the slot `pick_slot_to_boot` returns. -/
def decisionOf (bootSlot : UInt8) : Decision :=
  if bootSlot = 0 then .recovery else bootloaderJumpToApplication (memoryMapSlotAddr bootSlot)

/-- `main` up to the load of the record. -/
def mainLoad (P : Platform σ) (m : Machine σ) : BootState σ :=
  let r := bootConfigLoad P (P.flashInit m.dev)
  { cfg := r.2.1, cfgDirty := !r.1, dev := r.2.2, shared := m.shared }

/-- `main` up to the swap: the load, the confirmation check and its save. -/
def mainConfirm (P : Platform σ) (m : Machine σ) : BootState σ :=
  saveIfDirty P (checkAppConfirmation (mainLoad P m))

/-- The swap of the pass. -/
def mainSwap (P : Platform σ) (m : Machine σ) : SwapResult × BootState σ :=
  processOtaPendingSwap P (mainConfirm P m)

/-- `main` up to the choice of the slot; the state is the one at the choice, before
the last save. -/
def mainPick (P : Platform σ) (m : Machine σ) : PickResult × BootState σ :=
  pickSlotToBoot P (saveIfDirty P (mainSwap P m).2)

def main (P : Platform σ) (m : Machine σ) : Decision × Machine σ :=
  let r := mainPick P m
  let st := saveIfDirty P r.2
  (decisionOf r.1.toUInt8, { dev := st.dev, shared := st.shared })

/-! ## Decisions -/

/-- Both vector tables are aligned, so the guard of the jump never fires. -/
theorem jump_slotAddr (slot : UInt8) :
    bootloaderJumpToApplication (memoryMapSlotAddr slot) = .jump (memoryMapSlotAddr slot) := by
  rcases memoryMapSlotAddr_cases slot with h | h <;> rw [h] <;> rfl

@[simp] theorem decisionOf_zero : decisionOf 0 = .recovery := rfl

theorem decisionOf_of_ne {slot : UInt8} (h : slot ≠ 0) :
    decisionOf slot = .jump (memoryMapSlotAddr slot) := by
  rw [decisionOf, if_neg h, jump_slotAddr]

@[simp] theorem decisionOf_slotA : decisionOf slotA = .jump slotAAddr := by
  rw [decisionOf_of_ne (by decide), memoryMapSlotAddr_slotA]
@[simp] theorem decisionOf_slotB : decisionOf slotB = .jump slotBAddr := by
  rw [decisionOf_of_ne (by decide), memoryMapSlotAddr_slotB]

/-- A jump goes to one of the two slots. -/
theorem main_jump_cases {P : Platform σ} {m : Machine σ} {slotAddr : Nat}
    (h : (main P m).1 = .jump slotAddr) : slotAddr = slotAAddr ∨ slotAddr = slotBAddr := by
  have h' : decisionOf (mainPick P m).1.toUInt8 = .jump slotAddr := h
  by_cases h0 : (mainPick P m).1.toUInt8 = 0
  · rw [h0] at h'; cases h'
  · rw [decisionOf_of_ne h0] at h'
    cases h'
    exact memoryMapSlotAddr_cases _

/-! ## The confirmation check -/

/-- The record after the confirmation check. -/
def confirmConfig (confirmed : Bool) (cfg : BootConfig) : BootConfig :=
  if confirmed then { cfg with bootAttempts := 0, lastGoodBoot := cfg.lastGoodBoot + 1 } else cfg

theorem checkAppConfirmation_eq (st : BootState σ) :
    checkAppConfirmation st =
      { cfg := confirmConfig st.shared.confirmed st.cfg
        cfgDirty := st.cfgDirty || st.shared.confirmed
        dev := st.dev
        shared := { st.shared with bootConfirmed := 0, magic := sharedBlockMagic } } := by
  by_cases h : st.shared.magic = sharedBlockMagic ∧ st.shared.bootConfirmed ≠ 0
  · have hc : st.shared.confirmed = true := by simpa [SharedBootBlock.confirmed] using h
    simp [checkAppConfirmation, confirmConfig, h, hc]
  · have hc : st.shared.confirmed = false := by
      simpa [SharedBootBlock.confirmed] using h
    simp [checkAppConfirmation, confirmConfig, h, hc]

end DualBank
