import DualBank.Common.SharedMemory
import DualBank.Config.Store
import DualBank.Crypto.Verify

/-!
# The platform of the boot code

`main.c` and the loader of `boot_config.c` use the layers below through six calls,
the fields of a `Platform`.  Verification is an operation on the state, so that a
platform can answer each call on its own.

Over a platform this file has `boot_config_load` with its fallback, and the
platforms the development uses: the real one over a flash backend (`onFlash`), one
whose verification outcomes and headers are given (`withSlots`), and one that also
records the saves (`logged`).
-/

namespace DualBank

open Lib BootConfig

/-- What the boot code uses of the flash driver, the record store and the verifier. -/
structure Platform (σ : Type) where
  flashInit : σ → σ
  /-- `flash_read` of the record. -/
  readConfig : σ → BootConfig
  bootConfigSave : BootConfig → σ → Bool × σ
  cryptoVerifyFirmware : Nat → σ → Bool × σ
  /-- `flash_read` of a slot header. -/
  readHeader : Nat → σ → FirmwareHeader

variable {σ : Type}

/-! ## Loading the record -/

/-- The version of a slot that `boot_config_recover_from_slots` finds valid. -/
def recoverVersion (P : Platform σ) (slotAddr : Nat) (s : σ) : Option UInt32 × σ :=
  let hdr := P.readHeader slotAddr s
  if hdr.admissible then
    let r := P.cryptoVerifyFirmware slotAddr s
    (if r.1 then some hdr.version else none, r.2)
  else (none, s)

/-- The record updates of `boot_config_recover_from_slots`, from the versions of the
valid slots.  `takeA` and `takeB` are the two branches that raise the local `floor`. -/
def recoverFields (cfg : BootConfig) (a b : Option UInt32) : BootConfig :=
  let verA := a.getD cfg.slotAVersion
  let verB := b.getD cfg.slotBVersion
  let takeA := a.isSome && verA > 0
  let floor := if takeA then verA else 0
  let takeB := b.isSome && verB > floor
  let floor := if takeB then verB else floor
  bootConfigStampCrc
    { cfg with
      slotAVersion := verA
      slotBVersion := verB
      activeSlot := if takeB then slotB else if takeA then slotA else cfg.activeSlot
      rollbackCounter := if floor > 0 then rollbackOf floor else cfg.rollbackCounter }

def bootConfigRecoverFromSlots (P : Platform σ) (cfg : BootConfig) (s : σ) : BootConfig × σ :=
  let a := recoverVersion P slotAAddr s
  let b := recoverVersion P slotBAddr a.2
  (recoverFields cfg a.1 b.1, b.2)

def bootConfigLoad (P : Platform σ) (s : σ) : Bool × BootConfig × σ :=
  let cfg := P.readConfig s
  if bootConfigValidate cfg then (true, cfg, s)
  else (false, bootConfigRecoverFromSlots P bootConfigDefault s)

section Recover

variable (a b : Option UInt32)

/-- The record `boot_config_load` falls back to. -/
def recovered : BootConfig := recoverFields bootConfigDefault a b

theorem recovered_validate : bootConfigValidate (recovered a b) = true := by
  rw [recovered, recoverFields, bootConfigValidate_stampCrc]; rfl

@[simp] theorem recovered_slotAVersion : (recovered a b).slotAVersion = a.getD 0 := rfl
@[simp] theorem recovered_slotBVersion : (recovered a b).slotBVersion = b.getD 0 := rfl
@[simp] theorem recovered_bootAttempts : (recovered a b).bootAttempts = 0 := rfl

private theorem takeA_eq : (if a.isSome && a.getD 0 > 0 then a.getD 0 else 0) = a.getD 0 := by
  cases a with
  | none => rfl
  | some v =>
      simp only [Option.isSome, Option.getD, Bool.true_and, decide_eq_true_eq]
      split_ifs with h
      · rfl
      · exact (UInt32.toNat_inj.mp (by simpa [UInt32.lt_iff_toNat_lt] using h)).symm

private theorem takeB_eq (floor : UInt32) :
    (b.isSome && b.getD 0 > floor) = decide (b.getD 0 > floor) := by
  cases b with
  | none =>
      have h : ¬(0 : UInt32) > floor := by simp [UInt32.lt_iff_toNat_lt]
      simp [h]
  | some v => rfl

/-- The recovered record names slot A unless slot B has the larger version. -/
theorem recovered_activeSlot :
    (recovered a b).activeSlot = if b.getD 0 > a.getD 0 then slotB else slotA := by
  have hrfl : (recovered a b).activeSlot =
      if b.isSome && b.getD 0 > (if a.isSome && a.getD 0 > 0 then a.getD 0 else 0) then slotB
      else if a.isSome && a.getD 0 > 0 then slotA else slotA := rfl
  rw [hrfl, takeA_eq, takeB_eq, ite_self]
  simp only [decide_eq_true_eq]

theorem recovered_activeSlot_cases :
    IsSlot (recovered a b).activeSlot := by
  rw [recovered_activeSlot]
  split_ifs
  · exact .inr rfl
  · exact .inl rfl

theorem recovered_rollbackCounter : (recovered a b).rollbackCounter =
    let floor := if b.getD 0 > a.getD 0 then b.getD 0 else a.getD 0
    if floor > 0 then rollbackOf floor else 0 := by
  have hrfl : (recovered a b).rollbackCounter =
      let floorA := if a.isSome && a.getD 0 > 0 then a.getD 0 else 0
      let floor := if b.isSome && b.getD 0 > floorA then b.getD 0 else floorA
      if floor > 0 then rollbackOf floor else 0 := rfl
  simp only [takeA_eq] at hrfl
  simp only [hrfl, takeB_eq, decide_eq_true_eq]

/-- The recovered floor is the larger valid version, raised to `0x10000`; without a
version above zero it is zero. -/
theorem recovered_floor : (bootConfigAntidowngradeFloor (recovered a b)).toNat =
    let v := max (a.getD 0).toNat (b.getD 0).toNat
    if v = 0 then 0 else max v 65536 := by
  have ha := max_rollbackOf (a.getD 0)
  have hb := max_rollbackOf (b.getD 0)
  rw [toNat_floor, recovered_rollbackCounter, recovered_slotAVersion, recovered_slotBVersion]
  generalize a.getD 0 = v at *
  generalize b.getD 0 = w at *
  simp only [gt_iff_lt, UInt32.lt_iff_toNat_lt, UInt32.toNat_zero]
  by_cases h : v.toNat < w.toNat
  · rw [if_pos h, if_pos (by omega)]
    split_ifs <;> omega
  · rw [if_neg h]
    split_ifs
    · omega
    · omega
    · rw [UInt8.toNat_zero]; omega
    · rw [UInt8.toNat_zero]; omega

end Recover

end DualBank
