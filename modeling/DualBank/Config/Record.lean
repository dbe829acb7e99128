import DualBank.Common.Firmware
import DualBank.Crypto.Crc32

/-!
# Boot configuration record

`BootConfig_t` and the functions of `bootloader/src/boot_config.c` that work on a
record in memory: the packed layout, the CRC over its body, and the anti-downgrade
floor that three of its fields keep.
-/

namespace DualBank

open Lib

/-- `BootConfig_t`. -/
@[ext] structure BootConfig where
  slotAVersion : UInt32
  slotBVersion : UInt32
  activeSlot : UInt8
  bootAttempts : UInt8
  rollbackCounter : UInt8
  reserved : UInt8
  lastGoodBoot : UInt32
  magic : UInt32
  crc32 : UInt32
deriving DecidableEq, Repr

/-- `sizeof(BootConfig_t)`. -/
def bootConfigRecordSize : Nat := 24

def cfgCrcOffset : Nat := 20

namespace BootConfig

/-! ## Layout -/

/-- The bytes `[0, 20)` of the packed record. -/
def body (cfg : BootConfig) : List UInt8 :=
  bytes32 cfg.slotAVersion ++ bytes32 cfg.slotBVersion ++
    [cfg.activeSlot, cfg.bootAttempts, cfg.rollbackCounter, cfg.reserved] ++
    bytes32 cfg.lastGoodBoot ++ bytes32 cfg.magic

/-- The packed record. -/
def toBytes (cfg : BootConfig) : List UInt8 := cfg.body ++ bytes32 cfg.crc32

/-- The record that 24 bytes hold. -/
def ofBytes (bs : List UInt8) : BootConfig where
  slotAVersion := u32At bs 0
  slotBVersion := u32At bs 4
  activeSlot := bs.getD 8 0
  bootAttempts := bs.getD 9 0
  rollbackCounter := bs.getD 10 0
  reserved := bs.getD 11 0
  lastGoodBoot := u32At bs 12
  magic := u32At bs 16
  crc32 := u32At bs 20

/-- The record in the configuration area of a memory. -/
def ofMem (m : Mem) : BootConfig := ofBytes (m.read bootConfigAddr bootConfigRecordSize)

@[simp] theorem length_body (cfg : BootConfig) : cfg.body.length = cfgCrcOffset := rfl

@[simp] theorem length_toBytes (cfg : BootConfig) : cfg.toBytes.length = bootConfigRecordSize := rfl

/-- The packed record holds its fields. -/
@[simp] theorem ofBytes_toBytes (cfg : BootConfig) : ofBytes cfg.toBytes = cfg := by
  simp [ofBytes, toBytes, body, bytes32, u32At]

/-- Every 24 bytes are the packed form of the record they hold. -/
theorem toBytes_ofBytes {bs : List UInt8} (h : bs.length = bootConfigRecordSize) :
    (ofBytes bs).toBytes = bs := by
  match bs, h with
  | [_, _, _, _, _, _, _, _, _, _, _, _, _, _, _, _, _, _, _, _, _, _, _, _], _ =>
      simp [ofBytes, toBytes, body, u32At]

theorem toBytes_injective : Function.Injective toBytes := fun c c' h ↦ by
  rw [← ofBytes_toBytes c, h, ofBytes_toBytes]

theorem ofMem_of_read {m : Mem} {cfg : BootConfig}
    (h : m.read bootConfigAddr bootConfigRecordSize = cfg.toBytes) : ofMem m = cfg := by
  rw [ofMem, h, ofBytes_toBytes]

theorem ofMem_congr {m m' : Mem}
    (h : Set.EqOn m m' (Set.Ico bootConfigAddr (bootConfigAddr + bootConfigRecordSize))) :
    ofMem m = ofMem m' := by
  rw [ofMem, ofMem, Mem.read_congr h]

/-! ## Defaults and the CRC -/

def bootConfigStampCrc (cfg : BootConfig) : BootConfig :=
  { cfg with crc32 := DualBank.crc32 cfg.body }

def bootConfigDefault : BootConfig := bootConfigStampCrc
  { slotAVersion := 0
    slotBVersion := 0
    activeSlot := slotA
    bootAttempts := 0
    rollbackCounter := 0
    reserved := 0
    lastGoodBoot := 0
    magic := bootConfigMagic
    crc32 := 0 }

def bootConfigValidate (cfg : BootConfig) : Bool :=
  if cfg.magic ≠ bootConfigMagic then false else DualBank.crc32 cfg.body == cfg.crc32

@[simp] theorem body_stampCrc (cfg : BootConfig) : (bootConfigStampCrc cfg).body = cfg.body := rfl

@[simp] theorem stampCrc_stampCrc (cfg : BootConfig) :
    bootConfigStampCrc (bootConfigStampCrc cfg) = bootConfigStampCrc cfg := rfl

@[simp] theorem activeSlot_stampCrc (cfg : BootConfig) :
    (bootConfigStampCrc cfg).activeSlot = cfg.activeSlot := rfl

theorem bootConfigValidate_iff {cfg : BootConfig} :
    bootConfigValidate cfg = true ↔
      cfg.magic = bootConfigMagic ∧ bootConfigStampCrc cfg = cfg := by
  unfold bootConfigValidate
  split_ifs with h
  · simp [h]
  · rw [beq_iff_eq]
    refine ⟨fun e ↦ ⟨not_not.mp h, ?_⟩, fun e ↦ ?_⟩
    · unfold bootConfigStampCrc; rw [e]
    · rw [← congrArg BootConfig.crc32 e.2]; rfl

/-- A stamped record passes its own check. -/
@[simp] theorem bootConfigValidate_stampCrc (cfg : BootConfig) :
    bootConfigValidate (bootConfigStampCrc cfg) = (cfg.magic == bootConfigMagic) := by
  rw [Bool.eq_iff_iff, bootConfigValidate_iff, beq_iff_eq]
  exact and_iff_left rfl

@[simp] theorem slotAVersion_default : bootConfigDefault.slotAVersion = 0 := rfl
@[simp] theorem slotBVersion_default : bootConfigDefault.slotBVersion = 0 := rfl
@[simp] theorem activeSlot_default : bootConfigDefault.activeSlot = slotA := rfl
@[simp] theorem bootAttempts_default : bootConfigDefault.bootAttempts = 0 := rfl
@[simp] theorem rollbackCounter_default : bootConfigDefault.rollbackCounter = 0 := rfl

theorem bootConfigValidate_default : bootConfigValidate bootConfigDefault = true := by
  rw [bootConfigDefault, bootConfigValidate_stampCrc]; rfl

/-! ## The anti-downgrade floor -/

/-- The rollback counter that goes with a version: its major byte, at least one. -/
def rollbackOf (version : UInt32) : UInt8 :=
  let major := ((version >>> 16) &&& 0xFF).toUInt8
  if major ≠ 0 then major else 1

def bootConfigAntidowngradeFloor (cfg : BootConfig) : UInt32 :=
  let floor := cfg.rollbackCounter.toUInt32 <<< 16
  let floor := if cfg.slotAVersion > floor then cfg.slotAVersion else floor
  if cfg.slotBVersion > floor then cfg.slotBVersion else floor

@[simp] theorem antidowngradeFloor_stampCrc (cfg : BootConfig) :
    bootConfigAntidowngradeFloor (bootConfigStampCrc cfg) = bootConfigAntidowngradeFloor cfg := rfl

def bootConfigFirmwareAllowed (cfg : BootConfig) (fwVersion : UInt32) : Bool :=
  fwVersion ≥ bootConfigAntidowngradeFloor cfg

def bootConfigRecordOtaToSlot (cfg : BootConfig) (slot : UInt8) (fwVersion : UInt32) :
    BootConfig :=
  let floor := bootConfigAntidowngradeFloor cfg
  let cfg :=
    if slot = slotA then { cfg with slotAVersion := fwVersion }
    else { cfg with slotBVersion := fwVersion }
  if fwVersion > floor then { cfg with rollbackCounter := rollbackOf fwVersion } else cfg

theorem toNat_shift_rollback (r : UInt8) : (r.toUInt32 <<< 16).toNat = r.toNat * 65536 := by
  have h := r.toNat_lt
  rw [UInt32.toNat_shiftLeft, UInt8.toNat_toUInt32, show (16 : UInt32).toNat % 32 = 16 from rfl,
    Nat.shiftLeft_eq, Nat.mod_eq_of_lt (by omega)]

/-- The floor is the largest of the two recorded versions and the shifted counter. -/
theorem toNat_floor (cfg : BootConfig) :
    (bootConfigAntidowngradeFloor cfg).toNat =
      max (max (cfg.rollbackCounter.toNat * 65536) cfg.slotAVersion.toNat)
        cfg.slotBVersion.toNat := by
  unfold bootConfigAntidowngradeFloor
  simp only [gt_iff_lt, UInt32.lt_iff_toNat_lt]
  split_ifs with h₁ h₂ h₂ <;>
    simp only [toNat_shift_rollback] at * <;> omega

theorem bootConfigFirmwareAllowed_iff {cfg : BootConfig} {v : UInt32} :
    bootConfigFirmwareAllowed cfg v = true ↔
      (bootConfigAntidowngradeFloor cfg).toNat ≤ v.toNat := by
  simp [bootConfigFirmwareAllowed, UInt32.le_iff_toNat_le]

/-- The counter of a version puts the floor at the version, and at `0x10000` at
least. -/
theorem max_rollbackOf (v : UInt32) :
    max v.toNat ((rollbackOf v).toNat * 65536) = max v.toNat 65536 := by
  have hmaj : ((v >>> 16) &&& 0xFF).toUInt8.toNat = v.toNat / 65536 % 256 := by
    rw [UInt32.toNat_toUInt8, UInt32.toNat_and, UInt32.toNat_shiftRight,
      show (16 : UInt32).toNat % 32 = 16 from rfl, Nat.shiftRight_eq_div_pow,
      show (255 : UInt32).toNat = 2 ^ 8 - 1 from rfl, Nat.and_two_pow_sub_one_eq_mod]
    omega
  unfold rollbackOf
  dsimp only
  split_ifs with h
  · rw [hmaj]
    have h0 : v.toNat / 65536 % 256 ≠ 0 := fun e ↦ h (UInt8.toNat_inj.mp (by rw [hmaj, e]; rfl))
    omega
  · rfl

/-- Recording an allowed version never lowers the floor. -/
theorem floor_le_recordOta {cfg : BootConfig} (slot : UInt8) {v : UInt32}
    (h : bootConfigFirmwareAllowed cfg v = true) :
    (bootConfigAntidowngradeFloor cfg).toNat ≤
      (bootConfigAntidowngradeFloor (bootConfigRecordOtaToSlot cfg slot v)).toNat := by
  have hv := bootConfigFirmwareAllowed_iff.1 h
  refine Nat.le_trans hv ?_
  rw [toNat_floor]
  unfold bootConfigRecordOtaToSlot
  dsimp only
  split_ifs <;> dsimp only <;> omega

/-! ## Frame of the record updates -/

@[simp] theorem recordOta_magic (cfg : BootConfig) (slot : UInt8) (v : UInt32) :
    (bootConfigRecordOtaToSlot cfg slot v).magic = cfg.magic := by
  unfold bootConfigRecordOtaToSlot; dsimp only; split_ifs <;> rfl

@[simp] theorem recordOta_activeSlot (cfg : BootConfig) (slot : UInt8) (v : UInt32) :
    (bootConfigRecordOtaToSlot cfg slot v).activeSlot = cfg.activeSlot := by
  unfold bootConfigRecordOtaToSlot; dsimp only; split_ifs <;> rfl

@[simp] theorem recordOta_bootAttempts (cfg : BootConfig) (slot : UInt8) (v : UInt32) :
    (bootConfigRecordOtaToSlot cfg slot v).bootAttempts = cfg.bootAttempts := by
  unfold bootConfigRecordOtaToSlot; dsimp only; split_ifs <;> rfl

/-- The floor reads three fields only. -/
theorem floor_congr {c c' : BootConfig} (hr : c.rollbackCounter = c'.rollbackCounter)
    (ha : c.slotAVersion = c'.slotAVersion) (hb : c.slotBVersion = c'.slotBVersion) :
    bootConfigAntidowngradeFloor c = bootConfigAntidowngradeFloor c' := by
  unfold bootConfigAntidowngradeFloor; rw [hr, ha, hb]

end BootConfig

end DualBank
