import DualBank.Common.MemoryMap
import DualBank.Config.Record
import DualBank.Lib.Run

/-!
# The floor after an update

An update records the installed version in its slot and, where it is newer than the floor,
its major byte in the rollback counter.  The counter of a version without a major byte is
one, not zero, so below `0x10000` the floor comes out above the version just installed.
-/

namespace DualBank

open Lib BootConfig

/-! ## One update -/

/-- The floor is `v`: the versions from `v` on are installable, and no others. -/
structure FloorIs (cfg : BootConfig) (v : UInt32) : Prop where
  floor : bootConfigAntidowngradeFloor cfg = v
  installable : ∀ w, bootConfigFirmwareAllowed cfg w = true ↔ v ≤ w

theorem floorIs_iff {cfg : BootConfig} {v : UInt32} :
    FloorIs cfg v ↔ (bootConfigAntidowngradeFloor cfg).toNat = v.toNat := by
  constructor
  · intro h
    rw [h.floor]
  · intro h
    have he : bootConfigAntidowngradeFloor cfg = v := UInt32.toNat_inj.mp h
    refine ⟨he, fun w ↦ ?_⟩
    rw [bootConfigFirmwareAllowed_iff, he, UInt32.le_iff_toNat_le]

/-- The floor after an update to an allowed version: the version, if it was the floor
before, and else the version or `0x10000`, whichever is greater. -/
theorem toNat_floor_recordOta {cfg : BootConfig} {slot : UInt8} {v : UInt32}
    (h : bootConfigFirmwareAllowed cfg v = true) :
    (bootConfigAntidowngradeFloor (bootConfigRecordOtaToSlot cfg slot v)).toNat =
      if v = bootConfigAntidowngradeFloor cfg then v.toNat else max v.toNat 65536 := by
  have hle := bootConfigFirmwareAllowed_iff.1 h
  have hf := toNat_floor cfg
  unfold bootConfigRecordOtaToSlot
  dsimp only
  by_cases he : v = bootConfigAntidowngradeFloor cfg
  · -- the counter and the other slot stay at or below the old floor
    have hkept : ∀ {floor counter a b : Nat}, floor = max (max counter a) b →
        max (max counter floor) b = floor ∧ max (max counter a) floor = floor :=
      fun h ↦ by omega
    have hlt : ¬v > bootConfigAntidowngradeFloor cfg := by
      rw [he]
      exact UInt32.lt_irrefl _
    rw [if_pos he, if_neg hlt, toNat_floor, he]
    split_ifs
    · exact (hkept hf).1
    · exact (hkept hf).2
  · -- the counter is set anew, and the other slot stays below the version
    have hset : ∀ {floor counter counter' a b n m : Nat},
        floor = max (max counter a) b → floor ≤ n → max n counter' = m →
          max (max counter' n) b = m ∧ max (max counter' a) n = m :=
      fun h₁ h₂ h₃ ↦ by omega
    have hne : v.toNat ≠ (bootConfigAntidowngradeFloor cfg).toNat :=
      fun e ↦ he (UInt32.toNat_inj.mp e)
    have hlt : v > bootConfigAntidowngradeFloor cfg :=
      UInt32.lt_iff_toNat_lt.2 (Nat.lt_of_le_of_ne hle (Ne.symm hne))
    rw [if_neg he, if_pos hlt, toNat_floor]
    split_ifs
    · exact (hset hf hle (max_rollbackOf v)).1
    · exact (hset hf hle (max_rollbackOf v)).2

theorem floorIs_recordOta_iff {cfg : BootConfig} {slot : UInt8} {v : UInt32}
    (h : bootConfigFirmwareAllowed cfg v = true) :
    FloorIs (bootConfigRecordOtaToSlot cfg slot v) v ↔
      v = bootConfigAntidowngradeFloor cfg ∨ 0x10000 ≤ v := by
  rw [floorIs_iff, toNat_floor_recordOta h, UInt32.le_iff_toNat_le]
  show _ ↔ _ ∨ 65536 ≤ v.toNat
  split_ifs with he
  · exact ⟨fun _ ↦ .inl he, fun _ ↦ rfl⟩
  · constructor
    · intro hm
      exact .inr (by omega)
    · rintro (hv | hv)
      · exact absurd hv he
      · exact Nat.max_eq_left hv

/-! ## Sequences of updates -/

structure OtaUpdate where
  slot : UInt8
  version : UInt32

def recordUpdate (cfg : BootConfig) (u : OtaUpdate) : BootConfig :=
  bootConfigRecordOtaToSlot cfg u.slot u.version

/-- An update of a slot to a version that the record allows. -/
def Admits (cfg : BootConfig) (u : OtaUpdate) : Prop :=
  IsSlot u.slot ∧ bootConfigFirmwareAllowed cfg u.version = true

/-- **Exact floor.**  After any sequence of allowed updates the floor is the version of the
last one exactly when that was the floor before it, or is `0x10000` at least. -/
theorem exactFloor_iff (cfg : BootConfig) :
    (∀ (slot : UInt8) (v : UInt32), IsSlot slot → bootConfigFirmwareAllowed cfg v = true →
      (FloorIs (bootConfigRecordOtaToSlot cfg slot v) v ↔
        v = bootConfigAntidowngradeFloor cfg ∨ 0x10000 ≤ v)) ∧
    ∀ (us : List OtaUpdate) (u : OtaUpdate), Along recordUpdate Admits cfg (us ++ [u]) →
      (FloorIs ((us ++ [u]).foldl recordUpdate cfg) u.version ↔
        u.version = bootConfigAntidowngradeFloor (us.foldl recordUpdate cfg) ∨
          0x10000 ≤ u.version) := by
  refine ⟨fun slot v _ h ↦ floorIs_recordOta_iff h, fun us u hrun ↦ ?_⟩
  have hlast : Admits (us.foldl recordUpdate cfg) u := ((along_append ..).1 hrun).2.1
  rw [List.foldl_append]
  exact floorIs_recordOta_iff hlast.2

/-- Version 0.1.0 on a fresh record: the floor comes out at 1.0.0, and the version just
installed is refused. -/
theorem minor_version_refused :
    bootConfigFirmwareAllowed bootConfigDefault 0x100 = true ∧
      bootConfigAntidowngradeFloor (bootConfigRecordOtaToSlot bootConfigDefault slotA 0x100) =
        0x10000 ∧
      bootConfigFirmwareAllowed (bootConfigRecordOtaToSlot bootConfigDefault slotA 0x100) 0x100 =
        false := by
  decide +kernel

end DualBank
