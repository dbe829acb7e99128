import DualBank.Boot.FixedSlots

/-!
# The anti-downgrade floor of a pass

Every record that a pass writes has a floor of at least the one it loaded.  Where the
record is lost, the floor is rebuilt from the slots, and only as high as their
versions reach.
-/

namespace DualBank

open Lib BootConfig

/-! ## The records a pass writes -/

/-- The records of a pass under way have the magic and a floor of at least `n`. -/
structure PassState.FloorAtLeast (n : Nat) (st : PassState) : Prop where
  magic : st.cfg.magic = bootConfigMagic
  floor : n ≤ (bootConfigAntidowngradeFloor st.cfg).toNat
  writes : ∀ w ∈ st.writes,
    w.magic = bootConfigMagic ∧ n ≤ (bootConfigAntidowngradeFloor w).toNat

theorem PassState.FloorAtLeast.save {n : Nat} {st : PassState} (h : st.FloorAtLeast n)
    (wear : Slots → Slots) : (st.save wear).FloorAtLeast n where
  magic := h.magic
  floor := h.floor
  writes w hw := by
    rcases List.mem_append.1 hw with hw | hw
    · exact h.writes w hw
    · rw [List.mem_singleton.1 hw]
      exact ⟨h.magic, h.floor⟩

theorem passConfirm_floorAtLeast (wear : Slots → Slots) (record : BootConfig) (S : Slots)
    (b : SharedBootBlock) : (passConfirm wear record S b).FloorAtLeast
      (bootConfigAntidowngradeFloor (loadedConfig record S)).toNat := by
  have h : PassState.FloorAtLeast (bootConfigAntidowngradeFloor (loadedConfig record S)).toNat
      ⟨confirmConfig b.confirmed (loadedConfig record S), S, []⟩ :=
    ⟨by rw [confirmConfig_magic, loadedConfig_magic], by rw [confirmConfig_floor], by simp⟩
  unfold passConfirm
  dsimp only
  split_ifs
  · exact h
  · exact h.save wear

/-- A committed swap does not lower the floor. -/
theorem floor_le_swapConfig {cfg : BootConfig} {v : UInt32}
    (h : bootConfigFirmwareAllowed cfg v = true) :
    (bootConfigAntidowngradeFloor cfg).toNat ≤
      (bootConfigAntidowngradeFloor (swapConfig cfg v)).toNat :=
  floor_le_recordOta (memoryMapOtherSlot cfg.activeSlot) h

theorem passSwap_floorAtLeast {n : Nat} {st : PassState} (wear : Slots → Slots)
    (otaPending : UInt32) (h : st.FloorAtLeast n) :
    (passSwap wear otaPending st).2.FloorAtLeast n := by
  unfold passSwap
  dsimp only
  split_ifs with h₀ h₁ h₂ h₃
  · exact h
  · exact h
  · exact h
  all_goals
    have hc : PassState.FloorAtLeast n ⟨swapConfig st.cfg
        (st.slots.slot (memoryMapOtherSlot st.cfg.activeSlot)).version, st.slots, st.writes⟩ :=
      ⟨(recordOta_magic _ _ _).trans h.magic,
        Nat.le_trans h.floor (floor_le_swapConfig (by simpa using h₂)), h.writes⟩
  · exact (hc.save wear).save wear
  · have hr : PassState.FloorAtLeast n ⟨{ swapConfig st.cfg
        (st.slots.slot (memoryMapOtherSlot st.cfg.activeSlot)).version with
          activeSlot := st.cfg.activeSlot }, wear st.slots, st.writes ++ [swapConfig st.cfg
        (st.slots.slot (memoryMapOtherSlot st.cfg.activeSlot)).version]⟩ :=
      ⟨(hc.save wear).magic, (hc.save wear).floor, (hc.save wear).writes⟩
    exact (hr.save wear).save wear

/-- Every record that a pass writes has a floor of at least the one that was loaded. -/
theorem pass_writes_floor {wear : Slots → Slots} {record : BootConfig} {S : Slots}
    {b : SharedBootBlock} {w : BootConfig} (hw : w ∈ (pass wear record S b).writes) :
    w.magic = bootConfigMagic ∧
      (bootConfigAntidowngradeFloor (loadedConfig record S)).toNat ≤
        (bootConfigAntidowngradeFloor w).toNat := by
  have h := passSwap_floorAtLeast wear b.otaPending (passConfirm_floorAtLeast wear record S b)
  unfold pass at hw
  dsimp only at hw
  split_ifs at hw
  · exact h.writes w hw
  · rcases List.mem_append.1 hw with hw | hw
    · exact h.writes w hw
    · rw [List.mem_singleton.1 hw, passPick_magic, passPick_floor]
      exact ⟨h.magic, h.floor⟩

/-- So has the record it ends with. -/
theorem pass_final_floor (wear : Slots → Slots) (record : BootConfig) (S : Slots)
    (b : SharedBootBlock) :
    (bootConfigAntidowngradeFloor (loadedConfig record S)).toNat ≤
      (bootConfigAntidowngradeFloor (pass wear record S b).final).toNat := by
  have h := passSwap_floorAtLeast wear b.otaPending (passConfirm_floorAtLeast wear record S b)
  unfold pass
  dsimp only
  rw [passPick_floor]
  exact h.floor

/-! ## Floors rebuilt from the slots -/

/-- Slot versions reach the floor `n`: a slot that verifies has a version above zero
of at least `n`, where every version counts as `0x10000` at least. -/
def Slots.Reach (S : Slots) (n : Nat) : Prop :=
  n = 0 ∨ ∃ i, (i = S.a ∨ i = S.b) ∧ i.verifies = true ∧ 0 < i.version.toNat ∧
    n ≤ max i.version.toNat 0x10000

/-- The floor that is rebuilt from the slots. -/
theorem le_recovered_floor_iff (S : Slots) (n : Nat) :
    n ≤ (bootConfigAntidowngradeFloor (recovered S.a.validVersion S.b.validVersion)).toNat ↔
      S.Reach n := by
  have hor : S.Reach n ↔ n = 0 ∨
      (S.a.verifies = true ∧ 0 < S.a.version.toNat ∧ n ≤ max S.a.version.toNat 0x10000) ∨
      (S.b.verifies = true ∧ 0 < S.b.version.toNat ∧ n ≤ max S.b.version.toNat 0x10000) := by
    simp only [Slots.Reach, or_and_right, exists_or, exists_eq_left]
  rw [hor, recovered_floor, SlotImage.toNat_validVersion, SlotImage.toNat_validVersion]
  dsimp only
  cases S.a.verifies <;> cases S.b.verifies <;>
    simp only [if_true, Bool.false_eq_true, if_false, true_and, false_and, or_false, false_or] <;>
    split_ifs <;> omega

/-- The floor of the record, if it is intact, is at least `n`. -/
def RecordFloor (n : Nat) (record : BootConfig) : Prop :=
  bootConfigValidate record = true → n ≤ (bootConfigAntidowngradeFloor record).toNat

/-- When a pass loads a floor of at least `n`, given the floor of an intact record. -/
theorem le_loaded_floor_iff {n : Nat} {record : BootConfig} (S : Slots)
    (h : RecordFloor n record) :
    n ≤ (bootConfigAntidowngradeFloor (loadedConfig record S)).toNat ↔
      bootConfigValidate record = true ∨ S.Reach n := by
  cases hv : bootConfigValidate record with
  | true =>
      rw [loadedConfig_of_valid hv]
      exact iff_of_true (h hv) (.inl rfl)
  | false =>
      rw [loadedConfig, hv, if_neg Bool.false_ne_true, le_recovered_floor_iff]
      simp

end DualBank
