import DualBank.Boot.Pass

/-!
# Rebuilding the record

When the stored record fails its check, `boot_config_load` rebuilds it from the slots that
verify.  The running maximum of the versions starts at zero and only a greater version
moves the active slot, so a slot of version zero is passed over; and the counter of a
version without a major byte is one.
-/

namespace DualBank

open Lib FlashBackend BootConfig

/-- A record that two slots call for: it passes its check, and where a slot verifies it
names a verifying slot of the greatest version, which is the floor. -/
structure Reconstructs (S : Slots) (cfg : BootConfig) : Prop where
  valid : bootConfigValidate cfg = true
  isSlot : IsSlot cfg.activeSlot
  newest : S.a.verifies = true ∨ S.b.verifies = true →
    (S.slot cfg.activeSlot).verifies = true ∧
      (∀ i, i = S.a ∨ i = S.b → i.verifies = true →
        i.version ≤ (S.slot cfg.activeSlot).version) ∧
      bootConfigAntidowngradeFloor cfg = (S.slot cfg.activeSlot).version

/-- The slots from which the record is rebuilt as it should be: none verifies, one that
does has a major byte or more, or slot A verifies and no valid version is above zero. -/
def Slots.Rebuildable (S : Slots) : Prop :=
  (S.a.verifies = false ∧ S.b.verifies = false) ∨
    (∃ i, (i = S.a ∨ i = S.b) ∧ i.verifies = true ∧ 0x10000 ≤ i.version) ∨
    (S.a.verifies = true ∧ ∀ i, i = S.a ∨ i = S.b → i.verifies = true → i.version = 0)

/-! ## The versions as numbers -/

/-- The version a slot counts with: zero unless it verifies. -/
def SlotImage.counted (i : SlotImage) : Nat := if i.verifies then i.version.toNat else 0

theorem SlotImage.counted_of_verifies {i : SlotImage} (h : i.verifies = true) :
    i.counted = i.version.toNat := if_pos h

theorem SlotImage.counted_of_not {i : SlotImage} (h : i.verifies = false) : i.counted = 0 :=
  if_neg (by rw [h]; exact Bool.false_ne_true)

variable (S : Slots)

theorem recovered_activeSlot_slots :
    (recovered S.a.validVersion S.b.validVersion).activeSlot =
      if S.a.counted < S.b.counted then slotB else slotA := by
  have hcount : ∀ i : SlotImage, (i.validVersion.getD 0).toNat = i.counted :=
    SlotImage.toNat_validVersion
  rw [recovered_activeSlot]
  simp only [gt_iff_lt, UInt32.lt_iff_toNat_lt, hcount]

/-- The rebuilt floor is the greatest valid version only from `0x10000` on, and at zero. -/
theorem recovered_floor_eq_iff :
    (bootConfigAntidowngradeFloor (recovered S.a.validVersion S.b.validVersion)).toNat =
      max S.a.counted S.b.counted ↔
    max S.a.counted S.b.counted = 0 ∨ 65536 ≤ max S.a.counted S.b.counted := by
  have hcount : ∀ i : SlotImage, (i.validVersion.getD 0).toNat = i.counted :=
    SlotImage.toNat_validVersion
  rw [recovered_floor, hcount, hcount]
  generalize max S.a.counted S.b.counted = v
  dsimp only
  split_ifs <;> omega

/-- The newest slot, in numbers. -/
theorem newest_iff {cfg : BootConfig} {i j : SlotImage} (hi : S.slot cfg.activeSlot = i)
    (hij : ∀ k, k = S.a ∨ k = S.b ↔ k = i ∨ k = j) :
    ((S.slot cfg.activeSlot).verifies = true ∧
      (∀ k, k = S.a ∨ k = S.b → k.verifies = true →
        k.version ≤ (S.slot cfg.activeSlot).version) ∧
      bootConfigAntidowngradeFloor cfg = (S.slot cfg.activeSlot).version) ↔
    i.verifies = true ∧ j.counted ≤ i.counted ∧
      (bootConfigAntidowngradeFloor cfg).toNat = i.counted := by
  rw [hi]
  refine and_congr_right fun hv ↦ ?_
  rw [SlotImage.counted_of_verifies hv]
  refine and_congr ⟨fun h ↦ ?_, fun h k hk hkv ↦ ?_⟩ UInt32.toNat_inj.symm
  · by_cases hj : j.verifies = true
    · rw [SlotImage.counted_of_verifies hj]
      exact UInt32.le_iff_toNat_le.1 (h j ((hij j).2 (.inr rfl)) hj)
    · rw [SlotImage.counted_of_not (Bool.eq_false_iff.2 hj)]
      exact Nat.zero_le _
  · rw [UInt32.le_iff_toNat_le]
    rcases (hij k).1 hk with rfl | rfl
    · exact Nat.le_refl _
    · rwa [SlotImage.counted_of_verifies hkv] at h

/-- The condition, in numbers. -/
theorem rebuildable_iff : S.Rebuildable ↔
    (S.a.verifies = false ∧ S.b.verifies = false) ∨ 65536 ≤ max S.a.counted S.b.counted ∨
      (S.a.verifies = true ∧ max S.a.counted S.b.counted = 0) := by
  have hbig : ∀ i : SlotImage, i.verifies = true ∧ 0x10000 ≤ i.version ↔ 65536 ≤ i.counted :=
    fun i ↦ by
      unfold SlotImage.counted
      split_ifs with hv
      · exact (and_iff_right hv).trans UInt32.le_iff_toNat_le
      · exact ⟨fun h ↦ absurd h.1 hv, fun h ↦ absurd h (by decide)⟩
  have hzero : ∀ i : SlotImage, (i.verifies = true → i.version = 0) ↔ i.counted = 0 := fun i ↦ by
    unfold SlotImage.counted
    split_ifs with hv
    · exact (forall_prop_of_true hv).trans UInt32.toNat_inj.symm
    · exact ⟨fun _ ↦ rfl, fun _ h ↦ absurd h hv⟩
  unfold Slots.Rebuildable
  simp only [hbig, hzero, or_and_right, exists_or, exists_eq_left, forall_eq_or_imp, forall_eq]
  refine or_congr_right (or_congr ?_ (and_congr_right fun _ ↦ ?_)) <;> omega

/-! ## The rebuilt record -/

theorem reconstructs_recovered_iff :
    Reconstructs S (recovered S.a.validVersion S.b.validVersion) ↔ S.Rebuildable := by
  have hvalid := recovered_validate S.a.validVersion S.b.validVersion
  have hslot := recovered_activeSlot_cases S.a.validVersion S.b.validVersion
  have hact := recovered_activeSlot_slots S
  have hfloor := recovered_floor_eq_iff S
  generalize recovered S.a.validVersion S.b.validVersion = cfg at *
  have hiff : Reconstructs S cfg ↔ (S.a.verifies = true ∨ S.b.verifies = true →
      (S.slot cfg.activeSlot).verifies = true ∧
        (∀ i, i = S.a ∨ i = S.b → i.verifies = true →
          i.version ≤ (S.slot cfg.activeSlot).version) ∧
        bootConfigAntidowngradeFloor cfg = (S.slot cfg.activeSlot).version) :=
    ⟨fun h ↦ h.newest, fun h ↦ ⟨hvalid, hslot, h⟩⟩
  rw [hiff, rebuildable_iff]
  by_cases hnone : S.a.verifies = false ∧ S.b.verifies = false
  · refine iff_of_true (fun h ↦ ?_) (.inl hnone)
    rw [hnone.1, hnone.2] at h
    simp at h
  have hsome : S.a.verifies = true ∨ S.b.verifies = true := by
    simpa only [not_and_or, Bool.not_eq_false] using hnone
  rw [forall_prop_of_true hsome, or_iff_right hnone]
  by_cases hlt : S.a.counted < S.b.counted
  · -- slot B is taken, and its version is above zero
    have hB : S.slot cfg.activeSlot = S.b := by rw [hact, if_pos hlt, Slots.slot_slotB]
    have hmax : max S.a.counted S.b.counted = S.b.counted := Nat.max_eq_right hlt.le
    have hv : S.b.verifies = true := by
      by_contra h
      rw [S.b.counted_of_not (Bool.eq_false_iff.2 h)] at hlt
      exact Nat.not_lt_zero _ hlt
    rw [hmax] at hfloor ⊢
    rw [newest_iff S hB fun k ↦ or_comm, hfloor]
    constructor
    · rintro ⟨-, -, h | h⟩
      · omega
      · exact .inl h
    · rintro (h | h)
      · exact ⟨hv, hlt.le, .inr h⟩
      · omega
  · -- slot A is taken, whether it verifies or not
    have hA : S.slot cfg.activeSlot = S.a := by rw [hact, if_neg hlt, Slots.slot_slotA]
    have hle : S.b.counted ≤ S.a.counted := Nat.not_lt.1 hlt
    have hmax : max S.a.counted S.b.counted = S.a.counted := Nat.max_eq_left hle
    rw [hmax] at hfloor ⊢
    rw [newest_iff S hA fun k ↦ Iff.rfl, hfloor]
    constructor
    · rintro ⟨hv, -, h | h⟩
      · exact .inr ⟨hv, h⟩
      · exact .inl h
    · rintro (h | ⟨hv, h⟩)
      · refine ⟨?_, hle, .inr h⟩
        by_contra hv
        rw [S.a.counted_of_not (Bool.eq_false_iff.2 hv)] at h
        exact absurd h (by decide)
      · exact ⟨hv, hle, .inl h⟩

/-- **Reconstruction.**  From an invalid record and any two slots, `boot_config_load`
produces the record they call for exactly when the slots are rebuildable. -/
theorem reconstruct_iff {σ : Type} [FlashBackend σ] (K : KeyStore) {s : σ}
    (h : bootConfigValidate (readConfig s) = false) :
    Reconstructs (.ofMem K (byte s)) (bootConfigLoad (onFlash σ K) s).2.1 ↔
      (Slots.ofMem K (byte s)).Rebuildable := by
  have hload := bootConfigLoad_eq (onFlash_sees (σ := σ) K) (s := s) trivial
  rw [hload]
  dsimp only
  rw [readConfig_onFlash, loadedConfig, h, if_neg Bool.false_ne_true]
  exact reconstructs_recovered_iff _

/-- A device without a record whose slot A holds an image of the version. -/
def unrecordedDevice (v : UInt32) : Hw :=
  .reset (Mem.write (fun _ ↦ 0xFF) slotAAddr (sampleImage v).bytes)

theorem byte_unrecordedDevice (v : UInt32) : byte (unrecordedDevice v) =
    Mem.write (fun _ ↦ 0xFF) slotAAddr (sampleImage v).bytes := by
  have hreset : ∀ m : Mem, byte (Hw.reset m) = m := fun _ ↦ rfl
  exact hreset _

theorem unrecordedDevice_slots (v : UInt32) :
    Slots.ofMem sampleKeys (byte (unrecordedDevice v)) = ⟨.ofSigned (sampleImage v), .erased⟩ := by
  have ha : SlotImage.ofMem sampleKeys (byte (unrecordedDevice v)) slotAAddr =
      .ofSigned (sampleImage v) :=
    SlotImage.ofMem_eq_ofSigned (by rw [byte_unrecordedDevice]; exact Mem.read_write _ _ _)
  have hb : SlotImage.ofMem sampleKeys (byte (unrecordedDevice v)) slotBAddr = .erased :=
    SlotImage.ofMem_eq_erased sampleKeys fun x h₁ _ ↦ by
      rw [byte_unrecordedDevice, Mem.write_of_notMem _ _ _ _ (.inr ?_)]
      rw [length_sampleImage]
      exact Nat.le_trans (by decide) h₁
  rw [Slots.ofMem, ha, hb]

theorem unrecordedDevice_invalid (v : UInt32) :
    bootConfigValidate (readConfig (unrecordedDevice v)) = false := by
  have hread : (byte (unrecordedDevice v)).read bootConfigAddr bootConfigRecordSize =
      List.replicate bootConfigRecordSize 0xFF := by
    rw [byte_unrecordedDevice]
    exact Mem.read_eq_replicate fun x _ h₂ ↦
      Mem.write_of_notMem _ _ _ _ (.inl (Nat.lt_of_lt_of_le h₂ (by decide)))
  unfold readConfig BootConfig.ofMem
  rw [hread]
  decide +kernel

/-- Version 1.0.0 alone in slot A. -/
theorem reconstruct_major :
    Reconstructs (.ofMem sampleKeys (byte (unrecordedDevice 0x10000)))
      (bootConfigLoad (onFlash Hw sampleKeys) (unrecordedDevice 0x10000)).2.1 := by
  refine (reconstruct_iff sampleKeys (unrecordedDevice_invalid 0x10000)).2 (.inr (.inl ?_))
  rw [unrecordedDevice_slots]
  refine ⟨_, .inl rfl, rfl, UInt32.le_iff_toNat_le.2 (Nat.le_of_eq ?_)⟩
  exact congrArg UInt32.toNat (version_sampleHeader 0x10000).symm

/-- Version 0.1.0 alone in slot A: the rebuilt floor is 1.0.0. -/
theorem reconstruct_minor :
    bootConfigValidate (readConfig (unrecordedDevice 0x100)) = false ∧
      ¬Reconstructs (.ofMem sampleKeys (byte (unrecordedDevice 0x100)))
        (bootConfigLoad (onFlash Hw sampleKeys) (unrecordedDevice 0x100)).2.1 := by
  have hinv := unrecordedDevice_invalid 0x100
  have hload := bootConfigLoad_eq (onFlash_sees (σ := Hw) sampleKeys) (s := unrecordedDevice 0x100)
    trivial
  refine ⟨hinv, ?_⟩
  rw [hload, unrecordedDevice_slots]
  dsimp only
  rw [readConfig_onFlash, loadedConfig, hinv, if_neg Bool.false_ne_true,
    reconstructs_recovered_iff, rebuildable_iff]
  have ha : (SlotImage.ofSigned (sampleImage 0x100)).counted = 0x100 :=
    (SlotImage.counted_of_verifies rfl).trans (congrArg UInt32.toNat (version_sampleHeader 0x100))
  have hb : SlotImage.erased.counted = 0 := SlotImage.counted_of_not rfl
  dsimp only
  rw [ha, hb]
  rintro (h | h | h)
  · exact absurd h.1 (by decide)
  · exact absurd h (by decide)
  · exact absurd h.2 (by decide)

end DualBank
