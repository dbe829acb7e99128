import DualBank.Boot.Slots

/-!
# The reverted swap

`process_ota_pending_swap` changes the record and saves it before it verifies the slot a
second time; when that fails it puts the active slot back and saves again.  The versions,
the rollback counter and the attempt count are not put back.
-/

namespace DualBank

open Lib BootConfig

variable {σ : Type}

/-! ## What a swap touches -/

/-- The fields of the record that a swap writes are the same. -/
structure SameSwapFields (c c' : BootConfig) : Prop where
  activeSlot : c.activeSlot = c'.activeSlot
  slotAVersion : c.slotAVersion = c'.slotAVersion
  slotBVersion : c.slotBVersion = c'.slotBVersion
  rollbackCounter : c.rollbackCounter = c'.rollbackCounter
  bootAttempts : c.bootAttempts = c'.bootAttempts

theorem SameSwapFields.stampCrc {c c' : BootConfig} :
    SameSwapFields (bootConfigStampCrc c) c' ↔ SameSwapFields c c' :=
  ⟨fun h ↦ ⟨h.1, h.2, h.3, h.4, h.5⟩, fun h ↦ ⟨h.1, h.2, h.3, h.4, h.5⟩⟩

/-- The version that the record has for a slot. -/
def recordedVersion (cfg : BootConfig) (slot : UInt8) : UInt32 :=
  if slot = slotA then cfg.slotAVersion else cfg.slotBVersion

theorem recordedVersion_le_floor (cfg : BootConfig) (slot : UInt8) :
    (recordedVersion cfg slot).toNat ≤ (bootConfigAntidowngradeFloor cfg).toNat := by
  rw [toNat_floor]
  unfold recordedVersion
  split_ifs <;> omega

theorem recordedVersion_recordOta (cfg : BootConfig) (slot : UInt8) (v : UInt32) :
    recordedVersion (bootConfigRecordOtaToSlot cfg slot v) slot = v := by
  unfold recordedVersion bootConfigRecordOtaToSlot
  dsimp only
  split_ifs <;> rfl

/-- To record the version that is recorded already changes nothing. -/
theorem recordOta_recorded {cfg : BootConfig} {slot : UInt8} {v : UInt32}
    (h : recordedVersion cfg slot = v) : bootConfigRecordOtaToSlot cfg slot v = cfg := by
  have hle := recordedVersion_le_floor cfg slot
  have hlt : ¬v > bootConfigAntidowngradeFloor cfg := fun hgt ↦ by
    rw [gt_iff_lt, UInt32.lt_iff_toNat_lt, ← h] at hgt
    omega
  unfold bootConfigRecordOtaToSlot
  dsimp only
  rw [if_neg hlt]
  unfold recordedVersion at h
  split_ifs with hs
  · rw [if_pos hs] at h
    rw [← h]
  · rw [if_neg hs] at h
    rw [← h]

/-- The record after a reverted swap to version `v`. -/
def revertedConfig (cfg : BootConfig) (v : UInt32) : BootConfig :=
  { swapConfig cfg v with activeSlot := cfg.activeSlot }

/-- A reverted swap leaves the record as it was if the version was recorded before and no
attempt was counted, and only then. -/
theorem sameSwapFields_reverted_iff {cfg : BootConfig} {v : UInt32} :
    SameSwapFields (revertedConfig cfg v) cfg ↔
      recordedVersion cfg (memoryMapOtherSlot cfg.activeSlot) = v ∧ cfg.bootAttempts = 0 := by
  constructor
  · intro h
    have hv := recordedVersion_recordOta cfg (memoryMapOtherSlot cfg.activeSlot) v
    refine ⟨?_, h.bootAttempts.symm⟩
    rw [← hv]
    unfold recordedVersion
    rw [show (bootConfigRecordOtaToSlot cfg (memoryMapOtherSlot cfg.activeSlot) v).slotAVersion =
      cfg.slotAVersion from h.slotAVersion,
      show (bootConfigRecordOtaToSlot cfg (memoryMapOtherSlot cfg.activeSlot) v).slotBVersion =
      cfg.slotBVersion from h.slotBVersion]
  · rintro ⟨hv, ha⟩
    unfold revertedConfig swapConfig
    dsimp only
    rw [recordOta_recorded hv]
    exact ⟨rfl, rfl, rfl, rfl, ha.symm⟩

/-! ## The revert path -/

/-- The version in the header that the swap reads, after the first verification. -/
def pendingVersion (P : Platform σ) (st : BootState σ) : UInt32 :=
  let slotAddr := memoryMapSlotAddr (memoryMapOtherSlot st.cfg.activeSlot)
  (P.readHeader slotAddr (P.cryptoVerifyFirmware slotAddr st.dev).2).version

/-- The revert path ends with a save of the reverted record. -/
theorem processOtaPendingSwap_reverted {P : Platform σ} {I : σ → Prop} {st : BootState σ}
    (hsave : ∀ cfg s, I s → I (P.bootConfigSave cfg s).2)
    (hverify : ∀ slotAddr s, I s → I (P.cryptoVerifyFirmware slotAddr s).2) (hI : I st.dev)
    (h : (processOtaPendingSwap P st).1 = .reverted) :
    (processOtaPendingSwap P st).2.cfg = revertedConfig st.cfg (pendingVersion P st) ∧
      ∃ s, I s ∧ (processOtaPendingSwap P st).2.dev =
        (P.bootConfigSave (revertedConfig st.cfg (pendingVersion P st)) s).2 := by
  unfold processOtaPendingSwap at h ⊢
  dsimp only at h ⊢
  split_ifs at h ⊢
  exact ⟨rfl, _, hverify _ _ (hsave _ _ (hverify _ _ hI)), rfl⟩

/-- **Reverted swaps.**  With saves that succeed, and verifications that answer as they
like, a reverted swap leaves no trace in memory and on flash exactly when the version of the
image was recorded before and no boot attempt was counted. -/
theorem revert_traceless_iff {P : Platform σ} {I : σ → Prop} (hstores : P.Stores I)
    (hverify : ∀ slotAddr s, I s → I (P.cryptoVerifyFirmware slotAddr s).2)
    {st : BootState σ} (hI : I st.dev) (h : (processOtaPendingSwap P st).1 = .reverted) :
    (SameSwapFields (processOtaPendingSwap P st).2.cfg st.cfg ∧
      SameSwapFields (P.readConfig (processOtaPendingSwap P st).2.dev) st.cfg) ↔
    recordedVersion st.cfg (memoryMapOtherSlot st.cfg.activeSlot) = pendingVersion P st ∧
      st.cfg.bootAttempts = 0 := by
  obtain ⟨hcfg, s, hs, hdev⟩ :=
    processOtaPendingSwap_reverted (fun cfg s hs ↦ (hstores cfg s hs).1) hverify hI h
  rw [hdev, (hstores _ s hs).2, SameSwapFields.stampCrc, hcfg, sameSwapFields_reverted_iff,
    and_self]

/-! ## Sample runs -/

/-- The platform `P` with the outcomes of the verifications given from outside, one for
each call. -/
def Platform.withOutcomes (P : Platform σ) : Platform (σ × List Bool) where
  flashInit s := (P.flashInit s.1, s.2)
  readConfig s := P.readConfig s.1
  bootConfigSave cfg s :=
    let r := P.bootConfigSave cfg s.1
    (r.1, r.2, s.2)
  cryptoVerifyFirmware _ s := (s.2.headD false, s.1, s.2.tail)
  readHeader slotAddr s := P.readHeader slotAddr s.1

theorem Platform.Stores.withOutcomes {P : Platform σ} {I : σ → Prop} (h : P.Stores I) :
    P.withOutcomes.Stores fun s ↦ I s.1 := fun cfg s hs ↦ h cfg s.1 hs

/-- A swap whose second verification fails is reverted. -/
theorem withOutcomes_reverted {P : Platform σ} {st : BootState (σ × List Bool)}
    (hp : st.shared.otaPending ≠ 0) (ho : st.dev.2 = [true, false])
    (hm : (P.readHeader (memoryMapSlotAddr (memoryMapOtherSlot st.cfg.activeSlot)) st.dev.1).magic =
      firmwareMagic)
    (ha : bootConfigFirmwareAllowed st.cfg (P.readHeader
      (memoryMapSlotAddr (memoryMapOtherSlot st.cfg.activeSlot)) st.dev.1).version = true) :
    (processOtaPendingSwap P.withOutcomes st).1 = .reverted := by
  have hverify : ∀ slotAddr s, P.withOutcomes.cryptoVerifyFirmware slotAddr s =
      (s.2.headD false, s.1, s.2.tail) := fun _ _ ↦ rfl
  have hsave : ∀ cfg s, (P.withOutcomes.bootConfigSave cfg s).2.2 = s.2 := fun _ _ ↦ rfl
  have hread : ∀ slotAddr s, P.withOutcomes.readHeader slotAddr s = P.readHeader slotAddr s.1 :=
    fun _ _ ↦ rfl
  unfold processOtaPendingSwap
  simp only [hverify, hsave, hread, ho, List.headD_cons, List.tail_cons, if_neg hp, hm, ha,
    Bool.not_true, Bool.false_eq_true, ne_eq, not_true_eq_false, if_false]

/-- A device whose slot B has the header of a version, and a swap to it whose second
verification fails. -/
def pendingState (cfg : BootConfig) (v : UInt32) : BootState (Hw × List Bool) where
  cfg := cfg
  cfgDirty := false
  dev := (.reset (Mem.write (fun _ ↦ 0xFF) slotBAddr (sampleHeader v).bytes), [true, false])
  shared := { SharedBootBlock.zero with otaPending := 1 }

theorem readHeader_pendingState (cfg : BootConfig) (v : UInt32) :
    (onFlash Hw sampleKeys).readHeader slotBAddr (pendingState cfg v).dev.1 = sampleHeader v := by
  have hread := Mem.read_write (fun _ ↦ 0xFF) slotBAddr (sampleHeader v).bytes
  rw [(sampleHeader v).length_bytes] at hread
  have hofMem : ∀ m : Mem, (onFlash Hw sampleKeys).readHeader slotBAddr (.reset m) =
      FirmwareHeader.ofMem m slotBAddr := fun _ ↦ rfl
  unfold pendingState
  dsimp only
  rw [hofMem]
  exact FirmwareHeader.ext ((FirmwareHeader.bytes_ofMem _ _).trans hread)

/-- The swap of the sample runs, and the version it is to. -/
theorem pendingState_reverted {cfg : BootConfig} {v : UInt32} (hact : cfg.activeSlot = slotA)
    (hv : bootConfigFirmwareAllowed cfg v = true) :
    (processOtaPendingSwap (onFlash Hw sampleKeys).withOutcomes (pendingState cfg v)).1 =
        .reverted ∧
      pendingVersion (onFlash Hw sampleKeys).withOutcomes (pendingState cfg v) = v := by
  have hslot : memoryMapSlotAddr (memoryMapOtherSlot (pendingState cfg v).cfg.activeSlot) =
      slotBAddr := by
    rw [show (pendingState cfg v).cfg.activeSlot = slotA from hact]
    rfl
  have hhdr := readHeader_pendingState cfg v
  constructor
  · refine withOutcomes_reverted (P := onFlash Hw sampleKeys) (show (1 : UInt32) ≠ 0 by decide) rfl
      ?_ ?_
    · rw [hslot, hhdr, magic_sampleHeader]
    · rw [hslot, hhdr, version_sampleHeader]
      exact hv
  · have hread : pendingVersion (onFlash Hw sampleKeys).withOutcomes (pendingState cfg v) =
        ((onFlash Hw sampleKeys).readHeader
          (memoryMapSlotAddr (memoryMapOtherSlot (pendingState cfg v).cfg.activeSlot))
          (pendingState cfg v).dev.1).version := rfl
    rw [hread, hslot, hhdr, version_sampleHeader]

/-- A swap to the version that slot B had before, and no attempt counted. -/
theorem revert_traceless_same :
    SameSwapFields (processOtaPendingSwap (onFlash Hw sampleKeys).withOutcomes
        (pendingState { bootConfigDefault with slotBVersion := 0x10000 } 0x10000)).2.cfg
      { bootConfigDefault with slotBVersion := 0x10000 } := by
  have hrev := @pendingState_reverted { bootConfigDefault with slotBVersion := 0x10000 } 0x10000 rfl
    (by decide)
  refine ((revert_traceless_iff (onFlash_stores (σ := Hw) sampleKeys).withOutcomes
    (fun _ _ hs ↦ hs) (Hw.healthy_reset _) hrev.1).2 ⟨?_, rfl⟩).1
  rw [hrev.2]
  rfl

/-- A first swap to version 1.0.0 leaves the version and the counter behind. -/
theorem revert_raises_floor :
    (processOtaPendingSwap (onFlash Hw sampleKeys).withOutcomes
        (pendingState bootConfigDefault 0x10000)).1 = .reverted ∧
      ¬SameSwapFields (processOtaPendingSwap (onFlash Hw sampleKeys).withOutcomes
        (pendingState bootConfigDefault 0x10000)).2.cfg bootConfigDefault := by
  have hrev := @pendingState_reverted bootConfigDefault 0x10000 rfl (by decide)
  refine ⟨hrev.1, fun h ↦ ?_⟩
  have hcfg := (processOtaPendingSwap_reverted (I := fun _ ↦ True) (fun _ _ _ ↦ trivial)
    (fun _ _ _ ↦ trivial) trivial hrev.1).1
  rw [hcfg, hrev.2] at h
  exact absurd (sameSwapFields_reverted_iff.1 h).1 (by decide)

end DualBank
