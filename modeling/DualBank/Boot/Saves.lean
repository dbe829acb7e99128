import DualBank.Config.Torn
import DualBank.Tools.FlashLayout

/-!
# What a save leaves behind

Wherever a save of the record is stopped, the flash is in one of a few states: the
one before, or the erased sector with a prefix of the record in it.  Read one way,
this makes the record atomic (`save_atomic`); read the other way, it says what a save
does to the firmware that shares the sector (`save_keeps_slots_iff`).
-/

namespace DualBank

open Lib FlashBackend BootConfig

/-! ## Stopped saves -/

/-- The flash after the erase of a save and `k` more programmed bytes. -/
def stoppedSave (cfg : BootConfig) (k : Nat) (m : Mem) : Mem :=
  (m.fill (kSectorStart 4) (kSectorStart 4 + kSectorSize 4) 0xFF).program bootConfigAddr
    ((bootConfigStampCrc cfg).toBytes.take k)

/-- Whatever the controller reports and whenever the supply fails, a save stops before
its erase or at one of the states above. -/
theorem bootConfigSave_stopped (cfg : BootConfig) (s : Hw) :
    (bootConfigSave cfg s).2.mem = s.mem ∨
      ∃ k ≤ bootConfigRecordSize, (bootConfigSave cfg s).2.mem = stoppedSave cfg k s.mem := by
  obtain ⟨hm, he⟩ := Hw.flashEraseSector_cases (i := 4) (by decide) s
  rw [bootConfigSave_dev]
  dsimp only
  split_ifs with hok
  · -- after a successful erase the sector is erased, whichever way it came to be
    have hfill : (Hw.flashEraseSector (kSectorStart 4) s).2.mem =
        s.mem.fill (kSectorStart 4) (kSectorStart 4 + kSectorSize 4) 0xFF := by
      rcases hm with hm | hm
      · funext x
        by_cases hx : kSectorStart 4 ≤ x ∧ x < kSectorStart 4 + kSectorSize 4
        · rw [he hok x hx.1 hx.2, Mem.fill_of_mem _ _ hx.1 hx.2]
        · rw [hm, Mem.fill_of_notMem _ _ (by omega)]
      · exact hm
    obtain ⟨k, hk, hp, -⟩ := saveProgram_programs (bootConfigStampCrc cfg)
      (Hw.flashEraseSector (kSectorStart 4) s).2
    rw [length_toBytes] at hk
    exact .inr ⟨k, hk, by rw [hp, hfill, stoppedSave]⟩
  · refine hm.imp_right fun hm ↦ ⟨0, Nat.zero_le _, ?_⟩
    rw [hm, stoppedSave, List.take_zero, Mem.program]

/-- The record of a stopped save is a partly programmed one. -/
theorem ofMem_stoppedSave (cfg : BootConfig) {k : Nat} (hk : k ≤ bootConfigRecordSize) (m : Mem) :
    BootConfig.ofMem (stoppedSave cfg k m) = ofBytes (tornBytes (bootConfigStampCrc cfg) k) := by
  have hlen : ((bootConfigStampCrc cfg).toBytes.take k).length = k := by
    rw [List.length_take, length_toBytes, Nat.min_eq_left hk]
  have hread : (stoppedSave cfg k m).read bootConfigAddr bootConfigRecordSize =
      tornBytes (bootConfigStampCrc cfg) k := by
    have h₁ : kSectorStart 4 = bootConfigAddr := by decide
    have h₂ : bootConfigRecordSize ≤ kSectorSize 4 := by decide
    rw [stoppedSave, Mem.read_program (fun i hi ↦ Mem.fill_of_mem _ _ (by omega) (by omega))
      (by omega), hlen, tornBytes]
  exact congrArg ofBytes hread

/-- **Torn writes.**  At every point after the erase the record fails its check or is
the whole new record; every save stops before its erase or at such a point; and a save
that completes is loaded again. -/
theorem save_atomic (K : KeyStore) (cfg : BootConfig) (hmag : cfg.magic = bootConfigMagic) :
    (∀ m, ∀ k ≤ bootConfigRecordSize,
      bootConfigValidate (BootConfig.ofMem (stoppedSave cfg k m)) = false ∨
        BootConfig.ofMem (stoppedSave cfg k m) = bootConfigStampCrc cfg) ∧
    (∀ s : Hw, (bootConfigSave cfg s).2.mem = s.mem ∨
      ∃ k ≤ bootConfigRecordSize, (bootConfigSave cfg s).2.mem = stoppedSave cfg k s.mem) ∧
    (∀ s : Hw, (bootConfigSave cfg s).1 = true →
      bootConfigLoad (onFlash Hw K) (bootConfigSave cfg s).2 =
        (true, bootConfigStampCrc cfg, (bootConfigSave cfg s).2)) ∧
    ∀ s : Hw, s.Healthy → (bootConfigSave cfg s).1 = true := by
  have hv : bootConfigValidate (bootConfigStampCrc cfg) = true := by
    rw [bootConfigValidate_stampCrc, hmag]; rfl
  refine ⟨fun m k hk ↦ ?_, bootConfigSave_stopped cfg, fun s hs ↦ ?_, fun s hs ↦ ?_⟩
  · rw [ofMem_stoppedSave cfg hk m]
    exact ofBytes_tornBytes hv hk
  · have hr := readConfig_of_save hs
    unfold bootConfigLoad
    rw [readConfig_onFlash, hr]
    dsimp only
    rw [if_pos hv]
  · exact (bootConfigSave_of_healthy cfg hs).1

theorem save_atomic_default :
    (∀ m, ∀ k ≤ bootConfigRecordSize,
      bootConfigValidate (BootConfig.ofMem (stoppedSave bootConfigDefault k m)) = false ∨
        BootConfig.ofMem (stoppedSave bootConfigDefault k m) =
          bootConfigStampCrc bootConfigDefault) ∧
    ∀ s : Hw, s.Healthy → (bootConfigSave bootConfigDefault s).1 = true := by
  have hmag : bootConfigDefault.magic = bootConfigMagic := rfl
  have h := save_atomic sampleKeys bootConfigDefault hmag
  exact ⟨h.1, h.2.2.2⟩

/-! ## The firmware next to the record -/

/-- The bytes of the two slots. -/
def InSlots (x : Nat) : Prop :=
  slotAAddr ≤ x ∧ x < slotAAddr + slotSize ∨ slotBAddr ≤ x ∧ x < slotBAddr + slotSize

/-- A save of the hardware backend changes no byte of the slots: whatever the
controller reports and wherever it is cut. -/
def Hw.SaveKeepsSlots (cfg : BootConfig) (m : Mem) : Prop :=
  ∀ cr busy power x, InSlots x → (bootConfigSave cfg (⟨m, cr, busy, power⟩ : Hw)).2.mem x = m x

/-- A save of the QEMU backend changes no byte of the slots, wherever it is cut. -/
def Qemu.SaveKeepsSlots (cfg : BootConfig) (rom : Mem) (shadow : ShadowField → Nat → UInt8) :
    Prop :=
  ∀ power x, InSlots x →
    (bootConfigSave cfg (⟨rom, qemuShadowMagic, shadow, power⟩ : Qemu)).2.byte x =
      Qemu.byte ⟨rom, qemuShadowMagic, shadow, power⟩ x

/-- The bytes of a slot begin behind the record. -/
theorem InSlots.slotAAddr_le {x : Nat} (h : InSlots x) : slotAAddr ≤ x := by
  rcases h with h | h
  · exact h.1
  · exact Nat.le_trans (by decide) h.1

/-- A slot byte of the sector is kept by the saves when it is erased already. -/
theorem stoppedSave_of_inSlots {cfg : BootConfig} {k x : Nat} {m : Mem} (hx : InSlots x)
    (h : x < bootConfigAddr + 0x10000 → m x = 0xFF) : stoppedSave cfg k m x = m x := by
  have hlen : ((bootConfigStampCrc cfg).toBytes.take k).length ≤ bootConfigRecordSize := by
    rw [List.length_take, length_toBytes]; exact Nat.min_le_right _ _
  have hrec : bootConfigAddr + bootConfigRecordSize ≤ x :=
    Nat.le_trans (by decide) hx.slotAAddr_le
  have hend : kSectorStart 4 + kSectorSize 4 = bootConfigAddr + 0x10000 := by decide
  have hstart : kSectorStart 4 ≤ x := Nat.le_trans (by decide) hx.slotAAddr_le
  rw [stoppedSave, Mem.program_of_notMem _ _ _ _
    (.inr (Nat.le_trans (Nat.add_le_add_left hlen _) hrec)), hend]
  by_cases hlt : x < bootConfigAddr + 0x10000
  · rw [Mem.fill_of_mem _ _ hstart hlt, h hlt]
  · rw [Mem.fill_of_notMem _ _ (.inr (Nat.le_of_not_lt hlt))]

theorem Hw.saveKeepsSlots_iff (cfg : BootConfig) (m : Mem) :
    Hw.SaveKeepsSlots cfg m ↔
      ∀ x, slotAAddr ≤ x → x < bootConfigAddr + 0x10000 → m x = 0xFF := by
  constructor
  · intro h x h₁ h₂
    -- the save of a device without faults erases the whole sector
    obtain ⟨s, hs⟩ : ∃ s : Hw, s = ⟨m, ⟨false, false, 0, 0, true⟩, [], none⟩ := ⟨_, rfl⟩
    have hh : Healthy s := by rw [hs]; exact ⟨rfl, rfl⟩
    have hx : InSlots x := .inl ⟨h₁, Nat.lt_of_lt_of_le h₂ (by decide)⟩
    have hkeep := h ⟨false, false, 0, 0, true⟩ [] none x hx
    rw [← hs] at hkeep
    have hge : bootConfigAddr + bootConfigRecordSize ≤ x := Nat.le_trans (by decide) h₁
    have hs' : Saved cfg s (bootConfigSave cfg s).2 := (bootConfigSave_of_healthy cfg hh).2
    rw [← hkeep]
    exact hs'.erased x ⟨Nat.le_trans (by decide) h₁, h₂⟩ hge trivial
  · intro h cr busy power x hx
    rcases bootConfigSave_stopped cfg ⟨m, cr, busy, power⟩ with hm | ⟨k, hk, hm⟩
    · rw [hm]
    · rw [hm]
      exact stoppedSave_of_inSlots hx (h x hx.slotAAddr_le)

/-- The shadow of the head of slot A. -/
theorem shadowBytePtr_slotA {i : Nat} (hi : i < shadowSlotSize) :
    shadowBytePtr (slotAAddr + i) = some (.slotA, i) := by
  have hcfg : bootConfigAddr + shadowConfigSize ≤ slotAAddr := by decide
  rw [shadowBytePtr, if_neg (by omega), if_pos ⟨Nat.le_add_right _ _, Nat.add_lt_add_left hi _⟩,
    Nat.add_sub_cancel_left]

theorem Qemu.saveKeepsSlots_iff (cfg : BootConfig) (rom : Mem)
    (shadow : ShadowField → Nat → UInt8) :
    Qemu.SaveKeepsSlots cfg rom shadow ↔ ∀ i < shadowSlotSize, shadow .slotA i = 0xFF := by
  constructor
  · intro h i hi
    obtain ⟨s, hs⟩ : ∃ s : Qemu, s = ⟨rom, qemuShadowMagic, shadow, none⟩ := ⟨_, rfl⟩
    have hh : Healthy s := by rw [hs]; exact ⟨rfl, rfl⟩
    have hp := shadowBytePtr_slotA hi
    have hx : InSlots (slotAAddr + i) := .inl ⟨Nat.le_add_right _ _,
      Nat.add_lt_add_left (Nat.lt_of_lt_of_le hi (by decide)) _⟩
    have hkeep := h none _ hx
    rw [← hs] at hkeep
    have hs' : Saved cfg s (bootConfigSave cfg s).2 := (bootConfigSave_of_healthy cfg hh).2
    have hsec : InConfigSector (slotAAddr + i) :=
      ⟨Nat.le_trans (by decide) (Nat.le_add_right _ _),
        Nat.lt_of_lt_of_le (Nat.add_lt_add_left hi _) (by decide)⟩
    have herased := hs'.erased _ hsec (Nat.le_trans (by decide) (Nat.le_add_right _ _))
      (writable_slotA i hi)
    have hbyte : s.byte (slotAAddr + i) = shadow .slotA i := by rw [Qemu.byte_of_ptr s hp, hs]
    rw [← hbyte, ← hkeep]
    exact herased
  · intro h power x hx
    obtain ⟨s, hs⟩ : ∃ s : Qemu, s = ⟨rom, qemuShadowMagic, shadow, power⟩ := ⟨_, rfl⟩
    rw [← hs]
    have hrec : bootConfigAddr + bootConfigRecordSize ≤ x :=
      Nat.le_trans (by decide) hx.slotAAddr_le
    by_cases hsec : InConfigSector x
    · -- the head of slot A is erased; behind it the ROM serves the sector
      have hfix : s.Fixed x := by
        by_cases hlt : x < slotAAddr + shadowSlotSize
        · obtain ⟨i, rfl⟩ := Nat.exists_eq_add_of_le hx.slotAAddr_le
          have hi : i < shadowSlotSize := Nat.lt_of_add_lt_add_left hlt
          refine .inr ?_
          rw [Qemu.byte_of_ptr s (shadowBytePtr_slotA hi), hs]
          exact h i hi
        · have hcfg : bootConfigAddr + shadowConfigSize ≤ slotAAddr := by decide
          have hB : bootConfigAddr + 0x10000 ≤ slotBAddr := by decide
          have hge := hx.slotAAddr_le
          have hsec' := hsec.2
          refine .inl ?_
          rw [shadowBytePtr, if_neg (by omega), if_neg (by omega), if_neg (by omega)]
      have hb := bootConfigSave_byte cfg s (x := x) (.inr hrec)
      exact hb.trans (Qemu.flashEraseRange_of_fixed _ _ hfix)
    · exact bootConfigSave_frame cfg s hsec

/-- **Saves and firmware.**  A save leaves both slots alone exactly when what it erases
of slot A is erased already: on the hardware the part of slot A in the sector of the
record, on QEMU the whole shadow of slot A. -/
theorem save_keeps_slots_iff (cfg : BootConfig) :
    (∀ m, Hw.SaveKeepsSlots cfg m ↔
      ∀ x, slotAAddr ≤ x → x < bootConfigAddr + 0x10000 → m x = 0xFF) ∧
    ∀ rom shadow, Qemu.SaveKeepsSlots cfg rom shadow ↔
      ∀ i < shadowSlotSize, shadow .slotA i = 0xFF :=
  ⟨Hw.saveKeepsSlots_iff cfg, Qemu.saveKeepsSlots_iff cfg⟩

/-- With firmware in slot A, a save of the default record erases it. -/
theorem save_erases_slotA :
    ¬Hw.SaveKeepsSlots bootConfigDefault (fun _ ↦ 0) ∧
      ¬Qemu.SaveKeepsSlots bootConfigDefault (fun _ ↦ 0) fun _ _ ↦ 0 := by
  constructor
  · intro h
    exact absurd ((Hw.saveKeepsSlots_iff _ _).1 h slotAAddr (Nat.le_refl _) (by decide)) (by decide)
  · intro h
    exact absurd ((Qemu.saveKeepsSlots_iff _ _ _).1 h 0 (by decide)) (by decide)

end DualBank
