import DualBank.Config.Store
import DualBank.Flash.Cut

/-!
# Torn saves

A save on the hardware backend may be cut short by the supply or by a fault of the
controller.  The record after it is the one before, or it fails its check, or it is
the record that was saved: the last byte of the magic and the CRC are programmed
last.
-/

namespace DualBank

open Lib FlashBackend BootConfig

/-! ## Partly programmed records -/

/-- The bytes of a record of which only the first `k` have been programmed. -/
def tornBytes (cfg : BootConfig) (k : Nat) : List UInt8 :=
  cfg.toBytes.take k ++ List.replicate (bootConfigRecordSize - k) 0xFF

theorem length_tornBytes (cfg : BootConfig) {k : Nat} (hk : k ≤ bootConfigRecordSize) :
    (tornBytes cfg k).length = bootConfigRecordSize := by
  simp [tornBytes]; omega

theorem getElem_toBytes_magic (cfg : BootConfig) :
    cfg.toBytes[19]? = some (cfg.magic >>> 24).toUInt8 := rfl

/-- A partly programmed record that passes its check is the whole record. -/
theorem ofBytes_tornBytes {cfg : BootConfig} (h : bootConfigValidate cfg = true) {k : Nat}
    (hk : k ≤ bootConfigRecordSize) :
    bootConfigValidate (ofBytes (tornBytes cfg k)) = false ∨ ofBytes (tornBytes cfg k) = cfg := by
  cases hv : bootConfigValidate (ofBytes (tornBytes cfg k)) with
  | false => exact .inl rfl
  | true =>
      right
      obtain ⟨hmag, hcrc⟩ := bootConfigValidate_iff.1 hv
      have hbytes := toBytes_ofBytes (length_tornBytes cfg hk)
      generalize ofBytes (tornBytes cfg k) = r at *
      have hlen : (cfg.toBytes.take k).length = k := by simp; omega
      -- the magic is complete, so the body is
      have h20 : cfgCrcOffset ≤ k := by
        refine Nat.le_of_not_lt fun hlt ↦ ?_
        simp only [cfgCrcOffset, bootConfigRecordSize] at hlt hk
        have h19 := getElem_toBytes_magic r
        rw [hbytes, hmag, tornBytes, List.getElem?_append_right (by omega), hlen,
          List.getElem?_replicate_of_lt (by simp only [bootConfigRecordSize]; omega)] at h19
        exact absurd h19 (by decide)
      have hbody : r.body = cfg.body := by
        rw [← take_toBytes, hbytes, tornBytes, List.take_append_of_le_length (by omega),
          List.take_take, Nat.min_eq_left h20, take_toBytes]
      -- and the CRC is the one of the body
      have hr : r.crc32 = DualBank.crc32 r.body := (congrArg BootConfig.crc32 hcrc).symm
      have hc : cfg.crc32 = DualBank.crc32 cfg.body :=
        (congrArg BootConfig.crc32 (bootConfigValidate_iff.1 h).2).symm
      exact toBytes_injective (by rw [toBytes, toBytes, hr, hc, hbody])

theorem bootConfigValidate_tornBytes_zero (cfg : BootConfig) :
    bootConfigValidate (ofBytes (tornBytes cfg 0)) = false := by
  have hmag : (ofBytes (tornBytes cfg 0)).magic ≠ bootConfigMagic := by
    change le32 0xFF 0xFF 0xFF 0xFF ≠ bootConfigMagic
    decide
  exact if_pos hmag

/-! ## Torn saves -/

/-- The range erase of a save is the erase of one sector. -/
theorem flashEraseRange_bootConfig (s : Hw) :
    Hw.flashEraseRange bootConfigAddr bootConfigRecordSize s =
      Hw.flashEraseSector (kSectorStart 4) s :=
  eraseRangeWith_sector (by decide) (by decide) (by decide) (by decide) s

/-- The two program operations of a save, as one. -/
def saveProgram (cfg : BootConfig) (s : Hw) : FlashStatus × Hw :=
  let r := Hw.flashProgramBytes bootConfigAddr cfg.body s
  if r.1 ≠ .ok then r else Hw.flashProgramWord (bootConfigAddr + cfgCrcOffset) cfg.crc32 r.2

theorem saveProgram_programs (cfg : BootConfig) (s : Hw) :
    Hw.Programs bootConfigAddr cfg.toBytes s (saveProgram cfg s) := by
  have hb := Hw.flashProgramBytes_programs bootConfigAddr cfg.body s
  unfold saveProgram
  dsimp only
  split_ifs with h
  · exact hb.stopped h _
  · exact hb.append (not_not.mp h) (Hw.flashProgramWord_programs _ _ _)

/-- A save is a sector erase and, if that succeeds, the two program operations. -/
theorem bootConfigSave_dev (cfg : BootConfig) (s : Hw) :
    (bootConfigSave cfg s).2 =
      let e := Hw.flashEraseSector (kSectorStart 4) s
      if e.1 = .ok then (saveProgram (bootConfigStampCrc cfg) e.2).2 else e.2 := by
  have he : ∀ a n, FlashBackend.flashEraseRange a n s = Hw.flashEraseRange a n s := fun _ _ ↦ rfl
  unfold bootConfigSave saveProgram
  simp only [take_toBytes, he, flashEraseRange_bootConfig]
  split_ifs <;> first | rfl | contradiction

/-- The sector of the record is erased. -/
def ConfigErased (s : Hw) : Prop :=
  ∀ x, kSectorStart 4 ≤ x → x < kSectorStart 4 + kSectorSize 4 → s.mem x = 0xFF

theorem ConfigErased.record {s : Hw} (h : ConfigErased s) {i : Nat}
    (hi : i < bootConfigRecordSize) :
    s.mem (bootConfigAddr + i) = 0xFF := by
  have h₁ : kSectorStart 4 = bootConfigAddr := by decide
  have h₂ : bootConfigRecordSize ≤ kSectorSize 4 := by decide
  exact h _ (by omega) (by omega)

/-- An erased record fails its check. -/
theorem ConfigErased.invalid {s : Hw} (h : ConfigErased s) :
    bootConfigValidate (readConfig s) = false := by
  have hread : s.mem.read bootConfigAddr bootConfigRecordSize = tornBytes bootConfigDefault 0 :=
    Mem.read_eq_replicate fun x h₁ h₂ ↦ by
      have := h.record (i := x - bootConfigAddr) (by omega)
      rwa [Nat.add_sub_cancel' h₁] at this
  have hr : readConfig s = ofBytes (tornBytes bootConfigDefault 0) := congrArg ofBytes hread
  rw [hr]
  exact bootConfigValidate_tornBytes_zero _

/-- Programming an erased sector leaves a partly programmed record, and nothing once
the supply is gone. -/
theorem readConfig_saveProgram (cfg : BootConfig) {s : Hw} (he : ConfigErased s) :
    ∃ k ≤ bootConfigRecordSize,
      readConfig (saveProgram cfg s).2 = ofBytes (tornBytes cfg k) ∧ (s.Dead → k = 0) := by
  obtain ⟨k, hk, hm, -, hd⟩ := saveProgram_programs cfg s
  rw [length_toBytes] at hk
  have hlen : (cfg.toBytes.take k).length = k := by simp; omega
  refine ⟨k, hk, ?_, fun h ↦ (hd h).1⟩
  have hread : (saveProgram cfg s).2.mem.read bootConfigAddr bootConfigRecordSize =
      tornBytes cfg k := by
    rw [hm, Mem.read_program (fun i hi ↦ he.record hi) (by omega), hlen, tornBytes]
  exact congrArg ofBytes hread

theorem readConfig_congr_hw {s s' : Hw} (h : s.mem = s'.mem) : readConfig s = readConfig s' :=
  congrArg BootConfig.ofMem h

/-- **Torn saves.**  Whatever the controller reports and whenever the supply fails,
the record after a save is the one before, or fails its check, or is the one saved. -/
theorem bootConfigSave_torn {cfg : BootConfig} (hmag : cfg.magic = bootConfigMagic) (s : Hw) :
    readConfig (bootConfigSave cfg s).2 = readConfig s ∨
      bootConfigValidate (readConfig (bootConfigSave cfg s).2) = false ∨
      readConfig (bootConfigSave cfg s).2 = bootConfigStampCrc cfg := by
  have hv : bootConfigValidate (bootConfigStampCrc cfg) = true := by
    rw [bootConfigValidate_stampCrc, hmag]; rfl
  obtain ⟨hm, he⟩ := Hw.flashEraseSector_cases (i := 4) (by decide) s
  rw [bootConfigSave_dev]
  dsimp only
  split_ifs with hok
  · obtain ⟨k, hk, hr, -⟩ := readConfig_saveProgram (bootConfigStampCrc cfg) (he hok)
    rw [hr]
    exact .inr (ofBytes_tornBytes hv hk)
  · rcases hm with hm | hm
    · exact .inl (readConfig_congr_hw hm)
    · refine .inr (.inl (ConfigErased.invalid fun x h₁ h₂ ↦ ?_))
      rw [hm]
      exact Mem.fill_of_mem _ _ h₁ h₂

/-! ## A cut between the erase and the programming -/

theorem saveProgram_of_dead (cfg : BootConfig) {s : Hw} (h : s.Dead) :
    (saveProgram cfg s).2.mem = s.mem ∧ (saveProgram cfg s).2.Dead := by
  obtain ⟨k, -, hm, -, hd⟩ := saveProgram_programs cfg s
  obtain ⟨rfl, hd'⟩ := hd h
  exact ⟨by rw [hm, List.take_zero, Mem.program], hd'⟩

/-- Once the supply is gone a save changes nothing. -/
theorem bootConfigSave_of_dead (cfg : BootConfig) {s : Hw} (h : s.Dead) :
    (bootConfigSave cfg s).2.mem = s.mem ∧ (bootConfigSave cfg s).2.Dead := by
  have he := Hw.flashEraseSector_of_dead (i := 4) (by decide) h
  have hd : (Hw.flashEraseSector (kSectorStart 4) s).2.Dead := he.2.symm.trans h
  rw [bootConfigSave_dev]
  dsimp only
  split_ifs
  · obtain ⟨hm, hd'⟩ := saveProgram_of_dead (bootConfigStampCrc cfg) hd
    exact ⟨hm.trans he.1.symm, hd'⟩
  · exact ⟨he.1.symm, hd⟩

/-- A supply of one step lasts for the erase of a save only. -/
theorem bootConfigSave_of_one (cfg : BootConfig) {s : Hw} (hb : s.busy = [])
    (h : s.power = some 1) :
    ConfigErased (bootConfigSave cfg s).2 ∧ (bootConfigSave cfg s).2.Dead := by
  obtain ⟨hok, hd⟩ := Hw.flashEraseSector_of_one (i := 4) (by decide) hb h
  obtain ⟨hm, hd'⟩ := saveProgram_of_dead (bootConfigStampCrc cfg) hd
  rw [bootConfigSave_dev]
  dsimp only
  rw [if_pos hok]
  refine ⟨fun x h₁ h₂ ↦ ?_, hd'⟩
  rw [hm]
  exact (Hw.flashEraseSector_cases (by decide) s).2 hok x h₁ h₂

end DualBank
