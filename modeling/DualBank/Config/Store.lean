import DualBank.Config.Record
import DualBank.Flash.Backend

/-!
# Storing the boot configuration

`boot_config_save` over a flash backend.  A save erases the sector of the record,
programs the body and then the CRC word.  On a healthy device it always succeeds,
and the sector holds nothing but the record afterwards.
-/

namespace DualBank

open Lib FlashBackend BootConfig

variable {σ : Type} [FlashBackend σ]

/-- The record in the configuration area. -/
def readConfig (s : σ) : BootConfig := ofMem (byte s)

def bootConfigSave (cfg : BootConfig) (s : σ) : Bool × σ :=
  let buf := bootConfigStampCrc cfg
  let r := flashEraseRange bootConfigAddr bootConfigRecordSize s
  if r.1 ≠ .ok then (false, r.2)
  else
    let r := flashProgramBytes bootConfigAddr (buf.toBytes.take cfgCrcOffset) r.2
    if r.1 ≠ .ok then (false, r.2)
    else
      let r := flashProgramWord (bootConfigAddr + cfgCrcOffset) buf.crc32 r.2
      if r.1 ≠ .ok then (false, r.2)
      else ((byte r.2).read bootConfigAddr bootConfigRecordSize == buf.toBytes, r.2)

/-- The sector of the record. -/
def InConfigSector (x : Nat) : Prop := bootConfigAddr ≤ x ∧ x < bootConfigAddr + 0x10000

instance (x : Nat) : Decidable (InConfigSector x) := inferInstanceAs (Decidable (_ ∧ _))

@[simp] theorem take_toBytes (cfg : BootConfig) : cfg.toBytes.take cfgCrcOffset = cfg.body :=
  List.take_left' (length_body cfg)

section Frame

variable {x : Nat}

private theorem save_erase_frame (s : σ) (hx : ¬InConfigSector x) :
    byte (flashEraseRange bootConfigAddr bootConfigRecordSize s).2 x = byte s x :=
  erase_frame s fun h ↦ hx (covered_bootConfig_iff.1 h)

private theorem save_body_frame (cfg : BootConfig) (s : σ)
    (hx : x < bootConfigAddr ∨ bootConfigAddr + bootConfigRecordSize ≤ x) :
    byte (flashProgramBytes bootConfigAddr cfg.body s).2 x = byte s x :=
  programBytes_frame s (by
    simp only [length_body, cfgCrcOffset, bootConfigRecordSize] at *; omega)

private theorem save_crc_frame (crc : UInt32) (s : σ)
    (hx : x < bootConfigAddr ∨ bootConfigAddr + bootConfigRecordSize ≤ x) :
    byte (flashProgramWord (bootConfigAddr + cfgCrcOffset) crc s).2 x = byte s x :=
  programWord_frame crc s (by simp only [cfgCrcOffset, bootConfigRecordSize] at *; omega)

/-- Outside the record, a save does what its erase does. -/
theorem bootConfigSave_byte (cfg : BootConfig) (s : σ)
    (hx : x < bootConfigAddr ∨ bootConfigAddr + bootConfigRecordSize ≤ x) :
    byte (bootConfigSave cfg s).2 x =
      byte (flashEraseRange bootConfigAddr bootConfigRecordSize s).2 x := by
  unfold bootConfigSave
  simp only [take_toBytes]
  split_ifs
  · rfl
  · rw [save_body_frame _ _ hx]
  · rw [save_crc_frame _ _ hx, save_body_frame _ _ hx]
  · rw [save_crc_frame _ _ hx, save_body_frame _ _ hx]

/-- A save changes only the sector of the record, whatever the flash reports. -/
theorem bootConfigSave_frame (cfg : BootConfig) (s : σ) (hx : ¬InConfigSector x) :
    byte (bootConfigSave cfg s).2 x = byte s x := by
  have hx' : x < bootConfigAddr ∨ bootConfigAddr + bootConfigRecordSize ≤ x := by
    simp only [InConfigSector, bootConfigRecordSize] at *; omega
  rw [bootConfigSave_byte cfg s hx', save_erase_frame s hx]

end Frame

/-- What a completed save leaves: the stamped record, an otherwise erased sector,
and the rest of the flash untouched. -/
structure Saved (cfg : BootConfig) (s s' : σ) : Prop where
  healthy : Healthy s'
  record : readConfig s' = bootConfigStampCrc cfg
  erased : ∀ x, InConfigSector x → bootConfigAddr + bootConfigRecordSize ≤ x → Writable σ x →
    byte s' x = 0xFF
  frame : ∀ x, ¬InConfigSector x → byte s' x = byte s x

/-- On a healthy device every save succeeds. -/
theorem bootConfigSave_of_healthy (cfg : BootConfig) {s : σ} (h : Healthy s) :
    (bootConfigSave cfg s).1 = true ∧ Saved cfg s (bootConfigSave cfg s).2 := by
  -- the erase
  obtain ⟨s₁, e₁, h₁, hff, hf₁⟩ := exists_erase bootConfigAddr
    bootConfigRecordSize h (by decide) (by decide) (by decide)
  have hff' : ∀ x, InConfigSector x → Writable σ x → byte s₁ x = 0xFF := fun x hx hw ↦
    hff x (covered_bootConfig_iff.2 hx)
      (Nat.lt_of_lt_of_le hx.2 (by simp [bootConfigAddr, flashBaseAddr, flashTotalSize])) hw
  have hrec : ∀ i < bootConfigRecordSize, byte s₁ (bootConfigAddr + i) = 0xFF ∧
      Writable σ (bootConfigAddr + i) := fun i hi ↦ by
    simp only [bootConfigRecordSize] at hi
    have hw : Writable σ (bootConfigAddr + i) := writable_config _ (Nat.le_add_right _ _)
      (by simp only [bootConfigSize]; omega)
    exact ⟨hff' _ ⟨Nat.le_add_right _ _, by omega⟩ hw, hw⟩
  -- the body
  obtain ⟨s₂, e₂, h₂, hbody, hf₂⟩ := exists_programBytes bootConfigAddr
    (bootConfigStampCrc cfg).body h₁ fun i hi ↦
      hrec i (Nat.lt_of_lt_of_le hi (by simp [cfgCrcOffset, bootConfigRecordSize]))
  rw [length_body] at hf₂ hbody
  -- the CRC word
  obtain ⟨s₃, e₃, h₃, hcrc, hf₃⟩ := exists_programWord (bootConfigAddr + cfgCrcOffset)
    (bootConfigStampCrc cfg).crc32 h₂ (by decide) fun i hi ↦ by
      have := hrec (cfgCrcOffset + i) (by simp only [cfgCrcOffset, bootConfigRecordSize]; omega)
      rw [hf₂ _ (.inr (Nat.le_add_right _ _)), Nat.add_assoc]
      exact this
  have hread : (byte s₃).read bootConfigAddr bootConfigRecordSize =
      (bootConfigStampCrc cfg).toBytes := by
    rw [show bootConfigRecordSize = cfgCrcOffset + 4 from rfl, Mem.read_add, hcrc,
      Mem.read_congr fun x hx ↦ hf₃ x (.inl hx.2), hbody]
    rfl
  have hsave : bootConfigSave cfg s = (true, s₃) := by
    rw [body_stampCrc] at e₂
    simp [bootConfigSave, e₁, e₂, e₃, hread]
  rw [hsave]
  refine ⟨rfl, h₃, ofMem_of_read hread, fun x hx hge hw ↦ ?_, fun x hx ↦ ?_⟩
  · simp only [bootConfigRecordSize] at hge
    rw [hf₃ x (by simp only [cfgCrcOffset]; omega), hf₂ x (by simp only [cfgCrcOffset]; omega)]
    exact hff' x hx hw
  · simp only [InConfigSector] at hx
    rw [hf₃ x (by simp only [cfgCrcOffset]; omega), hf₂ x (by simp only [cfgCrcOffset]; omega)]
    exact hf₁ x fun hc ↦ hx (covered_bootConfig_iff.1 hc)

/-- A save that reports success is read back, on whatever device. -/
theorem readConfig_of_save {cfg : BootConfig} {s : σ} (h : (bootConfigSave cfg s).1 = true) :
    readConfig (bootConfigSave cfg s).2 = bootConfigStampCrc cfg := by
  unfold bootConfigSave at h ⊢
  dsimp only at h ⊢
  split_ifs at h ⊢
  exact ofMem_of_read (beq_iff_eq.1 h)

end DualBank
