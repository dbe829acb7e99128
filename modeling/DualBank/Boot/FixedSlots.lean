import DualBank.Boot.Pass
import DualBank.Tools.FlashLayout

/-!
# Passes over fixed slots

A pass whose slots are given from outside, and do not change during the pass, runs
the same on every platform (`main_withSlots`).  What such a pass boots: a slot that
verifies whenever there is one, if the record names a slot at all
(`boot_available_iff`).
-/

namespace DualBank

open Lib BootConfig

/-! ## The record of the choice -/

/-- The record in force when a pass looks for a pending swap. -/
def startConfig (record : BootConfig) (S : Slots) (b : SharedBootBlock) : BootConfig :=
  confirmConfig b.confirmed (loadedConfig record S)

/-- The record a pass makes its choice from. -/
def choiceConfig (record : BootConfig) (S : Slots) (b : SharedBootBlock) : BootConfig :=
  let cfg := startConfig record S b
  if SwapCommits cfg S b.otaPending then
    swapConfig cfg (S.slot (memoryMapOtherSlot cfg.activeSlot)).version
  else cfg

/-- A swap where saves do not wear the slots. -/
theorem passSwap_id (otaPending : UInt32) (st : PassState) :
    (passSwap id otaPending st).2.slots = st.slots ∧
      (passSwap id otaPending st).2.cfg =
        if SwapCommits st.cfg st.slots otaPending then
          swapConfig st.cfg (st.slots.slot (memoryMapOtherSlot st.cfg.activeSlot)).version
        else st.cfg := by
  by_cases h : SwapCommits st.cfg st.slots otaPending
  · rw [passSwap_of_commits h h.2.1, if_pos h]
    exact ⟨rfl, rfl⟩
  · rw [passSwap_of_not_commits h, if_neg h]
    exact ⟨rfl, rfl⟩

section

variable (record : BootConfig) (S : Slots) (b : SharedBootBlock)

theorem passConfirm_id_slots : (passConfirm id record S b).slots = S := by
  unfold passConfirm
  dsimp only
  split_ifs <;> rfl

/-- The choice is made from the given slots. -/
theorem pass_id_choice : (pass id record S b).slots = S ∧
    (pass id record S b).cfg = choiceConfig record S b := by
  have hc : (passConfirm id record S b).cfg = startConfig record S b :=
    passConfirm_cfg id record S b
  have hs := passConfirm_id_slots record S b
  obtain ⟨hs', hc'⟩ := passSwap_id b.otaPending (passConfirm id record S b)
  rw [hc, hs] at hc'
  exact ⟨hs'.trans hs, hc'⟩

theorem pass_id_pick : (pass id record S b).pick = (passPick S (choiceConfig record S b)).1 := by
  have hp : (pass id record S b).pick =
      (passPick (pass id record S b).slots (pass id record S b).cfg).1 := rfl
  rw [hp, (pass_id_choice record S b).1, (pass_id_choice record S b).2]

theorem pass_id_final : (pass id record S b).final = (passPick S (choiceConfig record S b)).2 := by
  have hp : (pass id record S b).final =
      (passPick (pass id record S b).slots (pass id record S b).cfg).2 := rfl
  rw [hp, (pass_id_choice record S b).1, (pass_id_choice record S b).2]

end

/-- The choice of a pass over given slots and the record it ends with. -/
def fixedChoice (record : BootConfig) (S : Slots) (b : SharedBootBlock) :
    PickResult × BootConfig :=
  passPick S (choiceConfig record S b)

theorem fixedChoice_magic (record : BootConfig) (S : Slots) (b : SharedBootBlock) :
    (fixedChoice record S b).2.magic = bootConfigMagic := by
  rw [fixedChoice, ← pass_id_final]
  exact pass_final_magic id record S b

section

variable {σ : Type} (P : Platform σ) (S : Slots) (m : Machine σ)

/-- A pass over given slots, whatever the saves do. -/
theorem main_withSlots :
    (main (P.withSlots S) m).1 =
        decisionOf (fixedChoice (P.readConfig (P.flashInit m.dev)) S m.shared).1.toUInt8 ∧
      (main (P.withSlots S) m).2.shared = consumedBlock m.shared ∧
      (mainPick (P.withSlots S) m).1 =
        (fixedChoice (P.readConfig (P.flashInit m.dev)) S m.shared).1 := by
  have h := P.withSlots_onSlots S (I := fun _ ↦ True) fun _ _ _ ↦ trivial
  have hm := main_eq h (m := m) trivial
  have hp := (mainPick_eq h (m := m) trivial).2.1
  rw [readConfig_withSlots, flashInit_withSlots] at hm hp
  rw [hp, hm, fixedChoice, ← pass_id_pick]
  exact ⟨rfl, rfl, rfl⟩

/-- A platform that keeps what is saved, across resets. -/
structure Platform.Durable (P : Platform σ) (I : σ → Prop) : Prop where
  flashInit_eq : ∀ s, I s → P.flashInit s = s
  stores : P.Stores I

variable {P m} {I : σ → Prop}

/-- On a durable platform the record a pass ends with is found by the next one. -/
theorem Platform.Durable.main_withSlots (h : P.Durable I) (hI : I m.dev) :
    I (main (P.withSlots S) m).2.dev ∧
      P.readConfig (main (P.withSlots S) m).2.dev =
        bootConfigStampCrc (fixedChoice (P.readConfig m.dev) S m.shared).2 := by
  have hO := P.withSlots_onSlots S (I := I) fun cfg s hs ↦ (h.stores cfg s hs).1
  have hI' : I ((P.withSlots S).flashInit m.dev) := by
    rw [flashInit_withSlots, h.flashInit_eq _ hI]; exact hI
  have hm := main_eq hO (m := m) hI'
  have hset := pass_settled id (P.readConfig m.dev) S m.shared
  rw [readConfig_withSlots, flashInit_withSlots, h.flashInit_eq _ hI] at hm
  have hrec := saveAll_record (h.stores.withSlots S) hI hset
  have hinv := saveAll_inv (P := P.withSlots S) (fun cfg s hs ↦ (h.stores cfg s hs).1) hI
    (pass id (P.readConfig m.dev) S m.shared).writes
  rw [fixedChoice, ← pass_id_final, hm]
  exact ⟨hinv, hrec⟩

end

theorem onFlash_durable {σ : Type} [FlashBackend σ] (K : KeyStore) :
    (onFlash σ K).Durable FlashBackend.Healthy where
  flashInit_eq _ h := FlashBackend.flashInit_of_healthy h
  stores := onFlash_stores K

/-! ## Availability -/

theorem decisionOf_ne_halted (slot : UInt8) : decisionOf slot ≠ .halted := by
  by_cases h : slot = 0
  · rw [h]; simp
  · rw [decisionOf_of_ne h]; simp

/-- The choice leads to the recovery mode when no slot verifies, and, under an
undocumented identifier, when slot A fails or the identifier itself is the `0` that
stands for no slot. -/
theorem passPick_recovery_iff (S : Slots) (cfg : BootConfig) :
    decisionOf (passPick S cfg).1.toUInt8 = .recovery ↔
      S.a.verifies = false ∧ S.b.verifies = false ∨
        cfg.activeSlot ≠ slotA ∧ cfg.activeSlot ≠ slotB ∧
          (S.a.verifies = false ∨ cfg.activeSlot = 0 ∧ cfg.bootAttempts < maxBootAttempts) := by
  by_cases ha : cfg.activeSlot = slotA
  · rw [passPick_of_slotA ha]
    split_ifs with h₁ h₂ h₃ h₃ <;> simp_all [PickResult.toUInt8]
  by_cases hb : cfg.activeSlot = slotB
  · rw [passPick_of_slotB hb]
    split_ifs with h₁ h₂ h₃ h₃ <;> simp_all [PickResult.toUInt8]
  · rw [passPick_of_ne ha hb]
    have hlt : cfg.bootAttempts < maxBootAttempts ↔ ¬cfg.bootAttempts ≥ maxBootAttempts := by simp
    split_ifs with h₁ h₂
    · simp_all [PickResult.toUInt8]
    · by_cases h0 : cfg.activeSlot = 0
      · simp_all [PickResult.toUInt8]
      · simp_all [PickResult.toUInt8, decisionOf_of_ne h0]
    · simp_all [PickResult.toUInt8]

/-- The record leads the choice to a slot that verifies, if there is one: it is
rebuilt, or it names a slot, or slot A verifies and the identifier that stands for it
is replaced or is not `0`. -/
def FindsSlot (record : BootConfig) (S : Slots) (b : SharedBootBlock) : Prop :=
  bootConfigValidate record = false ∨ IsSlot record.activeSlot ∨
    (S.a.verifies = false ∧ S.b.verifies = false) ∨
    S.a.verifies = true ∧ (record.activeSlot ≠ 0 ∨
      (confirmConfig b.confirmed record).bootAttempts ≥ maxBootAttempts ∨
      SwapCommits (confirmConfig b.confirmed record) S b.otaPending)

@[simp] theorem confirmConfig_activeSlot (confirmed : Bool) (cfg : BootConfig) :
    (confirmConfig confirmed cfg).activeSlot = cfg.activeSlot := by
  cases confirmed <;> rfl

@[simp] theorem swapConfig_activeSlot (cfg : BootConfig) (v : UInt32) :
    (swapConfig cfg v).activeSlot = memoryMapOtherSlot cfg.activeSlot := rfl

@[simp] theorem swapConfig_bootAttempts (cfg : BootConfig) (v : UInt32) :
    (swapConfig cfg v).bootAttempts = 0 := rfl

theorem loadedConfig_of_valid {record : BootConfig} (h : bootConfigValidate record = true)
    (S : Slots) : loadedConfig record S = record := if_pos h

/-- A record that fails its check is replaced by one that names a slot. -/
theorem loadedConfig_activeSlot_of_invalid {record : BootConfig}
    (h : bootConfigValidate record = false) (S : Slots) :
    IsSlot (loadedConfig record S).activeSlot := by
  rw [loadedConfig, h]
  exact recovered_activeSlot_cases _ _

/-- A choice without a committed swap. -/
theorem choiceConfig_of_not_commits {record : BootConfig} {S : Slots} {b : SharedBootBlock}
    (h : ¬SwapCommits (startConfig record S b) S b.otaPending) :
    choiceConfig record S b = startConfig record S b := if_neg h

/-- After a committed swap the choice is made from a record that names a slot. -/
theorem choiceConfig_of_commits {record : BootConfig} {S : Slots} {b : SharedBootBlock}
    (h : SwapCommits (startConfig record S b) S b.otaPending) :
    (choiceConfig record S b).activeSlot =
        memoryMapOtherSlot (loadedConfig record S).activeSlot ∧
      (choiceConfig record S b).bootAttempts = 0 := by
  rw [choiceConfig, if_pos h, startConfig]
  exact ⟨by simp, rfl⟩

/-- The choice leads to the recovery mode although a slot verifies exactly on the
records that do not find it. -/
theorem fixedChoice_recovery_iff (record : BootConfig) (S : Slots) (b : SharedBootBlock) :
    (decisionOf (fixedChoice record S b).1.toUInt8 = .recovery →
        S.a.verifies = false ∧ S.b.verifies = false) ↔ FindsSlot record S b := by
  rw [fixedChoice, passPick_recovery_iff, FindsSlot]
  -- a record that names a slot finds it
  have named : ∀ cfg : BootConfig, IsSlot cfg.activeSlot →
      (S.a.verifies = false ∧ S.b.verifies = false ∨
        cfg.activeSlot ≠ slotA ∧ cfg.activeSlot ≠ slotB ∧
          (S.a.verifies = false ∨ cfg.activeSlot = 0 ∧ cfg.bootAttempts < maxBootAttempts)) →
      S.a.verifies = false ∧ S.b.verifies = false := by
    rintro cfg hcfg (hc | ⟨ha, hb, -⟩)
    · exact hc
    · exact absurd hcfg (not_or.2 ⟨ha, hb⟩)
  by_cases hs : SwapCommits (startConfig record S b) S b.otaPending
  · refine iff_of_true (named _ ?_) ?_
    · rw [(choiceConfig_of_commits hs).1]
      exact memoryMapOtherSlot_cases _
    · -- the slot the swap went to verifies
      by_cases hv : bootConfigValidate record = true
      · rw [startConfig, loadedConfig_of_valid hv] at hs
        by_cases ha : record.activeSlot = slotA
        · exact .inr (.inl (.inl ha))
        have h₂ := hs.2.1
        rw [confirmConfig_activeSlot, memoryMapOtherSlot_of_ne ha] at h₂
        exact .inr (.inr (.inr ⟨h₂, .inr (.inr hs)⟩))
      · exact .inl (Bool.eq_false_iff.2 hv)
  · rw [choiceConfig_of_not_commits hs]
    by_cases hv : bootConfigValidate record = true
    · rw [startConfig, loadedConfig_of_valid hv] at hs ⊢
      by_cases hab : IsSlot record.activeSlot
      · refine iff_of_true (named _ ?_) (.inr (.inl hab))
        rw [confirmConfig_activeSlot]
        exact hab
      · obtain ⟨ha, hb⟩ := not_or.1 hab
        rw [confirmConfig_activeSlot]
        generalize confirmConfig b.confirmed record = cfg at hs ⊢
        simp only [IsSlot, ha, hb, hv, hs, ne_eq, not_false_eq_true, true_and, false_or, or_false,
          Bool.true_eq_false]
        cases S.a.verifies <;> cases S.b.verifies <;> simp [imp_iff_not_or]
    · refine iff_of_true (named _ ?_) (.inl (Bool.eq_false_iff.2 hv))
      rw [startConfig, confirmConfig_activeSlot]
      exact loadedConfig_activeSlot_of_invalid (Bool.eq_false_iff.2 hv) S

/-- **Availability.**  Over given slots, a pass jumps to a slot that verifies whenever
there is one, ends in the recovery mode only when there is none, and never exhausts
the loop of the choice, exactly when the record finds a slot. -/
theorem boot_available_iff {σ : Type} (P : Platform σ) (S : Slots) (m : Machine σ) :
    ((S.a.verifies = true ∨ S.b.verifies = true →
        ∃ slotAddr, (main (P.withSlots S) m).1 = .jump slotAddr ∧
          (S.image slotAddr).verifies = true) ∧
      ((main (P.withSlots S) m).1 = .recovery → S.a.verifies = false ∧ S.b.verifies = false) ∧
      (mainPick (P.withSlots S) m).1 ≠ .retriesExceeded) ↔
    FindsSlot (P.readConfig (P.flashInit m.dev)) S m.shared := by
  obtain ⟨hd, -, hp⟩ := main_withSlots P S m
  rw [hd, hp, ← fixedChoice_recovery_iff]
  refine ⟨fun h ↦ h.2.1, fun h ↦ ⟨fun hone ↦ ?_, h, passPick_ne_retriesExceeded _ _⟩⟩
  cases hdec : decisionOf (fixedChoice (P.readConfig (P.flashInit m.dev)) S m.shared).1.toUInt8 with
  | jump slotAddr => exact ⟨slotAddr, rfl, passPick_jump_verifies _ _ hdec⟩
  | halted => exact absurd hdec (decisionOf_ne_halted _)
  | recovery =>
      obtain ⟨ha, hb⟩ := h hdec
      rw [ha, hb] at hone
      simp at hone

/-- A device that holds a record and nothing else. -/
def recordDevice (cfg : BootConfig) : Hw :=
  .reset (Mem.write (fun _ ↦ 0xFF) bootConfigAddr cfg.toBytes)

theorem readConfig_recordDevice (cfg : BootConfig) : readConfig (recordDevice cfg) = cfg :=
  ofMem_of_read (Mem.read_write _ _ _)

/-- Under the identifier `'C'` a valid slot B is not found. -/
theorem unnamed_slot_recovery :
    (main ((onFlash Hw sampleKeys).withSlots ⟨.erased, .ofSigned (sampleImage 1)⟩)
        ⟨recordDevice (provisionedConfig 0x43 0), .zero⟩).1 = .recovery ∧
      (SlotImage.ofSigned (sampleImage 1)).verifies = true := by
  refine ⟨?_, rfl⟩
  rw [(main_withSlots _ _ _).1]
  dsimp only
  have hr : (onFlash Hw sampleKeys).readConfig ((onFlash Hw sampleKeys).flashInit
      (recordDevice (provisionedConfig 0x43 0))) = provisionedConfig 0x43 0 :=
    readConfig_recordDevice _
  have hcfg : choiceConfig (provisionedConfig 0x43 0) ⟨.erased, .ofSigned (sampleImage 1)⟩ .zero =
      provisionedConfig 0x43 0 := by
    rw [choiceConfig_of_not_commits fun h ↦ h.1 rfl, startConfig,
      loadedConfig_of_valid (provisionedConfig_validate _ _)]
    rfl
  rw [hr, fixedChoice, hcfg, passPick_recovery_iff]
  exact .inr ⟨by decide, by decide, .inl rfl⟩

end DualBank
