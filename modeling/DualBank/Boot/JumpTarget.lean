import DualBank.Boot.Pass
import DualBank.Tools.FlashLayout

/-!
# What is jumped to

The jump of a pass comes after the last save, and a save erases the first 60 KB of
slot A with the record.  So the slot that is jumped to still verifies exactly when it
is not slot A: whenever slot A is chosen, the save that records the choice destroys
it.
-/

namespace DualBank

open Lib BootConfig FlashBackend

/-- Nothing is written before the choice: the record is valid, the previous boot is not
confirmed, and no swap is committed. -/
def ChosenUnwritten (record : BootConfig) (S : Slots) (b : SharedBootBlock) : Prop :=
  bootConfigValidate record = true ∧ b.confirmed = false ∧ ¬SwapCommits record S b.otaPending

/-- The choice falls on slot A: slot A verifies, and it is active with attempts left,
or the choice leads to it from slot B, or the switch on attempts leads back to it. -/
def ChoosesSlotA (record : BootConfig) (S : Slots) : Prop :=
  S.a.verifies = true ∧
    if record.activeSlot = slotB then
      record.bootAttempts ≥ maxBootAttempts ∨ S.b.verifies = false
    else if record.activeSlot = slotA then
      record.bootAttempts < maxBootAttempts ∨ S.b.verifies = false
    else record.bootAttempts ≥ maxBootAttempts ∨ record.activeSlot ≠ 0

/-- A pass that writes before the choice has lost slot A by then. -/
theorem pass_slots_eraseA (record : BootConfig) (S : Slots) (b : SharedBootBlock) :
    (pass Slots.eraseA record S b).slots = S ∧ ChosenUnwritten record S b ∧
        (pass Slots.eraseA record S b).cfg = record ∨
      (pass Slots.eraseA record S b).slots = S.eraseA ∧ ¬ChosenUnwritten record S b := by
  unfold pass
  dsimp only
  rw [passSwap_eraseA_slots]
  cases hv : bootConfigValidate record
  · refine .inr ⟨?_, fun h ↦ by simp [h.1] at hv⟩
    simp only [passConfirm, hv, Bool.false_and, Bool.false_eq_true, if_false, PassState.save]
    split_ifs <;> rfl
  cases hc : b.confirmed
  · -- the record as found reaches the swap
    have hp : passConfirm Slots.eraseA record S b = ⟨record, S, []⟩ := by
      simp [passConfirm, hv, hc, confirmConfig, loadedConfig]
    rw [hp]
    dsimp only
    split_ifs with hs
    · exact .inr ⟨rfl, fun h ↦ h.2.2 hs⟩
    · rw [@passSwap_of_not_commits Slots.eraseA _ ⟨record, S, []⟩ hs]
      exact .inl ⟨rfl, ⟨hv, hc, hs⟩, rfl⟩
  · refine .inr ⟨?_, fun h ↦ by simp [h.2.1] at hc⟩
    simp only [passConfirm, hv, hc, Bool.not_true, Bool.and_false, Bool.false_eq_true, if_false,
      PassState.save]
    split_ifs <;> rfl

/-- When slot A is chosen from a record. -/
theorem passPick_slotA_iff (S : Slots) (cfg : BootConfig) :
    decisionOf (passPick S cfg).1.toUInt8 = .jump slotAAddr ↔ ChoosesSlotA cfg S := by
  have hBA : slotBAddr ≠ slotAAddr := by decide
  have hlt : ∀ n : UInt8, n < maxBootAttempts ↔ ¬n ≥ maxBootAttempts := fun n ↦ by simp
  unfold ChoosesSlotA
  by_cases hb : cfg.activeSlot = slotB
  · rw [passPick_of_slotB hb]
    split_ifs with h₁ h₂ h₃ h₃ <;> simp_all [PickResult.toUInt8]
  by_cases ha : cfg.activeSlot = slotA
  · rw [passPick_of_slotA ha]
    split_ifs with h₁ h₂ h₃ h₃ <;> simp_all [PickResult.toUInt8]
  · rw [passPick_of_ne ha hb]
    by_cases h0 : cfg.activeSlot = 0
    · split_ifs with h₁ h₂ <;> simp_all [PickResult.toUInt8]
    · split_ifs with h₁ h₂ <;>
        simp_all [PickResult.toUInt8, decisionOf_of_ne h0, memoryMapSlotAddr_of_ne hb]

/-- Slot B is what it was when the choice is made. -/
theorem pass_slots_b (record : BootConfig) (S : Slots) (b : SharedBootBlock) :
    (pass Slots.eraseA record S b).slots.b = S.b := by
  rcases pass_slots_eraseA record S b with ⟨e, -, -⟩ | ⟨e, -⟩
  · rw [e]
  · rw [e]; rfl

section

variable {σ : Type} [FlashBackend σ] (K : KeyStore) {m : Machine σ} (h : Powered m.dev)
include h

/-- A pass over a flash device jumps to slot A exactly when it chooses it unwritten. -/
theorem main_jump_slotA_iff : (main (onFlash σ K) m).1 = .jump slotAAddr ↔
    ChosenUnwritten (readConfig (flashInit m.dev)) (.ofMem K (byte (flashInit m.dev))) m.shared ∧
      ChoosesSlotA (readConfig (flashInit m.dev)) (.ofMem K (byte (flashInit m.dev))) := by
  have hp : (flashPass K m).pick = (passPick (flashPass K m).slots (flashPass K m).cfg).1 := rfl
  rw [(main_onFlash K h).1, hp, passPick_slotA_iff, flashPass]
  rcases pass_slots_eraseA (readConfig (flashInit m.dev)) (.ofMem K (byte (flashInit m.dev)))
    m.shared with ⟨e, hu, ec⟩ | ⟨e, hu⟩
  · rw [e, ec]
    exact ⟨fun hc ↦ ⟨hu, hc⟩, fun hc ↦ hc.2⟩
  · rw [e]
    exact ⟨fun hc ↦ absurd hc.1 (by simp [Slots.eraseA]), fun hc ↦ absurd hc.1 hu⟩

/-- At the moment of a jump slot A is gone and slot B is what it was. -/
theorem slots_of_main_jump {slotAddr : Nat} (hj : (main (onFlash σ K) m).1 = .jump slotAddr) :
    Slots.ofMem K (byte (main (onFlash σ K) m).2.dev) =
      (Slots.ofMem K (byte (flashInit m.dev))).eraseA := by
  rw [(main_onFlash K h).1] at hj
  have hw : (flashPass K m).writes ≠ [] :=
    writes_ne_nil fun hp ↦ by rw [flashPass, hp] at hj; cases hj
  rw [(main_onFlash K h).2.2.2.2, if_neg hw]

theorem slotA_not_verifies_of_main_jump {slotAddr : Nat}
    (hj : (main (onFlash σ K) m).1 = .jump slotAddr) :
    cryptoVerifyFirmware K (byte (main (onFlash σ K) m).2.dev) slotAAddr = false :=
  congrArg (fun S ↦ S.a.verifies) (slots_of_main_jump K h hj)

/-- What a jump to slot B finds there was verified before the jump. -/
theorem slotB_verifies_of_main_jump (hj : (main (onFlash σ K) m).1 = .jump slotBAddr) :
    (Slots.ofMem K (byte (flashInit m.dev))).b.verifies = true := by
  rw [(main_onFlash K h).1] at hj
  have hv := pass_jump_verifies hj
  rw [Slots.image_slotBAddr] at hv
  rwa [pass_slots_b] at hv

end

/-- **What is jumped to is what was verified, unless it is slot A.**  Over either
flash backend, whatever the flash and the shared block hold, the slot a pass jumps to
verifies on the flash at the moment of the jump exactly when the pass does not choose
slot A on a flash it has not written. -/
theorem jump_verifies_iff {σ : Type} [FlashBackend σ] (K : KeyStore) (m : Machine σ)
    (h : Powered m.dev) :
    (∀ slotAddr, (main (onFlash σ K) m).1 = .jump slotAddr →
      cryptoVerifyFirmware K (byte (main (onFlash σ K) m).2.dev) slotAddr = true) ↔
    ¬(ChosenUnwritten (readConfig (flashInit m.dev)) (.ofMem K (byte (flashInit m.dev))) m.shared ∧
      ChoosesSlotA (readConfig (flashInit m.dev)) (.ofMem K (byte (flashInit m.dev)))) := by
  rw [← main_jump_slotA_iff K h]
  constructor
  · intro hv hj
    exact Bool.false_ne_true ((slotA_not_verifies_of_main_jump K h hj).symm.trans (hv _ hj))
  · intro hne slotAddr hj
    rcases main_jump_cases hj with rfl | rfl
    · exact absurd hj hne
    · -- slot B was verified on the slots of the choice, and no save touches it
      have hB := congrArg (fun S ↦ S.b.verifies) (slots_of_main_jump K h hj)
      exact hB.trans (slotB_verifies_of_main_jump K h hj)

/-- With slot B active the factory image of two slots boots a slot that still verifies. -/
theorem jump_verifies_factory : ∃ mem,
    build (factoryArgs (sampleImage 1) (some (sampleImage 2)) true 0) = some mem ∧
      ∀ slotAddr, (main (onFlash Hw sampleKeys) ⟨.reset mem, .zero⟩).1 = .jump slotAddr →
        cryptoVerifyFirmware sampleKeys
          (main (onFlash Hw sampleKeys) ⟨.reset mem, .zero⟩).2.dev.mem slotAddr = true := by
  obtain ⟨mem, hm, hr, hs⟩ := exists_factory (sampleImage 1) (some (sampleImage 2)) true 0
  have hnot : ¬(ChosenUnwritten (.ofMem mem) (.ofMem sampleKeys mem) .zero ∧
      ChoosesSlotA (.ofMem mem) (.ofMem sampleKeys mem)) := by
    rw [hr, hs]
    rintro ⟨-, -, hc⟩
    rw [if_pos rfl] at hc
    rcases hc with hattempts | hfails
    · exact absurd hattempts (show ¬(0 : UInt8) ≥ maxBootAttempts by decide)
    · cases hfails
  refine ⟨mem, hm, fun slotAddr hj ↦ ?_⟩
  have hv := (jump_verifies_iff sampleKeys ⟨Hw.reset mem, .zero⟩ (Hw.healthy_reset mem)).2 hnot
    slotAddr hj
  rwa [byte_hw] at hv

/-- The factory image with slot A only boots slot A. -/
theorem factory_boots_slotA : ∃ mem,
    build (factoryArgs (sampleImage 1) none false 0) = some mem ∧
      (main (onFlash Hw sampleKeys) ⟨.reset mem, .zero⟩).1 = .jump slotAAddr := by
  obtain ⟨mem, hm, hr, hs⟩ := exists_factory (sampleImage 1) none false 0
  have hp : Powered (Hw.reset mem) := Hw.healthy_reset mem
  refine ⟨mem, hm, (main_jump_slotA_iff sampleKeys (m := ⟨Hw.reset mem, .zero⟩) hp).2 ?_⟩
  change ChosenUnwritten (.ofMem mem) (.ofMem sampleKeys mem) .zero ∧
    ChoosesSlotA (.ofMem mem) (.ofMem sampleKeys mem)
  rw [hr, hs]
  exact ⟨⟨provisionedConfig_validate _ _, rfl, fun hc ↦ hc.1 rfl⟩, rfl, by decide⟩

/-- It has erased slot A by then. -/
theorem jump_slotA_erased : ∃ mem,
    build (factoryArgs (sampleImage 1) none false 0) = some mem ∧
      (main (onFlash Hw sampleKeys) ⟨.reset mem, .zero⟩).1 = .jump slotAAddr ∧
      cryptoVerifyFirmware sampleKeys
        (main (onFlash Hw sampleKeys) ⟨.reset mem, .zero⟩).2.dev.mem slotAAddr = false := by
  obtain ⟨mem, hm, hj⟩ := factory_boots_slotA
  have hp : Powered (Hw.reset mem) := Hw.healthy_reset mem
  have hv := slotA_not_verifies_of_main_jump sampleKeys (m := ⟨Hw.reset mem, .zero⟩) hp hj
  rw [byte_hw] at hv
  exact ⟨mem, hm, hj, hv⟩

end DualBank
