import DualBank.Boot.JumpTarget

/-!
# The lock of the flash controller

A pass that jumps has marked the record dirty on every way to the jump, so its last
flash operation is a save.  A save ends with `flash_program_word`, which unlocks the
controller and leaves it unlocked.  What the verifications report has no part in
this, so a platform here only has to drive the hardware backend.
-/

namespace DualBank

open Lib BootConfig FlashBackend

variable {σ : Type}

/-! ## Platforms that keep an invariant -/

/-- The calls of the boot code keep `I`, which `flash_init` establishes from `I₀`. -/
structure Platform.Keeps (P : Platform σ) (I₀ I : σ → Prop) : Prop where
  init : ∀ s, I₀ s → I (P.flashInit s)
  save : ∀ cfg s, I s → I (P.bootConfigSave cfg s).2
  verify : ∀ slotAddr s, I s → I (P.cryptoVerifyFirmware slotAddr s).2

section Keeps

variable {P : Platform σ} {I₀ I : σ → Prop} (h : P.Keeps I₀ I)

include h

theorem recoverVersion_keeps (slotAddr : Nat) {s : σ} (hs : I s) :
    I (recoverVersion P slotAddr s).2 := by
  unfold recoverVersion
  dsimp only
  split
  · exact h.verify _ _ hs
  · exact hs

theorem bootConfigLoad_keeps {s : σ} (hs : I s) : I (bootConfigLoad P s).2.2 := by
  unfold bootConfigLoad
  dsimp only
  split_ifs
  · exact hs
  · exact recoverVersion_keeps h _ (recoverVersion_keeps h _ hs)

theorem saveIfDirty_keeps {st : BootState σ} (hs : I st.dev) : I (saveIfDirty P st).dev := by
  unfold saveIfDirty
  split_ifs
  · exact h.save _ _ hs
  · exact hs

theorem processOtaPendingSwap_keeps {st : BootState σ} (hs : I st.dev) :
    I (processOtaPendingSwap P st).2.dev := by
  unfold processOtaPendingSwap
  dsimp only
  have hv : ∀ slotAddr, I (P.cryptoVerifyFirmware slotAddr st.dev).2 := fun _ ↦ h.verify _ _ hs
  split_ifs
  · exact hs
  · exact hv _
  · exact hv _
  · exact hv _
  · exact h.verify _ _ (h.save _ _ (hv _))
  · exact h.save _ _ (h.verify _ _ (h.save _ _ (hv _)))

theorem pickLoop_keeps (n : Nat) {st : BootState σ} (hs : I st.dev) :
    I (pickLoop P n st).2.dev := by
  induction n generalizing st with
  | zero => exact hs
  | succ n ih =>
      have hv : I (P.cryptoVerifyFirmware (memoryMapSlotAddr st.cfg.activeSlot) st.dev).2 :=
        h.verify _ _ hs
      unfold pickLoop
      dsimp only
      split_ifs
      · exact ih hv
      · exact hv
      · exact h.verify _ _ hv
      · exact h.verify _ _ hv

/-- The device at the choice of the slot. -/
theorem mainPick_keeps {m : Machine σ} (hm : I₀ m.dev) : I (mainPick P m).2.dev := by
  have hload : I (mainLoad P m).dev := bootConfigLoad_keeps h (h.init _ hm)
  have hcheck : I (checkAppConfirmation (mainLoad P m)).dev := by
    rw [checkAppConfirmation_eq]; exact hload
  have hconfirm : I (mainConfirm P m).dev := saveIfDirty_keeps h hcheck
  have hswap : I (mainSwap P m).2.dev := processOtaPendingSwap_keeps h hconfirm
  exact pickLoop_keeps h _ (saveIfDirty_keeps h hswap)

end Keeps

/-! ## The last save -/

/-- Every way to a slot marks the record dirty. -/
theorem pickLoop_dirty {P : Platform σ} (n : Nat) {st : BootState σ} {slot : UInt8}
    (h : (pickLoop P n st).1 = .boot slot) : (pickLoop P n st).2.cfgDirty = true := by
  induction n generalizing st with
  | zero => cases h
  | succ n ih =>
      unfold pickLoop at h ⊢
      dsimp only at h ⊢
      split_ifs at h ⊢
      · exact ih h
      · rfl
      · rfl

/-- A pass that jumps ends with a save. -/
theorem main_jump_saves {P : Platform σ} {m : Machine σ} {slotAddr : Nat}
    (hj : (main P m).1 = .jump slotAddr) :
    (main P m).2.dev = (P.bootConfigSave (mainPick P m).2.cfg (mainPick P m).2.dev).2 := by
  have hd : decisionOf (mainPick P m).1.toUInt8 = .jump slotAddr := hj
  have hdirty : (mainPick P m).2.cfgDirty = true := by
    cases hp : (mainPick P m).1 with
    | boot slot => exact pickLoop_dirty _ hp
    | bothFailed => rw [hp] at hd; cases hd
    | retriesExceeded => rw [hp] at hd; cases hd
  have hdev : (main P m).2.dev = (saveIfDirty P (mainPick P m).2).dev := rfl
  rw [hdev, saveIfDirty, if_pos hdirty]

/-! ## The hardware controller -/

namespace Hw

/-- A word store that got past its first checks leaves the controller unlocked. -/
theorem flashProgramWord_lock {addr : Nat} {value : UInt32} {s : Hw}
    (h : (flashProgramWord addr value s).1 = .ok) :
    (flashProgramWord addr value s).2.cr.lock = false := by
  have hlock : ∀ t : Hw, (startWord addr value t).cr.lock = false := fun t ↦ by
    rw [startWord, storeBytes_cr]; rfl
  have hfin : ∀ w : FlashStatus × Hw, w.2.cr.lock = false →
      (finishWord addr value w).2.cr.lock = false := fun w hw ↦ by
    unfold finishWord
    dsimp only
    split_ifs <;> exact hw
  rw [flashProgramWord_eq] at h ⊢
  split_ifs at h ⊢ with h₁ h₂
  · exact hfin _ (by rw [waitBusy_cr]; exact hlock _)
  · exact absurd h h₂

/-- A save that reports success leaves the controller unlocked. -/
theorem bootConfigSave_lock {cfg : BootConfig} {s : Hw} (h : (bootConfigSave cfg s).1 = true) :
    (bootConfigSave cfg s).2.cr.lock = false := by
  unfold bootConfigSave at h ⊢
  dsimp only at h ⊢
  split_ifs at h ⊢ with h₁ h₂ h₃
  exact flashProgramWord_lock (not_not.mp h₃)

end Hw

/-! ## Jumps -/

/-- The flash operations of `P` are those of the hardware backend on the device `dev`;
what its verifications and its header reads return is left open. -/
structure Platform.DrivesHw (P : Platform σ) (dev : σ → Hw) : Prop where
  init : ∀ s, dev (P.flashInit s) = Hw.flashInit (dev s)
  readConfig : ∀ s, P.readConfig s = DualBank.readConfig (dev s)
  save : ∀ cfg s, dev (P.bootConfigSave cfg s).2 = (DualBank.bootConfigSave cfg (dev s)).2
  verify : ∀ slotAddr s, dev (P.cryptoVerifyFirmware slotAddr s).2 = dev s

/-- The platform of the build drives the device it runs on. -/
theorem onFlash_drivesHw (K : KeyStore) : (onFlash Hw K).DrivesHw id where
  init _ := rfl
  readConfig _ := rfl
  save _ _ := rfl
  verify _ _ := rfl

/-- The platform `P` with the outcomes of the verifications given one by one; when
the list is used up they fail. -/
def Platform.withVerdicts (P : Platform σ) : Platform (σ × List Bool) where
  flashInit s := (P.flashInit s.1, s.2)
  readConfig s := P.readConfig s.1
  bootConfigSave cfg s :=
    let r := P.bootConfigSave cfg s.1
    (r.1, r.2, s.2)
  cryptoVerifyFirmware _ s := (s.2.headD false, s.1, s.2.tail)
  readHeader slotAddr s := P.readHeader slotAddr s.1

theorem withVerdicts_drivesHw (K : KeyStore) :
    (onFlash Hw K).withVerdicts.DrivesHw Prod.fst where
  init _ := rfl
  readConfig _ := rfl
  save _ _ := rfl
  verify _ _ := rfl

theorem Platform.DrivesHw.keeps {P : Platform σ} {dev : σ → Hw} (h : P.DrivesHw dev) :
    P.Keeps (fun s ↦ (dev s).Healthy) fun s ↦ (dev s).Healthy where
  init s hs := by rw [h.init]; exact hs
  save cfg s hs := by
    rw [h.save]
    exact (bootConfigSave_of_healthy (s := dev s) cfg hs).2.healthy
  verify slotAddr s hs := by rw [h.verify]; exact hs

/-- A device without faults is handed over unlocked by every pass that jumps. -/
theorem lock_of_main_jump {P : Platform σ} {dev : σ → Hw} (h : P.DrivesHw dev) {m : Machine σ}
    (hm : (dev m.dev).Healthy) {slotAddr : Nat} (hj : (main P m).1 = .jump slotAddr) :
    (dev (main P m).2.dev).cr.lock = false := by
  have hpick : (dev (mainPick P m).2.dev).Healthy := mainPick_keeps h.keeps hm
  rw [main_jump_saves hj, h.save]
  exact Hw.bootConfigSave_lock (bootConfigSave_of_healthy (s := dev _) _ hpick).1

theorem lock_of_onFlash_jump (K : KeyStore) {s : Hw} (hs : s.Healthy) {b : SharedBootBlock}
    {slotAddr : Nat} (hj : (main (onFlash Hw K) ⟨s, b⟩).1 = .jump slotAddr) :
    (main (onFlash Hw K) ⟨s, b⟩).2.dev.cr.lock = false :=
  lock_of_main_jump (onFlash_drivesHw K) hs hj

/-- **The lock at a jump.**  On a device without faults, whatever its flash, its
control register and the shared block hold, no pass that jumps hands over a locked
controller: neither with the verifications of the build nor with any outcomes in
their place. -/
theorem jump_unlocked (K : KeyStore) {s : Hw} (hs : s.Healthy) (b : SharedBootBlock) :
    (∀ slotAddr, (main (onFlash Hw K) ⟨s, b⟩).1 = .jump slotAddr →
      (main (onFlash Hw K) ⟨s, b⟩).2.dev.cr.lock = false) ∧
    ∀ verdicts slotAddr,
      (main (onFlash Hw K).withVerdicts ⟨(s, verdicts), b⟩).1 = .jump slotAddr →
        (main (onFlash Hw K).withVerdicts ⟨(s, verdicts), b⟩).2.dev.1.cr.lock = false := by
  constructor
  · intro slotAddr hj
    exact lock_of_onFlash_jump K hs hj
  · intro verdicts slotAddr hj
    exact lock_of_main_jump (withVerdicts_drivesHw K) hs hj

/-- The factory image boots slot A with the controller unlocked. -/
theorem jump_unlocked_factory : ∃ mem,
    build (factoryArgs (sampleImage 1) none false 0) = some mem ∧
      (main (onFlash Hw sampleKeys) ⟨.reset mem, .zero⟩).2.dev.cr.lock = false := by
  obtain ⟨mem, hm, hj⟩ := factory_boots_slotA
  have hl := (jump_unlocked sampleKeys (Hw.healthy_reset mem) .zero).1
  exact ⟨mem, hm, hl slotAAddr hj⟩

/-- So the lock is not set at every jump. -/
theorem jump_not_locked :
    ¬∀ mem slotAddr, (main (onFlash Hw sampleKeys) ⟨.reset mem, .zero⟩).1 = .jump slotAddr →
      (main (onFlash Hw sampleKeys) ⟨.reset mem, .zero⟩).2.dev.cr.lock = true := by
  intro h
  obtain ⟨mem, -, hj⟩ := factory_boots_slotA
  have hl : (main (onFlash Hw sampleKeys) ⟨.reset mem, .zero⟩).2.dev.cr.lock = false :=
    lock_of_onFlash_jump sampleKeys (Hw.healthy_reset mem) hj
  exact Bool.false_ne_true (hl.symm.trans (h mem _ hj))

end DualBank
