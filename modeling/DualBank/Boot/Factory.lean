import DualBank.Boot.ColdBoot
import DualBank.Boot.FixedSlots
import DualBank.Boot.JumpTarget
import DualBank.Lib.Run

/-!
# Runs from the factory image

A device starts with the image of `build` and a cold shared block; after every boot
the application may confirm itself and may request a swap, and a soft reset or a power
cycle follows.  The factory record keeps no version, so its floor does not cover the
image in slot A: a swap that is requested while that image runs goes through to an
older one in slot B.
-/

namespace DualBank

open Lib BootConfig FlashBackend

variable {σ : Type} [FlashBackend σ]

/-! ## Runs -/

/-- What an application does before the next reset, and whether that reset is a power
cycle, which loses the shared block. -/
structure Session where
  confirm : Bool
  request : Bool
  powerCycle : Bool

/-- The shared block after the session. -/
def Session.shared (l : Session) (b : SharedBootBlock) : SharedBootBlock :=
  let b := if l.confirm then bootloaderConfirmBoot b else b
  if l.request then bootloaderRequestOtaSwap b else b

/-- A machine between two resets. -/
structure AppRun (σ : Type) where
  machine : Machine σ
  /-- The header version of the application that is running, if one is. -/
  running : Option UInt32

/-- The header version of the slot a pass jumps to, when it chooses the slot. -/
def runningVersion (K : KeyStore) (m : Machine σ) : Option UInt32 :=
  match (main (onFlash σ K) m).1 with
  | .jump slotAddr =>
    some (FirmwareHeader.ofMem (byte (mainPick (onFlash σ K) m).2.dev) slotAddr).version
  | _ => none

def bootFrom (K : KeyStore) (m : Machine σ) : AppRun σ :=
  ⟨(main (onFlash σ K) m).2, runningVersion K m⟩

/-- The machine at the reset that ends a session. -/
def AppRun.atReset (st : AppRun σ) (l : Session) : Machine σ :=
  if l.powerCycle then ⟨st.machine.dev, .zero⟩
  else if st.running.isSome then ⟨st.machine.dev, l.shared st.machine.shared⟩
  else st.machine

/-- A session and the pass after it. -/
def sessionStep (K : KeyStore) (st : AppRun σ) (l : Session) : AppRun σ := bootFrom K (st.atReset l)

/-- The header version of the slot a pending swap goes to. -/
def swapTargetVersion (K : KeyStore) (m : Machine σ) : UInt32 :=
  let st := mainConfirm (onFlash σ K) m
  (FirmwareHeader.ofMem (byte st.dev)
    (memoryMapSlotAddr (memoryMapOtherSlot st.cfg.activeSlot))).version

/-- A swap that is committed goes to an image at least as new as the one that was
running when it was requested. -/
def SwapUpgrades (K : KeyStore) (st : AppRun σ) (l : Session) : Prop :=
  (mainSwap (onFlash σ K) (st.atReset l)).1 = .committed →
    ∃ v, st.running = some v ∧ v ≤ swapTargetVersion K (st.atReset l)

/-! ## A pass of the run -/

theorem header_slot (K : KeyStore) (mem : Mem) (slot : UInt8) :
    FirmwareHeader.ofMem mem (memoryMapSlotAddr slot) = ((Slots.ofMem K mem).slot slot).header := by
  rw [← Slots.image_memoryMapSlotAddr]
  rcases memoryMapSlotAddr_cases slot with e | e <;> rw [e] <;> rfl

theorem runningVersion_of_jump (K : KeyStore) {m : Machine σ} (h : Powered m.dev) {slotAddr : Nat}
    (hj : (main (onFlash σ K) m).1 = .jump slotAddr) :
    runningVersion K m = some ((flashPass K m).slots.image slotAddr).version := by
  rw [runningVersion, hj, ← (mainPick_onFlash K h).2.2.2]
  rcases main_jump_cases hj with rfl | rfl <;> rfl

theorem swapTargetVersion_eq (K : KeyStore) {m : Machine σ} (h : Powered m.dev) :
    swapTargetVersion K m =
      let c := passConfirm Slots.eraseA (readConfig (flashInit m.dev))
        (.ofMem K (byte (flashInit m.dev))) m.shared
      (c.slots.slot (memoryMapOtherSlot c.cfg.activeSlot)).version := by
  obtain ⟨hc, hs⟩ := mainConfirm_onFlash K h
  rw [swapTargetVersion]
  dsimp only at hc hs ⊢
  rw [header_slot K, hc, hs]
  rfl

/-- A record that names slot A after the choice comes from slots of which slot A
verifies, or slot B does not. -/
theorem passPick_eq_slotA (S : Slots) (cfg : BootConfig)
    (h : (passPick S cfg).2.activeSlot = slotA) (ha : S.a.verifies = false) :
    S.b.verifies = false := by
  have hab : slotB ≠ slotA := by decide
  by_cases h₁ : cfg.activeSlot = slotA
  · rw [passPick_of_slotA h₁, ha] at h
    cases hb : S.b.verifies with
    | false => rfl
    | true => rw [hb] at h; exact absurd h hab
  by_cases h₂ : cfg.activeSlot = slotB
  · rw [passPick_of_slotB h₂, ha] at h
    cases hb : S.b.verifies with
    | false => rfl
    | true =>
        rw [hb] at h
        simp only [if_true, Bool.false_eq_true, if_false] at h
        split_ifs at h
        · exact absurd (h₂.symm.trans h) hab
        · exact absurd (h₂.symm.trans h) hab
  · rw [passPick_of_ne h₁ h₂, ha] at h
    exact absurd h h₁

/-- The run is past the first boot, which has cost slot A. -/
structure FirstBootDone (K : KeyStore) (B : SlotImage) (st : AppRun σ) : Prop where
  healthy : Healthy st.machine.dev
  slots : Slots.ofMem K (byte st.machine.dev) = ⟨.erased, B⟩
  valid : bootConfigValidate (readConfig st.machine.dev) = true
  noSwap : st.machine.shared.otaPending = 0

/-- Past the first boot an image of slot A that is still running is not newer than the
one in slot B. -/
structure RunningCovered (K : KeyStore) (B : SlotImage) (st : AppRun σ) : Prop
    extends FirstBootDone K B st where
  covered : (readConfig st.machine.dev).activeSlot = slotA → B.verifies = true →
    ∀ v, st.running = some v → v ≤ B.version

omit [FlashBackend σ] in
theorem AppRun.atReset_dev (st : AppRun σ) (l : Session) : (st.atReset l).dev = st.machine.dev := by
  unfold AppRun.atReset
  split_ifs
  · rfl
  · rfl
  · rfl

omit [FlashBackend σ] in
/-- Only a running application makes a swap pending. -/
theorem AppRun.running_of_pending {st : AppRun σ} {l : Session}
    (h₀ : st.machine.shared.otaPending = 0) (h : (st.atReset l).shared.otaPending ≠ 0) :
    ∃ v, st.running = some v := by
  cases hr : st.running with
  | some v => exact ⟨v, rfl⟩
  | none =>
      rw [AppRun.atReset, hr] at h
      split_ifs at h with h₁ h₂
      · exact absurd rfl h
      · cases h₂
      · exact absurd h₀ h

theorem passConfirm_erased (record : BootConfig) (B : SlotImage) (b : SharedBootBlock) :
    (passConfirm Slots.eraseA record ⟨.erased, B⟩ b).slots = ⟨.erased, B⟩ := by
  unfold passConfirm
  dsimp only
  split_ifs <;> rfl

namespace FirstBootDone

variable {K : KeyStore} {B : SlotImage} {st : AppRun σ} (h : FirstBootDone K B st) (l : Session)
include h

theorem powered : Powered (st.atReset l).dev := by
  rw [AppRun.atReset_dev]; exact powered_of_healthy h.healthy

theorem flashInit_eq : flashInit (st.atReset l).dev = st.machine.dev := by
  rw [AppRun.atReset_dev]; exact flashInit_of_healthy h.healthy

/-- What the swap of the next pass starts from. -/
theorem passConfirm_eq :
    (passConfirm Slots.eraseA (readConfig (flashInit (st.atReset l).dev))
        (.ofMem K (byte (flashInit (st.atReset l).dev))) (st.atReset l).shared).cfg =
      confirmConfig (st.atReset l).shared.confirmed (readConfig st.machine.dev) ∧
    (passConfirm Slots.eraseA (readConfig (flashInit (st.atReset l).dev))
        (.ofMem K (byte (flashInit (st.atReset l).dev))) (st.atReset l).shared).slots =
      ⟨.erased, B⟩ := by
  rw [h.flashInit_eq l, h.slots, passConfirm_cfg, loadedConfig_of_valid h.valid]
  exact ⟨rfl, passConfirm_erased _ _ _⟩

theorem mainSwap_eq : (mainSwap (onFlash σ K) (st.atReset l)).1 =
    (passSwap Slots.eraseA (st.atReset l).shared.otaPending
      (passConfirm Slots.eraseA (readConfig (flashInit (st.atReset l).dev))
        (.ofMem K (byte (flashInit (st.atReset l).dev))) (st.atReset l).shared)).1 :=
  (mainPick_onFlash K (h.powered l)).1

theorem swapTargetVersion_eq : swapTargetVersion K (st.atReset l) =
    ((⟨.erased, B⟩ : Slots).slot
      (memoryMapOtherSlot (readConfig st.machine.dev).activeSlot)).version := by
  have ht := DualBank.swapTargetVersion_eq K (h.powered l)
  dsimp only at ht
  rw [ht, (h.passConfirm_eq l).1, (h.passConfirm_eq l).2, confirmConfig_activeSlot]

end FirstBootDone

namespace RunningCovered

variable {K : KeyStore} {B : SlotImage} {st : AppRun σ} (h : RunningCovered K B st) (l : Session)
include h

/-- A swap of the run goes to slot B, from the slot A that was running. -/
theorem swapUpgrades : SwapUpgrades K st l := by
  intro hc
  rw [h.mainSwap_eq l] at hc
  obtain ⟨hpend, hver, -⟩ := swapCommits_of_committed hc
  obtain ⟨v, hv⟩ := AppRun.running_of_pending h.noSwap hpend
  rw [(h.passConfirm_eq l).1, (h.passConfirm_eq l).2, confirmConfig_activeSlot] at hver
  rw [h.swapTargetVersion_eq l]
  by_cases ha : (readConfig st.machine.dev).activeSlot = slotA
  · rw [ha] at hver ⊢
    exact ⟨v, hv, h.covered ha hver v hv⟩
  · rw [memoryMapOtherSlot_of_ne ha] at hver
    cases hver

theorem step : RunningCovered K B (sessionStep K st l) := by
  obtain ⟨-, hsh, hI, hr, hs⟩ := main_onFlash K (h.powered l)
  rw [h.flashInit_eq l, h.slots] at hs
  have hslots : (flashPass K (st.atReset l)).slots.a.verifies = false ∧
      (flashPass K (st.atReset l)).slots.b = B := by
    rw [flashPass, h.flashInit_eq l, h.slots]
    refine ⟨?_, pass_slots_b _ _ _⟩
    rcases pass_slots_eraseA (readConfig st.machine.dev) ⟨.erased, B⟩ (st.atReset l).shared with
      ⟨e, -⟩ | ⟨e, -⟩ <;> rw [e] <;> rfl
  refine ⟨⟨hI, ?_, ?_, ?_⟩, fun ha hb ↦ ?_⟩
  · refine hs.trans ?_
    split_ifs <;> rfl
  · change bootConfigValidate (readConfig (main (onFlash σ K) (st.atReset l)).2.dev) = true
    rw [hr, bootConfigValidate_stampCrc, flashPass, pass_final_magic]
    rfl
  · exact (congrArg SharedBootBlock.otaPending hsh).trans rfl
  · -- with slot A gone, slot A stays active only if slot B fails too
    change (readConfig (main (onFlash σ K) (st.atReset l)).2.dev).activeSlot = slotA at ha
    rw [hr, activeSlot_stampCrc, flashPass_final] at ha
    have hfailed := passPick_eq_slotA _ _ ha hslots.1
    rw [hslots.2, hb] at hfailed
    cases hfailed

end RunningCovered

/-! ## The factory image -/

/-- A device with the factory image, at its first power-up: the flash is an output of
`build` with a default record and signed images, and the shared block is cold. -/
structure Factory (K : KeyStore) (args : LayoutArgs) (a : SignedImage K)
    (b : Option (SignedImage K)) (m : Machine σ) : Prop where
  powered : Powered m.dev
  image : build args = some (byte (flashInit m.dev))
  config : args.noConfig = false
  intact : args.corrupt = none
  imageA : args.slotA = some a.bytes
  imageB : args.slotB = b.map SignedImage.bytes
  cold : m.shared.Cold
  noSwap : m.shared.otaPending = 0

/-- The first boot goes to slot A although slot B holds an older image. -/
def OlderInSlotB {K : KeyStore} (args : LayoutArgs) (a : SignedImage K)
    (b : Option (SignedImage K)) : Prop :=
  (∃ img, b = some img ∧ img.header.version < a.header.version) ∧
    if args.activeB then args.bootAttempts ≥ maxBootAttempts
    else args.bootAttempts < maxBootAttempts

namespace Factory

variable {K : KeyStore} {args : LayoutArgs} {a : SignedImage K} {b : Option (SignedImage K)}
  {m : Machine σ} (h : Factory K args a b m)
include h

theorem record_eq :
    readConfig (flashInit m.dev) = provisionedConfig args.active args.bootAttempts :=
  (build_spec h.image h.config h.intact).1

theorem slots_eq :
    Slots.ofMem K (byte (flashInit m.dev)) = ⟨.ofSigned a, b.elim .erased .ofSigned⟩ :=
  slots_of_build h.image h.config h.intact h.imageA h.imageB

/-- The first choice is made from the image as it was provisioned. -/
theorem chosenUnwritten : ChosenUnwritten (readConfig (flashInit m.dev))
    (.ofMem K (byte (flashInit m.dev))) m.shared := by
  refine ⟨?_, SharedBootBlock.confirmed_of_magic_ne h.cold, fun hs ↦ hs.1 h.noSwap⟩
  rw [h.record_eq]
  exact provisionedConfig_validate _ _

theorem flashPass_eq : (flashPass K m).slots = ⟨.ofSigned a, b.elim .erased .ofSigned⟩ ∧
    (flashPass K m).cfg = provisionedConfig args.active args.bootAttempts := by
  rw [← h.slots_eq, ← h.record_eq]
  rcases pass_slots_eraseA (readConfig (flashInit m.dev)) (.ofMem K (byte (flashInit m.dev)))
    m.shared with ⟨e, -, ec⟩ | ⟨-, hn⟩
  · exact ⟨e, ec⟩
  · exact absurd h.chosenUnwritten hn

theorem exists_jump : ∃ slotAddr, (main (onFlash σ K) m).1 = .jump slotAddr := by
  cases hd : (main (onFlash σ K) m).1 with
  | jump slotAddr => exact ⟨slotAddr, rfl⟩
  | halted =>
      rw [(main_onFlash K h.powered).1] at hd
      exact absurd hd (decisionOf_ne_halted _)
  | recovery =>
      have hp : (flashPass K m).pick = (passPick (flashPass K m).slots (flashPass K m).cfg).1 := rfl
      rw [(main_onFlash K h.powered).1, hp, h.flashPass_eq.1, h.flashPass_eq.2,
        passPick_recovery_iff] at hd
      rcases hd with ⟨hd, -⟩ | ⟨ha, hb, -⟩
      · cases hd
      · exact absurd args.isSlot_active (not_or.2 ⟨ha, hb⟩)

/-- The slots after the first boot. -/
theorem slots_after : Slots.ofMem K (byte (main (onFlash σ K) m).2.dev) =
    ⟨.erased, b.elim .erased .ofSigned⟩ := by
  obtain ⟨slotAddr, hj⟩ := h.exists_jump
  rw [slots_of_main_jump K h.powered hj, h.slots_eq]
  rfl

theorem record_after : readConfig (main (onFlash σ K) m).2.dev = bootConfigStampCrc
    (passPick ⟨.ofSigned a, b.elim .erased .ofSigned⟩
      (provisionedConfig args.active args.bootAttempts)).2 := by
  have hf : (flashPass K m).final = (passPick (flashPass K m).slots (flashPass K m).cfg).2 := rfl
  rw [(main_onFlash K h.powered).2.2.2.1, hf, h.flashPass_eq.1, h.flashPass_eq.2]

/-- When the first boot goes to slot A, if slot B holds an image. -/
theorem jump_slotA_iff (img : SignedImage K) (hb : b = some img) :
    (main (onFlash σ K) m).1 = .jump slotAAddr ↔
      if args.activeB then args.bootAttempts ≥ maxBootAttempts
      else args.bootAttempts < maxBootAttempts := by
  have hact : (provisionedConfig args.active args.bootAttempts).activeSlot = args.active := rfl
  have hatt : (provisionedConfig args.active args.bootAttempts).bootAttempts =
      args.bootAttempts := rfl
  have hva : (SlotImage.ofSigned a).verifies = true := rfl
  have hvb : (SlotImage.ofSigned img).verifies = true := rfl
  have hab : slotA ≠ slotB := by decide
  rw [main_jump_slotA_iff K h.powered, and_iff_right h.chosenUnwritten, h.record_eq, h.slots_eq, hb]
  unfold ChoosesSlotA
  rw [hact, hatt, LayoutArgs.active]
  cases args.activeB <;> simp [hva, hvb, hab]

theorem firstBootDone : FirstBootDone K (b.elim .erased .ofSigned) (bootFrom K m) := by
  obtain ⟨-, hsh, hI, hr, -⟩ := main_onFlash K h.powered
  refine ⟨hI, h.slots_after, ?_, ?_⟩
  · change bootConfigValidate (readConfig (main (onFlash σ K) m).2.dev) = true
    rw [hr, bootConfigValidate_stampCrc, flashPass, pass_final_magic]
    rfl
  · exact (congrArg SharedBootBlock.otaPending hsh).trans rfl

/-- The slot of the first boot is the active one afterwards. -/
theorem active_after {slotAddr : Nat} (hj : (main (onFlash σ K) m).1 = .jump slotAddr) :
    memoryMapSlotAddr (readConfig (main (onFlash σ K) m).2.dev).activeSlot = slotAddr := by
  have hp : (flashPass K m).pick = (passPick (flashPass K m).slots (flashPass K m).cfg).1 := rfl
  rw [(main_onFlash K h.powered).1, hp, h.flashPass_eq.1, h.flashPass_eq.2] at hj
  rw [h.record_after]
  exact (passPick_jump_activeSlot hj).1

/-- An image of slot A is running after the first boot only if the boot went there. -/
theorem running_after (hact : (readConfig (main (onFlash σ K) m).2.dev).activeSlot = slotA) :
    (main (onFlash σ K) m).1 = .jump slotAAddr ∧
      (bootFrom K m).running = some a.header.version := by
  obtain ⟨slotAddr, hj⟩ := h.exists_jump
  have hA := h.active_after hj
  rw [hact, memoryMapSlotAddr_slotA] at hA
  subst hA
  refine ⟨hj, (runningVersion_of_jump K h.powered hj).trans ?_⟩
  rw [h.flashPass_eq.1]
  rfl

/-- A swap requested after a first boot of slot A goes through to any image in slot B. -/
theorem committed_after (hj : (main (onFlash σ K) m).1 = .jump slotAAddr) {img : SignedImage K}
    (hb : b = some img) :
    (mainSwap (onFlash σ K) ((bootFrom K m).atReset ⟨false, true, false⟩)).1 = .committed ∧
      swapTargetVersion K ((bootFrom K m).atReset ⟨false, true, false⟩) = img.header.version ∧
      (bootFrom K m).running = some a.header.version := by
  have hdone : FirstBootDone K (.ofSigned img) (bootFrom K m) := by
    have := h.firstBootDone
    rwa [hb] at this
  have hrec := h.record_after
  have hact : (readConfig (bootFrom K m).machine.dev).activeSlot = slotA := by
    have hA := h.active_after hj
    rw [← memoryMapSlotAddr_slotA, memoryMapSlotAddr_inj ?_ (.inl rfl)] at hA
    · exact hA
    · rw [hrec]
      exact passPick_isSlot _ (provisionedConfig args.active args.bootAttempts)
        args.isSlot_active
  have hrun := (h.running_after hact).2
  have hpend : ((bootFrom K m).atReset ⟨false, true, false⟩).shared.otaPending = 1 := by
    rw [AppRun.atReset, hrun]
    rfl
  -- the factory record has floor zero, and the choice keeps it
  have hfloor : bootConfigAntidowngradeFloor (readConfig (bootFrom K m).machine.dev) = 0 := by
    refine (congrArg bootConfigAntidowngradeFloor hrec).trans ?_
    exact (passPick_floor _ _).trans (provisionedConfig_floor _ _)
  obtain ⟨hcfg, hslots⟩ := hdone.passConfirm_eq ⟨false, true, false⟩
  have ht := hdone.swapTargetVersion_eq ⟨false, true, false⟩
  refine ⟨?_, ?_, hrun⟩
  · rw [hdone.mainSwap_eq, passSwap_of_commits]
    · refine ⟨by rw [hpend]; decide, ?_, bootConfigFirmwareAllowed_iff.2 ?_⟩
      · rw [hcfg, hslots, confirmConfig_activeSlot, hact]
        rfl
      · rw [hcfg, confirmConfig_floor, hfloor]
        exact Nat.zero_le _
    · rw [hcfg, hslots, confirmConfig_activeSlot, hact]
      rfl
  · rw [ht, hact]
    rfl

end Factory

/-- **The floor from the factory on.**  In every run from the factory image the swaps
go to images at least as new as the ones that were running, exactly when the first
boot does not go to slot A over an older image in slot B. -/
theorem swap_upgrades_iff {K : KeyStore} {args : LayoutArgs} {a : SignedImage K}
    {b : Option (SignedImage K)} {m : Machine σ} (h : Factory K args a b m) :
    (∀ ls, Along (sessionStep K) (SwapUpgrades K) (bootFrom K m) ls) ↔
      ¬OlderInSlotB args a b := by
  constructor
  · rintro hall ⟨⟨img, hb, hlt⟩, hcond⟩
    obtain ⟨hc, ht, hrun⟩ := h.committed_after ((h.jump_slotA_iff img hb).2 hcond) hb
    obtain ⟨v, hv, hle⟩ := (hall [⟨false, true, false⟩]).1 hc
    rw [hrun] at hv
    cases hv
    rw [ht] at hle
    exact absurd hlt (UInt32.not_lt.2 hle)
  · intro hnot ls
    refine along_of_inv (I := RunningCovered K (b.elim .erased .ofSigned))
      (fun st l hI ↦ ⟨hI.swapUpgrades l, hI.step l⟩) ⟨h.firstBootDone, fun hact hver v hv ↦ ?_⟩ ls
    obtain ⟨hj, hrun⟩ := h.running_after hact
    cases hb : b with
    | none => rw [hb] at hver; cases hver
    | some img =>
        -- the first boot went to slot A, so slot B does not hold an older image
        refine UInt32.not_lt.1 fun hlt ↦ hnot ⟨⟨img, hb, ?_⟩, (h.jump_slotA_iff img hb).1 hj⟩
        rw [hrun] at hv
        cases hv
        exact hlt

theorem factory_of_build {K : KeyStore} {a : SignedImage K} {b : Option (SignedImage K)}
    {activeB : Bool} {bootAttempts : UInt8} {mem : Mem}
    (hm : build (factoryArgs a b activeB bootAttempts) = some mem) :
    Factory K (factoryArgs a b activeB bootAttempts) a b (⟨Hw.reset mem, .zero⟩ : Machine Hw) where
  powered := Hw.healthy_reset mem
  image := hm
  config := rfl
  intact := rfl
  imageA := rfl
  imageB := rfl
  cold := show SharedBootBlock.zero.Cold by decide
  noSwap := rfl

/-- With the newer image in slot B no swap goes back. -/
theorem swap_upgrades_newer : ∃ mem,
    build (factoryArgs (sampleImage 1) (some (sampleImage 2)) false 0) = some mem ∧
      ∀ ls, Along (sessionStep sampleKeys) (SwapUpgrades sampleKeys)
        (bootFrom sampleKeys (⟨Hw.reset mem, .zero⟩ : Machine Hw)) ls := by
  obtain ⟨mem, hm, -⟩ := exists_factory (sampleImage 1) (some (sampleImage 2)) false 0
  refine ⟨mem, hm, (swap_upgrades_iff (factory_of_build hm)).2 ?_⟩
  rintro ⟨⟨img, hb, hlt⟩, -⟩
  cases hb
  simp only [header_sampleImage, version_sampleHeader] at hlt
  exact absurd hlt (by decide)

/-- From a factory image of version 2 in slot A and version 1 in slot B, the first
requested swap goes back to version 1. -/
theorem swap_to_older : ∃ mem,
    build (factoryArgs (sampleImage 2) (some (sampleImage 1)) false 0) = some mem ∧
      (bootFrom sampleKeys (⟨Hw.reset mem, .zero⟩ : Machine Hw)).running = some 2 ∧
      (mainSwap (onFlash Hw sampleKeys)
        ((bootFrom sampleKeys (⟨Hw.reset mem, .zero⟩ : Machine Hw)).atReset
          ⟨false, true, false⟩)).1 =
          .committed ∧
      swapTargetVersion sampleKeys
        ((bootFrom sampleKeys (⟨Hw.reset mem, .zero⟩ : Machine Hw)).atReset ⟨false, true, false⟩) =
          1 := by
  obtain ⟨mem, hm, -⟩ := exists_factory (sampleImage 2) (some (sampleImage 1)) false 0
  have hf := factory_of_build hm
  have hj := (hf.jump_slotA_iff (sampleImage 1) rfl).2 (by decide)
  obtain ⟨hc, ht, hrun⟩ := hf.committed_after hj rfl
  refine ⟨mem, hm, hrun.trans ?_, hc, ht.trans ?_⟩
  · rw [header_sampleImage, version_sampleHeader]
  · rw [header_sampleImage, version_sampleHeader]

end DualBank
