import DualBank.Boot.Attempts

/-!
# Confirmed boots

Runs in which every application that is booted confirms itself before the next
reset.  A soft reset keeps the confirmation and a power cycle loses it, so the
attempts of a slot that works still add up over power cycles.
-/

namespace DualBank

open Lib BootConfig

/-- How the next pass comes about. -/
inductive Reset where
  /-- The shared block is kept, with the confirmation of the application. -/
  | soft
  /-- The shared block is lost, and comes up as the given one. -/
  | powerCycle (b : SharedBootBlock)

/-- The shared block the next pass finds. -/
def Reset.shared : Reset → SharedBootBlock → SharedBootBlock
  | .soft, b => bootloaderConfirmBoot b
  | .powerCycle b, _ => b

/-- A pass of a run: the reset before it, and the slots it finds. -/
structure NextBoot where
  reset : Reset
  slots : Slots

section

variable {σ : Type} {P : Platform σ} {I : σ → Prop}

def nextBoot (P : Platform σ) (m : Machine σ) (l : NextBoot) : Decision × Machine σ :=
  main (P.withSlots l.slots) ⟨m.dev, l.reset.shared m.shared⟩

/-- The machine after the pass. -/
def nextMachine (P : Platform σ) (m : Machine σ) (l : NextBoot) : Machine σ := (nextBoot P m l).2

/-- The active slot of the record that is loaded verifies. -/
def ActiveVerifies (record : BootConfig) (S : Slots) : Prop :=
  (S.slot (loadedConfig record S).activeSlot).verifies = true

/-- The choice stays with the active slot: no swap is committed, and the attempts are
not used up where the other slot verifies. -/
def StaysPut (cfg : BootConfig) (S : Slots) (otaPending : UInt32) : Prop :=
  IsSlot cfg.activeSlot → ¬SwapCommits cfg S otaPending ∧
    (cfg.bootAttempts ≥ maxBootAttempts →
      (S.slot (memoryMapOtherSlot cfg.activeSlot)).verifies = false)

/-- After a power cycle the choice stays with the active slot. -/
def KeepsSlot (P : Platform σ) (m : Machine σ) (l : NextBoot) : Prop :=
  match l.reset with
  | .soft => True
  | .powerCycle b => StaysPut (startConfig (P.readConfig m.dev) l.slots b) l.slots b.otaPending

/-- An active slot with attempts left is booted. -/
theorem passPick_direct {S : Slots} {cfg : BootConfig}
    (hv : (S.slot cfg.activeSlot).verifies = true) (hn : ¬cfg.bootAttempts ≥ maxBootAttempts) :
    (passPick S cfg).1 = .boot cfg.activeSlot := by
  unfold passPick
  dsimp only
  rw [if_pos hv, if_neg hn]

/-- When a pass boots the active slot, if that verifies. -/
theorem fixedChoice_stay_iff {record : BootConfig} {S : Slots} {b : SharedBootBlock}
    (h0 : (loadedConfig record S).activeSlot ≠ 0) (hv : ActiveVerifies record S) :
    decisionOf (fixedChoice record S b).1.toUInt8 =
        .jump (memoryMapSlotAddr (loadedConfig record S).activeSlot) ↔
      StaysPut (startConfig record S b) S b.otaPending := by
  have hact : (startConfig record S b).activeSlot = (loadedConfig record S).activeSlot :=
    confirmConfig_activeSlot _ _
  have hne := memoryMapOtherSlot_ne (loadedConfig record S).activeSlot
  have ho := memoryMapOtherSlot_cases (loadedConfig record S).activeSlot
  unfold ActiveVerifies at hv
  unfold StaysPut fixedChoice
  rw [hact]
  by_cases hs : SwapCommits (startConfig record S b) S b.otaPending
  · -- the swap goes to the other slot
    obtain ⟨ha, hb⟩ := choiceConfig_of_commits hs
    have hdir : (passPick S (choiceConfig record S b)).1 =
        .boot (memoryMapOtherSlot (loadedConfig record S).activeSlot) := by
      rw [← ha]
      refine passPick_direct ?_ (by rw [hb]; decide)
      rw [ha, ← hact]
      exact hs.2.1
    rw [hdir, PickResult.toUInt8]
    by_cases hn : IsSlot (loadedConfig record S).activeSlot
    · rw [decisionOf_eq_jump_iff hn ho]
      simp [hne, hn, hs]
    · obtain ⟨hna, hnb⟩ := not_or.1 hn
      rw [memoryMapOtherSlot_of_ne hna, memoryMapSlotAddr_of_ne hnb]
      simp [hn]
  · rw [choiceConfig_of_not_commits hs]
    by_cases hn : IsSlot (loadedConfig record S).activeSlot
    · unfold passPick
      dsimp only
      rw [hact, if_pos hv]
      split_ifs with h₁ h₂
      · simp [PickResult.toUInt8, decisionOf_eq_jump_iff hn ho, hne, hn, hs, h₁, h₂]
      · simp [PickResult.toUInt8, decisionOf_eq_jump_iff hn hn, hn, hs, h₁, h₂]
      · simp [PickResult.toUInt8, decisionOf_eq_jump_iff hn hn, hn, hs, h₁]
    · obtain ⟨hna, hnb⟩ := not_or.1 hn
      rw [Slots.slot_of_ne hnb] at hv
      rw [passPick_of_ne (by rw [hact]; exact hna) (by rw [hact]; exact hnb), if_pos hv, hact,
        memoryMapSlotAddr_of_ne hnb]
      split_ifs with h₁
      · simp [PickResult.toUInt8, hn]
      · simp [PickResult.toUInt8, hn, decisionOf_of_ne h0, memoryMapSlotAddr_of_ne hnb]

/-- A confirmed boot that is followed by a soft reset stays put. -/
theorem staysPut_confirmBoot {record : BootConfig} {S : Slots} {b : SharedBootBlock}
    (hp : b.otaPending = 0) :
    StaysPut (startConfig record S (bootloaderConfirmBoot b)) S
      (bootloaderConfirmBoot b).otaPending := by
  intro _
  refine ⟨fun h ↦ h.1 hp, fun h ↦ ?_⟩
  have h0 : (startConfig record S (bootloaderConfirmBoot b)).bootAttempts = 0 := by
    rw [startConfig, SharedBootBlock.confirmed_confirmBoot]; rfl
  rw [h0] at h
  exact absurd h (by decide)

/-! ## Runs -/

/-- The machine is between two boots of the slot at `slotAddr`. -/
structure Between (P : Platform σ) (I : σ → Prop) (slotAddr : Nat) (m : Machine σ) : Prop where
  inv : I m.dev
  valid : bootConfigValidate (P.readConfig m.dev) = true
  active : memoryMapSlotAddr (P.readConfig m.dev).activeSlot = slotAddr
  ne_zero : (P.readConfig m.dev).activeSlot ≠ 0
  noSwap : m.shared.otaPending = 0

/-- A pass that jumps to a slot leaves the machine between two boots of it. -/
theorem Between.of_main (hP : P.Durable I) {m : Machine σ} (hm : I m.dev) {S : Slots}
    {slotAddr : Nat} (hj : (main (P.withSlots S) m).1 = .jump slotAddr) :
    Between P I slotAddr (main (P.withSlots S) m).2 := by
  obtain ⟨hd, hsh, -⟩ := main_withSlots P S m
  obtain ⟨hI, hr⟩ := hP.main_withSlots S hm
  rw [hd, hP.flashInit_eq _ hm] at hj
  obtain ⟨h₁, h₂⟩ := passPick_jump_activeSlot hj
  refine ⟨hI, ?_, ?_, ?_, by rw [hsh]; rfl⟩
  · rw [hr, bootConfigValidate_stampCrc, fixedChoice_magic]; rfl
  · rw [hr, activeSlot_stampCrc, fixedChoice]
    exact h₁
  · rw [hr, activeSlot_stampCrc, fixedChoice]
    exact h₂

/-- The next pass jumps to the same slot exactly when it keeps the slot. -/
theorem Between.jump_iff (hP : P.Durable I) {slotAddr : Nat} {m : Machine σ}
    (h : Between P I slotAddr m) {l : NextBoot} (hv : ActiveVerifies (P.readConfig m.dev) l.slots) :
    (nextBoot P m l).1 = .jump slotAddr ↔ KeepsSlot P m l := by
  have hload := loadedConfig_of_valid h.valid l.slots
  have h0 : (loadedConfig (P.readConfig m.dev) l.slots).activeSlot ≠ 0 := by
    rw [hload]; exact h.ne_zero
  have hstay := fixedChoice_stay_iff (b := l.reset.shared m.shared) h0 hv
  rw [nextBoot, (main_withSlots P l.slots _).1]
  dsimp only
  rw [hP.flashInit_eq _ h.inv, ← h.active]
  rw [hload] at hstay
  rw [hstay, KeepsSlot]
  cases hr : l.reset with
  | soft => exact iff_true_intro (staysPut_confirmBoot h.noSwap)
  | powerCycle b => exact Iff.rfl

/-- **A confirmed slot keeps being booted.**  In a run whose active slot verifies in
every pass and whose applications all confirm, every pass jumps to the same slot
exactly when the first one finds a slot at all and every pass after a power cycle
keeps the active slot. -/
theorem same_slot_iff (hP : P.Durable I) {m : Machine σ} (hm : I m.dev) (S : Slots)
    (hS : ActiveVerifies (P.readConfig m.dev) S) (ls : List NextBoot)
    (hls : Along (nextMachine P) (fun m l ↦ ActiveVerifies (P.readConfig m.dev) l.slots)
      (main (P.withSlots S) m).2 ls) :
    (∃ slotAddr, (main (P.withSlots S) m).1 = .jump slotAddr ∧
      Along (nextMachine P) (fun m l ↦ (nextBoot P m l).1 = .jump slotAddr)
        (main (P.withSlots S) m).2 ls) ↔
    FindsSlot (P.readConfig m.dev) S m.shared ∧
      Along (nextMachine P) (KeepsSlot P) (main (P.withSlots S) m).2 ls := by
  -- under the invariant the two conditions on a step agree
  have hrun : ∀ slotAddr, (main (P.withSlots S) m).1 = .jump slotAddr →
      (Along (nextMachine P) (fun m l ↦ (nextBoot P m l).1 = .jump slotAddr)
          (main (P.withSlots S) m).2 ls ↔
        Along (nextMachine P) (KeepsSlot P) (main (P.withSlots S) m).2 ls) := fun slotAddr hj ↦ by
    have := @along_iff_of_inv _ _ (nextMachine P) (I := Between P I slotAddr)
      (C := fun m l ↦ ActiveVerifies (P.readConfig m.dev) l.slots ∧
        (nextBoot P m l).1 = .jump slotAddr)
      (G := fun m l ↦ ActiveVerifies (P.readConfig m.dev) l.slots ∧ KeepsSlot P m l)
      (fun m l hI ↦ and_congr_right fun hv ↦ hI.jump_iff hP hv)
      (fun m l hI hc ↦ Between.of_main hP (m := ⟨m.dev, l.reset.shared m.shared⟩) hI.inv hc.2)
      _ ls (Between.of_main hP hm hj)
    rw [along_and, along_and, and_iff_right hls, and_iff_right hls] at this
    exact this
  have hone : S.a.verifies = true ∨ S.b.verifies = true := by
    unfold ActiveVerifies at hS
    by_cases hb : (loadedConfig (P.readConfig m.dev) S).activeSlot = slotB
    · rw [hb] at hS; exact .inr hS
    · rw [Slots.slot_of_ne hb] at hS; exact .inl hS
  have hd := (main_withSlots P S m).1
  rw [hP.flashInit_eq _ hm] at hd
  rw [← fixedChoice_recovery_iff, ← hd]
  constructor
  · rintro ⟨slotAddr, hj, hr⟩
    refine ⟨fun hrec ↦ ?_, (hrun slotAddr hj).1 hr⟩
    rw [hj] at hrec
    cases hrec
  · rintro ⟨hf, hr⟩
    cases hdec : (main (P.withSlots S) m).1 with
    | jump slotAddr => exact ⟨slotAddr, rfl, (hrun slotAddr hdec).2 hr⟩
    | halted => rw [hd] at hdec; exact absurd hdec (decisionOf_ne_halted _)
    | recovery =>
        obtain ⟨ha, hb⟩ := hf hdec
        rw [ha, hb] at hone
        simp at hone

end

/-- A power cycle is a pass in which nothing is confirmed or pending. -/
theorem nextBoot_powerCycle {σ : Type} (P : Platform σ) (m : Machine σ) (l : Boot) :
    (nextBoot P m ⟨.powerCycle l.shared, l.slots⟩).1 = (bootOn P m.dev l).1 ∧
      (nextMachine P m ⟨.powerCycle l.shared, l.slots⟩).dev = (bootOn P m.dev l).2 := by
  simp only [nextMachine, nextBoot, bootOn, Reset.shared, and_self]

theorem keepsSlot_powerCycle {σ : Type} (P : Platform σ) (m : Machine σ) (l : Boot) :
    KeepsSlot P m ⟨.powerCycle l.shared, l.slots⟩ ↔
      StaysPut (bootConfigOn P m.dev l) l.slots 0 := by
  simp only [KeepsSlot, startConfig, l.unconfirmed, l.noSwap, bootConfigOn, confirmConfig,
    Bool.false_eq_true, if_false]

/-- Repeated power cycles are the passes of `bootRun`. -/
theorem foldl_powerCycle {σ : Type} (P : Platform σ) (m : Machine σ) (ls : List Boot) :
    ((ls.map fun l ↦ (⟨.powerCycle l.shared, l.slots⟩ : NextBoot)).foldl (nextMachine P) m).dev =
      bootRun P m.dev ls := by
  induction ls generalizing m with
  | nil => rfl
  | cons l ls ih =>
      rw [List.map_cons, List.foldl_cons, ih, (nextBoot_powerCycle P m l).2, bootRun, bootRun,
        List.foldl_cons]

/-- Signed images in both slots verify whatever the record names. -/
theorem activeVerifies_bothBoot (record : BootConfig) :
    ActiveVerifies record bothBoot.slots := by
  unfold ActiveVerifies Slots.slot
  split_ifs <;> rfl

theorem main_boot_dev {σ : Type} (P : Platform σ) (s : σ) (l : Boot) :
    (main (P.withSlots l.slots) ⟨s, l.shared⟩).2.dev = (bootOn P s l).2 := by
  simp only [bootOn]

/-- A power cycle with signed images in both slots. -/
def bothCycle : NextBoot := ⟨.powerCycle bothBoot.shared, bothBoot.slots⟩

/-- From the factory record a power cycle after the first boot keeps the slot. -/
theorem same_slot_factory : ∃ slotAddr,
    (main ((onFlash Hw sampleKeys).withSlots bothBoot.slots)
        ⟨recordDevice (provisionedConfig slotA 0), bothBoot.shared⟩).1 = .jump slotAddr ∧
      Along (nextMachine (onFlash Hw sampleKeys))
        (fun m l ↦ (nextBoot (onFlash Hw sampleKeys) m l).1 = .jump slotAddr)
        (main ((onFlash Hw sampleKeys).withSlots bothBoot.slots)
          ⟨recordDevice (provisionedConfig slotA 0), bothBoot.shared⟩).2
        [bothCycle, ⟨.soft, bothBoot.slots⟩] := by
  have hs : FlashBackend.Healthy (recordDevice (provisionedConfig slotA 0)) := Hw.healthy_reset _
  have hv := provisionedConfig_validate slotA 0
  have hr : (onFlash Hw sampleKeys).readConfig (recordDevice (provisionedConfig slotA 0)) =
      provisionedConfig slotA 0 := readConfig_recordDevice _
  refine (same_slot_iff (onFlash_durable sampleKeys)
    (m := ⟨recordDevice (provisionedConfig slotA 0), bothBoot.shared⟩) hs bothBoot.slots
    (activeVerifies_bothBoot _) _ ?_).2 ⟨?_, ?_, ?_, trivial⟩
  · exact ⟨activeVerifies_bothBoot _, activeVerifies_bothBoot _, trivial⟩
  · dsimp only
    rw [hr]
    exact .inr (.inl (.inl rfl))
  · -- one attempt is left behind by the first boot
    have hnext := (bootOn_spec (onFlash_durable sampleKeys) hs bothBoot).2.2 bothBoot
    rw [bootConfigOn_recordDevice hv] at hnext
    refine (keepsSlot_powerCycle _ _ bothBoot).2 ?_
    rw [main_boot_dev, hnext]
    exact fun _ ↦ ⟨fun h ↦ h.1 rfl, fun h ↦ absurd h (by decide)⟩
  · exact trivial

/-- From the factory record three power cycles without a failed boot switch the slot. -/
theorem power_cycles_switch :
    (∀ record, ActiveVerifies record bothBoot.slots) ∧
      (nextBoot (onFlash Hw sampleKeys)
        ⟨recordDevice (provisionedConfig slotA 0), bothBoot.shared⟩ bothCycle).1 =
          .jump slotAAddr ∧
      (nextBoot (onFlash Hw sampleKeys)
        ([bothCycle, bothCycle, bothCycle].foldl (nextMachine (onFlash Hw sampleKeys))
          ⟨recordDevice (provisionedConfig slotA 0), bothBoot.shared⟩) bothCycle).1 =
          .jump slotBAddr := by
  have hs : FlashBackend.Healthy (recordDevice (provisionedConfig slotA 0)) := Hw.healthy_reset _
  have hcfg := bootConfigOn_recordDevice (provisionedConfig_validate slotA 0)
  have d := bootOn_bootRun (onFlash_durable sampleKeys) hs hcfg
  have hf := foldl_powerCycle (onFlash Hw sampleKeys)
    ⟨recordDevice (provisionedConfig slotA 0), bothBoot.shared⟩ [bothBoot, bothBoot, bothBoot]
  refine ⟨activeVerifies_bothBoot, ?_, ?_⟩
  · rw [bothCycle, (nextBoot_powerCycle _ _ bothBoot).1]
    refine (d [] bothBoot).trans ?_
    decide
  · rw [List.map_cons, List.map_cons, List.map_cons, List.map_nil] at hf
    rw [bothCycle, (nextBoot_powerCycle _ _ bothBoot).1, hf, d]
    decide

end DualBank
