import DualBank.Boot.Slots

/-!
# A boot pass as a function

What a pass of `main` does is a function of three things: the record it finds, the
slots, and the shared block.  `pass` computes from them the records that are
written, the slot that is chosen and the record the pass ends with; `main_eq` says
that a pass over any platform that runs on slots is exactly that.
-/

namespace DualBank

open BootConfig

/-- A pass under way: the record in memory, the slots, and the records passed to
`boot_config_save` so far. -/
structure PassState where
  cfg : BootConfig
  slots : Slots
  writes : List BootConfig

def PassState.save (wear : Slots → Slots) (st : PassState) : PassState :=
  { st with slots := wear st.slots, writes := st.writes ++ [st.cfg] }

/-- The record `boot_config_load` returns. -/
def loadedConfig (record : BootConfig) (S : Slots) : BootConfig :=
  if bootConfigValidate record then record else recovered S.a.validVersion S.b.validVersion

/-- The pass up to the swap. -/
def passConfirm (wear : Slots → Slots) (record : BootConfig) (S : Slots) (b : SharedBootBlock) :
    PassState :=
  let st := ⟨confirmConfig b.confirmed (loadedConfig record S), S, []⟩
  if bootConfigValidate record && !b.confirmed then st else st.save wear

/-- The swap, with the save that follows it. -/
def passSwap (wear : Slots → Slots) (otaPending : UInt32) (st : PassState) :
    SwapResult × PassState :=
  let i := st.slots.slot (memoryMapOtherSlot st.cfg.activeSlot)
  if otaPending = 0 then (.notPending, st)
  else if i.verifies = false then (.verifyFailed, st)
  else if bootConfigFirmwareAllowed st.cfg i.version = false then (.rejected, st)
  else
    let cfg := swapConfig st.cfg i.version
    let st' := { st with cfg := cfg }.save wear
    if ((wear st.slots).slot cfg.activeSlot).verifies then (.committed, st'.save wear)
    else
      (.reverted,
        ({ st' with cfg := { cfg with activeSlot := st.cfg.activeSlot } }.save wear).save wear)

/-- The choice of the slot. -/
def passPick (S : Slots) (cfg : BootConfig) : PickResult × BootConfig :=
  let other := memoryMapOtherSlot cfg.activeSlot
  if (S.slot cfg.activeSlot).verifies then
    if cfg.bootAttempts ≥ maxBootAttempts then
      if (S.slot other).verifies then
        (.boot other, { cfg with activeSlot := other, bootAttempts := 1 })
      else (.boot cfg.activeSlot, { cfg with bootAttempts := 0 })
    else (.boot cfg.activeSlot, { cfg with bootAttempts := cfg.bootAttempts + 1 })
  else if (S.slot other).verifies then
    (.boot other, { cfg with activeSlot := other, bootAttempts := 0 })
  else (.bothFailed, cfg)

/-- The outcome of a pass. -/
structure Pass where
  swap : SwapResult
  pick : PickResult
  /-- The record the choice is made from. -/
  cfg : BootConfig
  /-- The record the pass ends with. -/
  final : BootConfig
  /-- The slots the choice is made from. -/
  slots : Slots
  /-- The records passed to `boot_config_save`. -/
  writes : List BootConfig

def pass (wear : Slots → Slots) (record : BootConfig) (S : Slots) (b : SharedBootBlock) : Pass :=
  let r := passSwap wear b.otaPending (passConfirm wear record S b)
  let p := passPick r.2.slots r.2.cfg
  { swap := r.1
    pick := p.1
    cfg := r.2.cfg
    final := p.2
    slots := r.2.slots
    writes := if p.1 = .bothFailed then r.2.writes else r.2.writes ++ [p.2] }

/-- The shared block a pass leaves: valid, with both flags cleared. -/
def consumedBlock (b : SharedBootBlock) : SharedBootBlock := ⟨sharedBlockMagic, 0, 0, b.reserved⟩

/-- The saves of `cfgs`, one after the other. -/
def saveAll {σ : Type} (P : Platform σ) (cfgs : List BootConfig) (s : σ) : σ :=
  cfgs.foldl (fun s cfg ↦ (P.bootConfigSave cfg s).2) s

/-! ## The choice -/

/-- A slot that verifies while the other one fails has a documented identifier, so
the other of the other is the slot itself. -/
theorem otherSlot_otherSlot {S : Slots} {slot : UInt8} (h : (S.slot slot).verifies = true)
    (h' : (S.slot (memoryMapOtherSlot slot)).verifies = false) :
    memoryMapOtherSlot (memoryMapOtherSlot slot) = slot := by
  by_cases ha : slot = slotA
  · rw [ha]; rfl
  · rw [memoryMapOtherSlot_of_ne ha] at h' ⊢
    by_cases hb : slot = slotB
    · rw [hb]; rfl
    · rw [Slots.slot_of_ne hb] at h
      rw [Slots.slot_slotA, h] at h'
      cases h'

section

variable {S : Slots} {cfg : BootConfig}

theorem passPick_of_slotA (h : cfg.activeSlot = slotA) : passPick S cfg =
    if S.a.verifies then
      if cfg.bootAttempts ≥ maxBootAttempts then
        if S.b.verifies then (.boot slotB, { cfg with activeSlot := slotB, bootAttempts := 1 })
        else (.boot slotA, { cfg with bootAttempts := 0 })
      else (.boot slotA, { cfg with bootAttempts := cfg.bootAttempts + 1 })
    else if S.b.verifies then (.boot slotB, { cfg with activeSlot := slotB, bootAttempts := 0 })
    else (.bothFailed, cfg) := by
  unfold passPick
  simp only [h, Slots.slot_slotA, memoryMapOtherSlot_slotA, Slots.slot_slotB]

theorem passPick_of_slotB (h : cfg.activeSlot = slotB) : passPick S cfg =
    if S.b.verifies then
      if cfg.bootAttempts ≥ maxBootAttempts then
        if S.a.verifies then (.boot slotA, { cfg with activeSlot := slotA, bootAttempts := 1 })
        else (.boot slotB, { cfg with bootAttempts := 0 })
      else (.boot slotB, { cfg with bootAttempts := cfg.bootAttempts + 1 })
    else if S.a.verifies then (.boot slotA, { cfg with activeSlot := slotA, bootAttempts := 0 })
    else (.bothFailed, cfg) := by
  unfold passPick
  simp only [h, Slots.slot_slotA, memoryMapOtherSlot_slotB, Slots.slot_slotB]

/-- An undocumented identifier means slot A, and slot A is also its other slot. -/
theorem passPick_of_ne (ha : cfg.activeSlot ≠ slotA) (hb : cfg.activeSlot ≠ slotB) :
    passPick S cfg =
      if S.a.verifies then
        if cfg.bootAttempts ≥ maxBootAttempts then
          (.boot slotA, { cfg with activeSlot := slotA, bootAttempts := 1 })
        else (.boot cfg.activeSlot, { cfg with bootAttempts := cfg.bootAttempts + 1 })
      else (.bothFailed, cfg) := by
  unfold passPick
  simp only [memoryMapOtherSlot_of_ne ha, Slots.slot_of_ne hb, Slots.slot_slotA]
  split_ifs <;> rfl

end

/-- The slot that is chosen verifies. -/
theorem passPick_verifies {S : Slots} {cfg : BootConfig} {slot : UInt8}
    (h : (passPick S cfg).1 = .boot slot) : (S.slot slot).verifies = true := by
  unfold passPick at h
  dsimp only at h
  split_ifs at h with h₁ h₂ h₃ h₃ <;> cases h <;> assumption

/-- The slot that is jumped to verifies on the slots the choice is made from. -/
theorem passPick_jump_verifies (S : Slots) (cfg : BootConfig) {slotAddr : Nat}
    (h : decisionOf (passPick S cfg).1.toUInt8 = .jump slotAddr) :
    (S.image slotAddr).verifies = true := by
  cases hp : (passPick S cfg).1 with
  | boot slot =>
      rw [hp, PickResult.toUInt8] at h
      by_cases h0 : slot = 0
      · rw [h0] at h; cases h
      · rw [decisionOf_of_ne h0] at h
        cases h
        rw [Slots.image_memoryMapSlotAddr]
        exact passPick_verifies hp
  | bothFailed => rw [hp] at h; cases h
  | retriesExceeded => rw [hp] at h; cases h

/-- The record names the slot that is booted. -/
theorem passPick_activeSlot {S : Slots} {cfg : BootConfig} {slot : UInt8}
    (h : (passPick S cfg).1 = .boot slot) :
    (passPick S cfg).2.activeSlot = slot := by
  unfold passPick at h ⊢
  dsimp only at h ⊢
  split_ifs at h ⊢ <;> cases h <;> rfl

/-- A jump goes to the slot that the record names afterwards. -/
theorem passPick_jump_activeSlot {S : Slots} {cfg : BootConfig} {slotAddr : Nat}
    (h : decisionOf (passPick S cfg).1.toUInt8 = .jump slotAddr) :
    memoryMapSlotAddr (passPick S cfg).2.activeSlot = slotAddr ∧
      (passPick S cfg).2.activeSlot ≠ 0 := by
  cases hp : (passPick S cfg).1 with
  | boot slot =>
      rw [passPick_activeSlot hp]
      rw [hp, PickResult.toUInt8] at h
      by_cases h0 : slot = 0
      · rw [h0] at h; cases h
      · rw [decisionOf_of_ne h0] at h
        cases h
        exact ⟨rfl, h0⟩
  | bothFailed => rw [hp] at h; cases h
  | retriesExceeded => rw [hp] at h; cases h

/-- The loop of the choice never runs out of turns. -/
theorem passPick_ne_retriesExceeded (S : Slots) (cfg : BootConfig) :
    (passPick S cfg).1 ≠ .retriesExceeded := by
  unfold passPick
  dsimp only
  split_ifs <;> simp

/-! ## The swap -/

/-- The checks that lead a pending swap to its commit. -/
def SwapCommits (cfg : BootConfig) (S : Slots) (otaPending : UInt32) : Prop :=
  otaPending ≠ 0 ∧ (S.slot (memoryMapOtherSlot cfg.activeSlot)).verifies = true ∧
    bootConfigFirmwareAllowed cfg (S.slot (memoryMapOtherSlot cfg.activeSlot)).version = true

instance (cfg : BootConfig) (S : Slots) (otaPending : UInt32) :
    Decidable (SwapCommits cfg S otaPending) :=
  inferInstanceAs (Decidable (_ ∧ _ ∧ _))

/-- A swap that commits nothing leaves the pass where it was. -/
theorem passSwap_of_not_commits {wear : Slots → Slots} {otaPending : UInt32} {st : PassState}
    (h : ¬SwapCommits st.cfg st.slots otaPending) : (passSwap wear otaPending st).2 = st := by
  unfold SwapCommits at h
  unfold passSwap
  dsimp only
  split_ifs with h₀ h₁ h₂
  · rfl
  · rfl
  · rfl
  all_goals exact absurd ⟨h₀, by simpa using h₁, by simpa using h₂⟩ h

/-- A swap that commits to a slot that survives the save of the commit. -/
theorem passSwap_of_commits {wear : Slots → Slots} {otaPending : UInt32} {st : PassState}
    (h : SwapCommits st.cfg st.slots otaPending)
    (hv : ((wear st.slots).slot (memoryMapOtherSlot st.cfg.activeSlot)).verifies = true) :
    passSwap wear otaPending st =
      let cfg := swapConfig st.cfg (st.slots.slot (memoryMapOtherSlot st.cfg.activeSlot)).version
      (.committed, ({ st with cfg := cfg }.save wear).save wear) := by
  obtain ⟨h₀, h₁, h₂⟩ := h
  unfold passSwap
  simp only [h₀, h₁, h₂, if_false, Bool.true_eq_false]
  exact if_pos hv

@[simp] theorem eraseA_eraseA (S : Slots) : S.eraseA.eraseA = S.eraseA := rfl

/-- A swap that commits costs slot A where saves erase it. -/
theorem passSwap_eraseA_slots (otaPending : UInt32) (st : PassState) :
    (passSwap Slots.eraseA otaPending st).2.slots =
      if SwapCommits st.cfg st.slots otaPending then st.slots.eraseA else st.slots := by
  split_ifs with h
  · obtain ⟨h₀, h₁, h₂⟩ := h
    unfold passSwap
    simp only [h₀, h₁, h₂, if_false, Bool.true_eq_false]
    split_ifs <;> rfl
  · rw [passSwap_of_not_commits h]

/-- The slot a pass jumps to verifies on the slots the choice is made from. -/
theorem pass_jump_verifies {wear : Slots → Slots} {record : BootConfig} {S : Slots}
    {b : SharedBootBlock} {slotAddr : Nat}
    (h : decisionOf (pass wear record S b).pick.toUInt8 = .jump slotAddr) :
    ((pass wear record S b).slots.image slotAddr).verifies = true :=
  passPick_jump_verifies (pass wear record S b).slots (pass wear record S b).cfg h

/-- A swap is committed only after its checks. -/
theorem swapCommits_of_committed {wear : Slots → Slots} {otaPending : UInt32} {st : PassState}
    (h : (passSwap wear otaPending st).1 = .committed) :
    SwapCommits st.cfg st.slots otaPending := by
  unfold passSwap at h
  dsimp only at h
  split_ifs at h with h₀ h₁ h₂ h₃
  exact ⟨h₀, by simpa using h₁, by simpa using h₂⟩

/-! ## What a pass keeps of the record -/

theorem loadedConfig_magic (record : BootConfig) (S : Slots) :
    (loadedConfig record S).magic = bootConfigMagic := by
  unfold loadedConfig
  split_ifs with h
  · exact (bootConfigValidate_iff.1 h).1
  · exact (bootConfigValidate_iff.1 (recovered_validate _ _)).1

theorem passPick_magic (S : Slots) (cfg : BootConfig) : (passPick S cfg).2.magic = cfg.magic := by
  unfold passPick
  dsimp only
  split_ifs <;> rfl

theorem passPick_isSlot (S : Slots) (cfg : BootConfig) (h : IsSlot cfg.activeSlot) :
    IsSlot (passPick S cfg).2.activeSlot := by
  have ho := memoryMapOtherSlot_cases cfg.activeSlot
  unfold passPick
  dsimp only
  split_ifs
  · exact ho
  · exact h
  · exact h
  · exact ho
  · exact h

/-- The choice does not touch what the floor is made of. -/
theorem passPick_floor (S : Slots) (cfg : BootConfig) :
    bootConfigAntidowngradeFloor (passPick S cfg).2 = bootConfigAntidowngradeFloor cfg := by
  unfold passPick
  dsimp only
  split_ifs <;> rfl

/-- Neither does the confirmation. -/
@[simp] theorem confirmConfig_floor (confirmed : Bool) (cfg : BootConfig) :
    bootConfigAntidowngradeFloor (confirmConfig confirmed cfg) =
      bootConfigAntidowngradeFloor cfg := by
  cases confirmed <;> rfl

@[simp] theorem confirmConfig_magic (confirmed : Bool) (cfg : BootConfig) :
    (confirmConfig confirmed cfg).magic = cfg.magic := by
  cases confirmed <;> rfl

theorem passConfirm_cfg (wear : Slots → Slots) (record : BootConfig) (S : Slots)
    (b : SharedBootBlock) :
    (passConfirm wear record S b).cfg = confirmConfig b.confirmed (loadedConfig record S) := by
  unfold passConfirm
  dsimp only
  split_ifs <;> rfl

/-- Without a confirmation, a valid record is taken as it is, and a recovered one is
saved. -/
theorem passConfirm_unconfirmed (wear : Slots → Slots) (record : BootConfig) (S : Slots)
    {b : SharedBootBlock} (hb : b.confirmed = false) :
    passConfirm wear record S b =
      if bootConfigValidate record then ⟨record, S, []⟩
      else PassState.save wear ⟨loadedConfig record S, S, []⟩ := by
  unfold passConfirm
  rw [hb]
  cases hv : bootConfigValidate record <;> simp [confirmConfig, loadedConfig, hv]

theorem passSwap_magic (wear : Slots → Slots) (otaPending : UInt32) (st : PassState) :
    (passSwap wear otaPending st).2.cfg.magic = st.cfg.magic := by
  unfold passSwap
  dsimp only
  split_ifs
  · rfl
  · rfl
  · rfl
  · exact recordOta_magic _ _ _
  · exact recordOta_magic _ _ _

/-- A pass ends with a record that has the magic. -/
theorem pass_final_magic (wear : Slots → Slots) (record : BootConfig) (S : Slots)
    (b : SharedBootBlock) : (pass wear record S b).final.magic = bootConfigMagic := by
  rw [pass]
  dsimp only
  rw [passPick_magic, passSwap_magic, passConfirm_cfg, confirmConfig_magic, loadedConfig_magic]

/-! ## Refinement -/

section

variable {σ : Type} {P : Platform σ} {I : σ → Prop} {slots : σ → Slots} {wear : Slots → Slots}

/-- A pass over the platform, started on the device `s₀`, that is as far as `p`. -/
structure Tracks (P : Platform σ) (I : σ → Prop) (slots : σ → Slots) (s₀ : σ) (st : BootState σ)
    (p : PassState) : Prop where
  cfg : st.cfg = p.cfg
  cfgDirty : st.cfgDirty = false
  dev : st.dev = saveAll P p.writes s₀
  inv : I st.dev
  slots : slots st.dev = p.slots

theorem saveAll_append (P : Platform σ) (cfgs : List BootConfig) (cfg : BootConfig) (s : σ) :
    saveAll P (cfgs ++ [cfg]) s = (P.bootConfigSave cfg (saveAll P cfgs s)).2 := by
  simp [saveAll]

/-- A save of a pass that is as far as `p`. -/
theorem Tracks.save (h : P.OnSlots I slots wear) {s₀ : σ} (st : BootState σ) (p : PassState)
    (ht : Tracks P I slots s₀ st p) (shared : SharedBootBlock) :
    Tracks P I slots s₀ ⟨st.cfg, false, (P.bootConfigSave st.cfg st.dev).2, shared⟩
      (p.save wear) := by
  obtain ⟨hI, hw⟩ := h.save st.cfg st.dev ht.inv
  refine ⟨ht.cfg, rfl, ?_, hI, ?_⟩
  · rw [PassState.save, saveAll_append, ← ht.dev, ← ht.cfg]
  · exact hw.trans (congrArg wear ht.slots)

theorem recoverVersion_eq (h : P.Sees I slots) (slot : UInt8) {s : σ} (hI : I s) :
    recoverVersion P (memoryMapSlotAddr slot) s = (((slots s).slot slot).validVersion, s) := by
  unfold recoverVersion
  rw [h.readHeader slot s hI, h.verify slot s hI]
  dsimp only
  split_ifs with hp hv
  · rw [SlotImage.validVersion_of_verifies hv, SlotImage.version]
  · rw [SlotImage.validVersion_of_not (Bool.eq_false_iff.2 hv)]
  · rw [SlotImage.validVersion_of_not (Bool.eq_false_iff.2 fun hv ↦
      hp (((slots s).slot slot).admissible hv))]

theorem bootConfigLoad_eq (h : P.Sees I slots) {s : σ} (hI : I s) :
    bootConfigLoad P s =
      (bootConfigValidate (P.readConfig s), loadedConfig (P.readConfig s) (slots s), s) := by
  have ha := recoverVersion_eq h slotA hI
  have hb := recoverVersion_eq h slotB hI
  rw [memoryMapSlotAddr_slotA] at ha
  rw [memoryMapSlotAddr_slotB] at hb
  unfold bootConfigLoad bootConfigRecoverFromSlots loadedConfig
  dsimp only
  split_ifs with hv
  · rw [hv]
  · rw [Bool.eq_false_iff.2 hv, ha]
    dsimp only
    rw [hb]
    rfl

variable (h : P.OnSlots I slots wear)
include h

/-- `main` up to the swap. -/
theorem mainConfirm_tracks {m : Machine σ} (hI : I (P.flashInit m.dev)) :
    Tracks P I slots (P.flashInit m.dev) (mainConfirm P m)
        (passConfirm wear (P.readConfig (P.flashInit m.dev)) (slots (P.flashInit m.dev)) m.shared) ∧
      (mainConfirm P m).shared =
        { m.shared with bootConfirmed := 0, magic := sharedBlockMagic } := by
  unfold mainConfirm mainLoad passConfirm
  rw [checkAppConfirmation_eq, bootConfigLoad_eq h.toSees hI]
  unfold saveIfDirty
  dsimp only
  have h₀ : Tracks P I slots (P.flashInit m.dev)
      ⟨confirmConfig m.shared.confirmed
        (loadedConfig (P.readConfig (P.flashInit m.dev)) (slots (P.flashInit m.dev))), false,
        P.flashInit m.dev, { m.shared with bootConfirmed := 0, magic := sharedBlockMagic }⟩
      ⟨confirmConfig m.shared.confirmed
        (loadedConfig (P.readConfig (P.flashInit m.dev)) (slots (P.flashInit m.dev))),
        slots (P.flashInit m.dev), []⟩ := ⟨rfl, rfl, rfl, hI, rfl⟩
  cases hv : bootConfigValidate (P.readConfig (P.flashInit m.dev)) <;>
    cases hc : m.shared.confirmed <;> rw [hc] at h₀
  · exact ⟨Tracks.save h _ _ h₀ _, rfl⟩
  · exact ⟨Tracks.save h _ _ h₀ _, rfl⟩
  · exact ⟨h₀, rfl⟩
  · exact ⟨Tracks.save h _ _ h₀ _, rfl⟩

/-- The exits of the swap.  The header check never fails after a verification. -/
theorem processOtaPendingSwap_eq (st : BootState σ) (hI : I st.dev) :
    processOtaPendingSwap P st =
      let i := (slots st.dev).slot (memoryMapOtherSlot st.cfg.activeSlot)
      let shared := { st.shared with otaPending := 0 }
      if st.shared.otaPending = 0 then (.notPending, st)
      else if i.verifies = false then (.verifyFailed, { st with shared := shared })
      else if bootConfigFirmwareAllowed st.cfg i.version = false then
        (.rejected, { st with shared := shared })
      else
        let cfg := swapConfig st.cfg i.version
        let dev := (P.bootConfigSave cfg st.dev).2
        if ((wear (slots st.dev)).slot cfg.activeSlot).verifies then
          (.committed, ⟨cfg, true, dev, shared⟩)
        else
          let cfg := { cfg with activeSlot := st.cfg.activeSlot }
          (.reverted, ⟨cfg, true, (P.bootConfigSave cfg dev).2, shared⟩) := by
  unfold processOtaPendingSwap
  dsimp only
  rw [h.verify _ _ hI]
  dsimp only
  rw [h.readHeader _ _ hI]
  generalize (slots st.dev).slot (memoryMapOtherSlot st.cfg.activeSlot) = i
  obtain ⟨hI', hw⟩ := h.save (swapConfig st.cfg i.version) st.dev hI
  have hv := h.verify (swapConfig st.cfg i.version).activeSlot _ hI'
  rw [hw] at hv
  rw [← SlotImage.version, hv]
  by_cases hb : i.verifies = true
  · have hmag : i.header.magic = firmwareMagic :=
      (FirmwareHeader.admissible_iff.1 (i.admissible hb)).1
    simp only [hb, hmag, Bool.not_true, Bool.false_eq_true, Bool.true_eq_false, if_false, ne_eq,
      not_true_eq_false, Bool.not_eq_true']
  · simp only [Bool.eq_false_iff.2 hb, Bool.not_false, if_true]

/-- The swap and the save after it. -/
theorem swap_tracks {s₀ : σ} {st : BootState σ} {p : PassState} (ht : Tracks P I slots s₀ st p) :
    (processOtaPendingSwap P st).1 = (passSwap wear st.shared.otaPending p).1 ∧
      Tracks P I slots s₀ (saveIfDirty P (processOtaPendingSwap P st).2)
        (passSwap wear st.shared.otaPending p).2 ∧
      (saveIfDirty P (processOtaPendingSwap P st).2).shared =
        { st.shared with otaPending := 0 } := by
  -- the exits that leave the record alone save nothing
  have hskip : ∀ shared,
      Tracks P I slots s₀ (saveIfDirty P ⟨p.cfg, st.cfgDirty, st.dev, shared⟩) p ∧
      (saveIfDirty P ⟨p.cfg, st.cfgDirty, st.dev, shared⟩).shared = shared := fun shared ↦ by
    simp only [saveIfDirty, ht.cfgDirty, Bool.false_eq_true, if_false, and_true]
    exact ⟨rfl, rfl, ht.dev, ht.inv, ht.slots⟩
  rw [processOtaPendingSwap_eq h st ht.inv]
  unfold passSwap
  dsimp only
  rw [ht.slots, ht.cfg]
  generalize p.slots.slot (memoryMapOtherSlot p.cfg.activeSlot) = i
  split_ifs with h₀ h₁ h₂ h₃
  · have hst : st = ⟨p.cfg, st.cfgDirty, st.dev, st.shared⟩ := by rw [← ht.cfg]
    rw [hst]
    exact ⟨rfl, (hskip _).1, (hskip _).2.trans (SharedBootBlock.ext rfl rfl h₀ rfl)⟩
  · exact ⟨rfl, hskip _⟩
  · exact ⟨rfl, hskip _⟩
  · -- the commit, saved again after the swap
    have ht₁ := Tracks.save h { st with cfg := swapConfig p.cfg i.version }
      { p with cfg := swapConfig p.cfg i.version }
      ⟨rfl, ht.cfgDirty, ht.dev, ht.inv, ht.slots⟩ { st.shared with otaPending := 0 }
    exact ⟨rfl, Tracks.save h _ _ ht₁ _, rfl⟩
  · -- the commit, the revert, and the revert saved again
    have ht₁ := Tracks.save h { st with cfg := swapConfig p.cfg i.version }
      { p with cfg := swapConfig p.cfg i.version }
      ⟨rfl, ht.cfgDirty, ht.dev, ht.inv, ht.slots⟩ { st.shared with otaPending := 0 }
    have ht₂ := Tracks.save h
      ⟨{ swapConfig p.cfg i.version with activeSlot := p.cfg.activeSlot }, false,
        (P.bootConfigSave (swapConfig p.cfg i.version) st.dev).2, st.shared⟩
      { (PassState.save wear { p with cfg := swapConfig p.cfg i.version }) with
        cfg := { swapConfig p.cfg i.version with activeSlot := p.cfg.activeSlot } }
      ⟨rfl, rfl, ht₁.dev, ht₁.inv, ht₁.slots⟩ { st.shared with otaPending := 0 }
    exact ⟨rfl, Tracks.save h _ _ ht₂ _, rfl⟩

/-- The loop ends after two turns at most, with the choice of `passPick`. -/
theorem pickSlotToBoot_eq (st : BootState σ) (hI : I st.dev) (hd : st.cfgDirty = false) :
    pickSlotToBoot P st =
      let p := passPick (slots st.dev) st.cfg
      (p.1, { st with cfg := p.2, cfgDirty := decide (p.1 ≠ .bothFailed) }) := by
  have hv := fun slot ↦ h.verify slot st.dev hI
  unfold pickSlotToBoot maxSwapRetries passPick
  rw [pickLoop]
  dsimp only
  simp only [hv]
  by_cases ha : ((slots st.dev).slot st.cfg.activeSlot).verifies = true
  · simp only [ha, if_true]
    by_cases hn : st.cfg.bootAttempts ≥ maxBootAttempts
    · simp only [hn, if_true]
      rw [pickLoop]
      dsimp only
      simp only [hv]
      by_cases hb : ((slots st.dev).slot (memoryMapOtherSlot st.cfg.activeSlot)).verifies = true
      · -- the second turn takes the other slot
        simp [hb, maxBootAttempts]
      · -- the second turn falls back to the slot it came from
        have hoo := otherSlot_otherSlot ha (Bool.eq_false_iff.2 hb)
        simp [hb, hoo, ha]
    · simp [hn]
  · by_cases hb : ((slots st.dev).slot (memoryMapOtherSlot st.cfg.activeSlot)).verifies = true
    · simp [ha, hb]
    · obtain ⟨cfg, dirty, dev, shared⟩ := st
      cases hd
      simp_all

/-- The choice and the last save. -/
theorem pick_tracks {s₀ : σ} {st : BootState σ} {p : PassState} (ht : Tracks P I slots s₀ st p) :
    let r := pickSlotToBoot P st
    let q := passPick p.slots p.cfg
    r.1 = q.1 ∧ r.2.cfg = q.2 ∧ slots r.2.dev = p.slots ∧
      (saveIfDirty P r.2).dev =
        saveAll P (if q.1 = .bothFailed then p.writes else p.writes ++ [q.2]) s₀ ∧
      (saveIfDirty P r.2).shared = st.shared := by
  rw [pickSlotToBoot_eq h st ht.inv ht.cfgDirty, ht.slots, ht.cfg]
  unfold saveIfDirty
  dsimp only
  refine ⟨rfl, rfl, ht.slots, ?_⟩
  by_cases hb : (passPick p.slots p.cfg).1 = .bothFailed
  · simp only [hb, ne_eq, not_true_eq_false, decide_false, Bool.false_eq_true, if_false, if_true]
    exact ⟨ht.dev, trivial⟩
  · simp only [hb, ne_eq, not_false_eq_true, decide_true, if_true, if_false]
    rw [saveAll_append, ht.dev]
    exact ⟨rfl, trivial⟩

variable {m : Machine σ} (hI : I (P.flashInit m.dev))
include hI

/-- The choice of a pass, before the last save. -/
theorem mainPick_eq :
    let p := pass wear (P.readConfig (P.flashInit m.dev)) (slots (P.flashInit m.dev)) m.shared
    (mainSwap P m).1 = p.swap ∧ (mainPick P m).1 = p.pick ∧ (mainPick P m).2.cfg = p.final ∧
      slots (mainPick P m).2.dev = p.slots := by
  obtain ⟨hc, hcs⟩ := mainConfirm_tracks h hI
  obtain ⟨hs, ht, -⟩ := swap_tracks h hc
  rw [hcs] at hs ht
  obtain ⟨h₁, h₂, h₃, -⟩ := pick_tracks h ht
  exact ⟨hs, h₁, h₂, h₃⟩

/-- A pass of `main` makes the writes and the choice of `pass`. -/
theorem main_eq :
    main P m =
      let p := pass wear (P.readConfig (P.flashInit m.dev)) (slots (P.flashInit m.dev)) m.shared
      (decisionOf p.pick.toUInt8,
        ⟨saveAll P p.writes (P.flashInit m.dev), consumedBlock m.shared⟩) := by
  obtain ⟨hc, hcs⟩ := mainConfirm_tracks h hI
  obtain ⟨-, ht, hss⟩ := swap_tracks h hc
  rw [hcs] at ht hss
  obtain ⟨h₁, -, -, h₄, h₅⟩ := pick_tracks h ht
  have hp : (mainPick P m).1 = (pass wear (P.readConfig (P.flashInit m.dev))
      (slots (P.flashInit m.dev)) m.shared).pick := h₁
  have hdec : (main P m).1 = decisionOf (pass wear (P.readConfig (P.flashInit m.dev))
      (slots (P.flashInit m.dev)) m.shared).pick.toUInt8 := by
    rw [← hp]; rfl
  exact Prod.ext hdec (congrArg₂ Machine.mk h₄ (h₅.trans hss))

end

/-! ## What a pass leaves

On a device that stores its saves, the record after a pass is the one the pass ends
with, and the slots have been worn once for every write. -/

/-- The record in memory is the one on the device: found valid and never written, or
the one written last. -/
def PassState.Settled (record : BootConfig) (st : PassState) : Prop :=
  (st.writes = [] ∧ bootConfigValidate record = true ∧ st.cfg = record) ∨
    ∃ ws, st.writes = ws ++ [st.cfg]

theorem PassState.settled_save (record : BootConfig) (wear : Slots → Slots) (st : PassState) :
    (st.save wear).Settled record := .inr ⟨st.writes, rfl⟩

theorem passConfirm_settled (wear : Slots → Slots) (record : BootConfig) (S : Slots)
    (b : SharedBootBlock) : (passConfirm wear record S b).Settled record := by
  unfold passConfirm
  dsimp only
  split_ifs with h
  · simp only [Bool.and_eq_true, Bool.not_eq_true'] at h
    exact .inl ⟨rfl, h.1, by simp [confirmConfig, loadedConfig, h.1, h.2]⟩
  · exact PassState.settled_save _ _ _

theorem passSwap_settled {record : BootConfig} {st : PassState} (wear : Slots → Slots)
    (otaPending : UInt32) (h : st.Settled record) :
    (passSwap wear otaPending st).2.Settled record := by
  unfold passSwap
  dsimp only
  split_ifs
  · exact h
  · exact h
  · exact h
  · exact PassState.settled_save _ _ _
  · exact PassState.settled_save _ _ _

theorem passPick_bothFailed {S : Slots} {cfg : BootConfig}
    (h : (passPick S cfg).1 = .bothFailed) : (passPick S cfg).2 = cfg := by
  unfold passPick at h ⊢
  dsimp only at h ⊢
  split_ifs at h ⊢
  rfl

theorem pass_settled (wear : Slots → Slots) (record : BootConfig) (S : Slots)
    (b : SharedBootBlock) :
    PassState.Settled record ⟨(pass wear record S b).final, (pass wear record S b).slots,
      (pass wear record S b).writes⟩ := by
  have h := passSwap_settled wear b.otaPending (passConfirm_settled wear record S b)
  unfold pass
  dsimp only
  split_ifs with hp
  · rw [passPick_bothFailed hp]; exact h
  · exact .inr ⟨_, rfl⟩

section

variable {σ : Type} {P : Platform σ} {I : σ → Prop} {slots : σ → Slots} {wear : Slots → Slots}

theorem saveAll_inv (h : ∀ cfg s, I s → I (P.bootConfigSave cfg s).2) {s : σ}
    (hI : I s) (ws : List BootConfig) : I (saveAll P ws s) := by
  induction ws generalizing s with
  | nil => exact hI
  | cons w ws ih => exact ih (h w s hI)

theorem saveAll_slots (h : P.OnSlots I slots wear) {s : σ} (hI : I s) (ws : List BootConfig) :
    slots (saveAll P ws s) = wear^[ws.length] (slots s) := by
  induction ws generalizing s with
  | nil => rfl
  | cons w ws ih =>
      obtain ⟨hI', hw⟩ := h.save w s hI
      rw [List.length_cons, Function.iterate_succ_apply, ← hw]
      exact ih hI'

/-- The record a pass leaves on a device that stores its saves. -/
theorem saveAll_record (h : P.Stores I) {s : σ} (hI : I s) {st : PassState}
    (hst : st.Settled (P.readConfig s)) :
    P.readConfig (saveAll P st.writes s) = bootConfigStampCrc st.cfg := by
  rcases hst with ⟨hw, hv, hc⟩ | ⟨ws, hw⟩
  · rw [hw, hc]
    exact (bootConfigValidate_iff.1 hv).2.symm
  · rw [hw, saveAll_append]
    exact (h st.cfg _ (saveAll_inv (fun cfg s hs ↦ (h cfg s hs).1) hI ws)).2

end

theorem iterate_eraseA (n : Nat) (S : Slots) :
    Slots.eraseA^[n] S = if n = 0 then S else S.eraseA := by
  induction n with
  | zero => rfl
  | succ n ih =>
      rw [Function.iterate_succ_apply', ih, if_neg (Nat.succ_ne_zero n)]
      split_ifs
      · rfl
      · exact eraseA_eraseA S

/-- A pass that boots has written the record. -/
theorem writes_ne_nil {wear : Slots → Slots} {record : BootConfig} {S : Slots}
    {b : SharedBootBlock} (h : (pass wear record S b).pick ≠ .bothFailed) :
    (pass wear record S b).writes ≠ [] := by
  unfold pass at h ⊢
  dsimp only at h ⊢
  rw [if_neg h]
  simp

section OnFlash

open FlashBackend Lib

variable {σ : Type} [FlashBackend σ]

/-- The pass of a flash device. -/
def flashPass (K : KeyStore) (m : Machine σ) : Pass :=
  pass Slots.eraseA (readConfig (flashInit m.dev)) (.ofMem K (byte (flashInit m.dev))) m.shared

/-- The record that a pass ends with is the one its choice leaves. -/
theorem flashPass_final (K : KeyStore) (m : Machine σ) :
    (flashPass K m).final = (passPick (flashPass K m).slots (flashPass K m).cfg).2 := rfl

/-- The choice of a pass over a powered flash device, before the last save. -/
theorem mainPick_onFlash (K : KeyStore) {m : Machine σ} (h : Powered m.dev) :
    (mainSwap (onFlash σ K) m).1 = (flashPass K m).swap ∧
      (mainPick (onFlash σ K) m).1 = (flashPass K m).pick ∧
      (mainPick (onFlash σ K) m).2.cfg = (flashPass K m).final ∧
      Slots.ofMem K (byte (mainPick (onFlash σ K) m).2.dev) = (flashPass K m).slots :=
  mainPick_eq (onFlash_onSlots K) (m := m) (healthy_flashInit h)

/-- The record and the slots a swap starts from. -/
theorem mainConfirm_onFlash (K : KeyStore) {m : Machine σ} (h : Powered m.dev) :
    let c := passConfirm Slots.eraseA (readConfig (flashInit m.dev))
      (.ofMem K (byte (flashInit m.dev))) m.shared
    (mainConfirm (onFlash σ K) m).cfg = c.cfg ∧
      Slots.ofMem K (byte (mainConfirm (onFlash σ K) m).dev) = c.slots := by
  have ht := (mainConfirm_tracks (onFlash_onSlots K) (m := m) (healthy_flashInit h)).1
  exact ⟨ht.cfg, ht.slots⟩

/-- A pass over a powered flash device. -/
theorem main_onFlash (K : KeyStore) {m : Machine σ} (h : Powered m.dev) :
    (main (onFlash σ K) m).1 = decisionOf (flashPass K m).pick.toUInt8 ∧
      (main (onFlash σ K) m).2.shared = consumedBlock m.shared ∧
      Healthy (main (onFlash σ K) m).2.dev ∧
      readConfig (main (onFlash σ K) m).2.dev = bootConfigStampCrc (flashPass K m).final ∧
      Slots.ofMem K (byte (main (onFlash σ K) m).2.dev) =
        if (flashPass K m).writes = [] then .ofMem K (byte (flashInit m.dev))
        else (Slots.ofMem K (byte (flashInit m.dev))).eraseA := by
  have hI : Healthy ((onFlash σ K).flashInit m.dev) := healthy_flashInit h
  have hst := onFlash_stores (σ := σ) K
  have hm : main (onFlash σ K) m = (decisionOf (flashPass K m).pick.toUInt8,
      ⟨saveAll (onFlash σ K) (flashPass K m).writes ((onFlash σ K).flashInit m.dev),
        consumedBlock m.shared⟩) := main_eq (onFlash_onSlots K) (m := m) hI
  have hset : PassState.Settled ((onFlash σ K).readConfig ((onFlash σ K).flashInit m.dev))
      ⟨(flashPass K m).final, (flashPass K m).slots, (flashPass K m).writes⟩ := pass_settled _ _ _ _
  have hrec := saveAll_record hst hI hset
  have hslots := saveAll_slots (onFlash_onSlots K) hI (flashPass K m).writes
  rw [iterate_eraseA] at hslots
  rw [hm]
  generalize flashPass K m = p at hrec hslots ⊢
  refine ⟨rfl, rfl, saveAll_inv (fun cfg s hs ↦ (hst cfg s hs).1) hI _, hrec, hslots.trans ?_⟩
  exact if_congr List.length_eq_zero_iff rfl rfl

end OnFlash

end DualBank
