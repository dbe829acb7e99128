import DualBank.Boot.Pass
import DualBank.Tools.FlashLayout

/-!
# Cold boots

A shared block whose magic does not match carries no information.  The confirmation
check respects that, but it restores the magic, and the swap after it acts on the
pending flag of the block whatever the magic was.  So what a block without magic
contains shows exactly when a swap from it would be committed.
-/

namespace DualBank

open Lib BootConfig FlashBackend

/-- The block of a cold boot: its magic does not match. -/
def SharedBootBlock.Cold (b : SharedBootBlock) : Prop := b.magic ≠ sharedBlockMagic

instance (b : SharedBootBlock) : Decidable b.Cold := inferInstanceAs (Decidable (_ ≠ _))

section

variable {σ : Type} {P : Platform σ} {I : σ → Prop} {slots : σ → Slots} {wear : Slots → Slots}

/-- What a pass shows: its decision, and the records it writes in order. -/
def outcome (P : Platform σ) (s : σ) (b : SharedBootBlock) : Decision × List BootConfig :=
  let r := main P.logged ⟨(s, []), b⟩
  (r.1, r.2.dev.2)

theorem saveAll_logged (P : Platform σ) (cfgs : List BootConfig) (s : σ) (log : List BootConfig) :
    (saveAll P.logged cfgs (s, log)).2 = log ++ cfgs.map bootConfigStampCrc := by
  induction cfgs generalizing s log with
  | nil => simp [saveAll]
  | cons cfg cfgs ih =>
      have := ih (P.bootConfigSave cfg s).2 (log ++ [bootConfigStampCrc cfg])
      rw [List.append_assoc] at this
      exact this

/-- The outcome of a pass over a platform that runs on slots. -/
theorem outcome_eq (h : P.OnSlots I slots wear) {s : σ} (hI : I (P.flashInit s))
    (b : SharedBootBlock) :
    outcome P s b =
      let p := pass wear (P.readConfig (P.flashInit s)) (slots (P.flashInit s)) b
      (decisionOf p.pick.toUInt8, p.writes.map bootConfigStampCrc) := by
  have hm := main_eq h.logged (m := ⟨(s, []), b⟩) hI
  rw [outcome, hm]
  dsimp only
  exact Prod.ext rfl (saveAll_logged P _ (P.flashInit s) [])

/-- A swap that commits writes two records at least. -/
theorem passSwap_writes_of_commits (wear : Slots → Slots) {otaPending : UInt32} {st : PassState}
    (h : SwapCommits st.cfg st.slots otaPending) :
    st.writes.length + 2 ≤ (passSwap wear otaPending st).2.writes.length := by
  obtain ⟨h₀, h₁, h₂⟩ := h
  unfold passSwap
  simp only [h₀, h₁, h₂, if_false, Bool.true_eq_false]
  split_ifs <;> simp [PassState.save]

theorem pass_writes_length (wear : Slots → Slots) (record : BootConfig) (S : Slots)
    (b : SharedBootBlock) :
    let n := (passSwap wear b.otaPending (passConfirm wear record S b)).2.writes.length
    (pass wear record S b).writes.length = n ∨ (pass wear record S b).writes.length = n + 1 := by
  unfold pass
  dsimp only
  split_ifs
  · exact .inl rfl
  · exact .inr (by simp)

/-- The pass of a cold boot up to the swap. -/
theorem passConfirm_cold {b : SharedBootBlock} (hb : b.Cold) (record : BootConfig) (S : Slots) :
    passConfirm wear record S b =
      if bootConfigValidate record then ⟨record, S, []⟩
      else PassState.save wear ⟨loadedConfig record S, S, []⟩ :=
  passConfirm_unconfirmed wear record S (SharedBootBlock.confirmed_of_magic_ne hb)

/-- The slots a cold boot finds when it looks for a pending swap. -/
def coldSlots (wear : Slots → Slots) (record : BootConfig) (S : Slots) : Slots :=
  if bootConfigValidate record then S else wear S

/-- A pending flag that came up by chance would swap the slots. -/
def GarbageSwaps (wear : Slots → Slots) (record : BootConfig) (S : Slots) : Prop :=
  SwapCommits (loadedConfig record S) (coldSlots wear record S) 1

theorem swapCommits_cold_iff {b : SharedBootBlock} (hb : b.Cold) (record : BootConfig)
    (S : Slots) (otaPending : UInt32) :
    SwapCommits (passConfirm wear record S b).cfg (passConfirm wear record S b).slots
        otaPending ↔ otaPending ≠ 0 ∧ GarbageSwaps wear record S := by
  rw [passConfirm_cold hb, GarbageSwaps, coldSlots]
  have key : ∀ cfg S', SwapCommits cfg S' otaPending ↔ otaPending ≠ 0 ∧ SwapCommits cfg S' 1 :=
    fun cfg S' ↦ by simp [SwapCommits]
  rw [key]
  split_ifs with hv
  · simp only [loadedConfig, hv, if_true]
  · rfl

/-- Where no garbage swaps, every cold boot is the pass of the zero block. -/
theorem pass_cold {record : BootConfig} {S : Slots} (h : ¬GarbageSwaps wear record S)
    {b : SharedBootBlock} (hb : b.Cold) :
    (pass wear record S b).pick = (pass wear record S .zero).pick ∧
      (pass wear record S b).writes = (pass wear record S .zero).writes := by
  have key : ∀ {b : SharedBootBlock}, b.Cold →
      (passSwap wear b.otaPending (passConfirm wear record S b)).2 =
        passConfirm wear record S .zero := fun {b} hb ↦ by
    rw [passSwap_of_not_commits fun hs ↦ h ((swapCommits_cold_iff hb record S _).1 hs).2,
      passConfirm_cold hb, passConfirm_cold (by decide)]
  unfold pass
  dsimp only
  rw [key hb, key (b := .zero) (by decide)]
  exact ⟨rfl, rfl⟩

end

/-- **Cold boots.**  Over either flash backend, all shared blocks without magic lead to
the same writes and the same decision exactly when a pending flag that came up by
chance would not swap the slots. -/
theorem cold_boot_iff {σ : Type} [FlashBackend σ] (K : KeyStore) (s : σ) (h : Powered s) :
    (∀ b₁ b₂ : SharedBootBlock, b₁.Cold → b₂.Cold →
      outcome (onFlash σ K) s b₁ = outcome (onFlash σ K) s b₂) ↔
    ¬GarbageSwaps Slots.eraseA (readConfig (flashInit s)) (.ofMem K (byte (flashInit s))) := by
  have hout := outcome_eq (onFlash_onSlots K) (s := s) (healthy_flashInit h)
  rw [flashInit_onFlash, readConfig_onFlash] at hout
  generalize readConfig (flashInit s) = record at hout ⊢
  generalize Slots.ofMem K (byte (flashInit s)) = S at hout ⊢
  constructor
  · intro heq hg
    -- the number of writes tells a pending flag from none
    have hw := congrArg (fun o ↦ o.2.length) (heq .zero ⟨0, 0, 1, 0⟩ (by decide) (by decide))
    rw [hout, hout] at hw
    simp only [List.length_map] at hw
    have h₀ := pass_writes_length Slots.eraseA record S .zero
    have h₁ := pass_writes_length Slots.eraseA record S ⟨0, 0, 1, 0⟩
    have hs := passSwap_writes_of_commits Slots.eraseA
      ((swapCommits_cold_iff (b := ⟨0, 0, 1, 0⟩) (by decide) record S 1).2 ⟨by decide, hg⟩)
    have hz : (passSwap Slots.eraseA SharedBootBlock.zero.otaPending
        (passConfirm Slots.eraseA record S .zero)).2 = passConfirm Slots.eraseA record S .zero :=
      passSwap_of_not_commits fun hc ↦ hc.1 rfl
    dsimp only at h₀ h₁
    rw [hz, passConfirm_cold (by decide)] at h₀
    rw [passConfirm_cold (by decide)] at h₁ hs
    omega
  · intro hg b₁ b₂ h₁ h₂
    rw [hout, hout]
    dsimp only
    rw [(pass_cold hg h₁).1, (pass_cold hg h₁).2, (pass_cold hg h₂).1, (pass_cold hg h₂).2]

/-- The factory image without a slot B boots the same from every cold block. -/
theorem cold_boot_factory : ∃ mem,
    build (factoryArgs (sampleImage 1) none false 0) = some mem ∧
      ∀ b₁ b₂ : SharedBootBlock, b₁.Cold → b₂.Cold →
        outcome (onFlash Hw sampleKeys) (.reset mem) b₁ =
          outcome (onFlash Hw sampleKeys) (.reset mem) b₂ := by
  obtain ⟨mem, hm, hr, hs⟩ := exists_factory (sampleImage 1) none false 0
  refine ⟨mem, hm, (cold_boot_iff sampleKeys (Hw.reset mem) (Hw.healthy_reset mem)).2 ?_⟩
  change ¬GarbageSwaps Slots.eraseA (.ofMem mem) (.ofMem sampleKeys mem)
  rw [hr, hs, GarbageSwaps, coldSlots, loadedConfig, provisionedConfig_validate, if_pos rfl,
    if_pos rfl]
  exact fun h ↦ absurd h.2.1 (by decide)

/-- On the factory image of two slots, a block of which only the pending word came up
set makes the pass boot slot B, and the zero block slot A. -/
theorem cold_boot_garbage : ∃ mem,
    build (factoryArgs (sampleImage 1) (some (sampleImage 1)) false 0) = some mem ∧
      (outcome (onFlash Hw sampleKeys) (.reset mem) ⟨0, 0, 0, 0⟩).1 = .jump slotAAddr ∧
      (outcome (onFlash Hw sampleKeys) (.reset mem) ⟨0, 0, 1, 0⟩).1 = .jump slotBAddr := by
  obtain ⟨mem, hm, hr, hs⟩ := exists_factory (sampleImage 1) (some (sampleImage 1)) false 0
  have hout : ∀ b, outcome (onFlash Hw sampleKeys) (Hw.reset mem) b = _ :=
    outcome_eq (onFlash_onSlots sampleKeys) (s := Hw.reset mem) (Hw.healthy_reset mem)
  have hr' : (onFlash Hw sampleKeys).readConfig ((onFlash Hw sampleKeys).flashInit (.reset mem)) =
      provisionedConfig slotA 0 := hr
  have hs' : Slots.ofMem sampleKeys (byte ((onFlash Hw sampleKeys).flashInit (.reset mem))) =
      ⟨.ofSigned (sampleImage 1), .ofSigned (sampleImage 1)⟩ := hs
  rw [hr', hs'] at hout
  have hconf : ∀ b : SharedBootBlock, b.Cold →
      passConfirm Slots.eraseA (provisionedConfig slotA 0)
        ⟨.ofSigned (sampleImage 1), .ofSigned (sampleImage 1)⟩ b =
      ⟨provisionedConfig slotA 0, ⟨.ofSigned (sampleImage 1), .ofSigned (sampleImage 1)⟩, []⟩ :=
    fun b hb ↦ by rw [passConfirm_cold hb, provisionedConfig_validate, if_pos rfl]
  refine ⟨mem, hm, ?_, ?_⟩
  · rw [hout, pass]
    dsimp only
    rw [hconf ⟨0, 0, 0, 0⟩ (by decide), passSwap_of_not_commits fun h ↦ h.1 rfl]
    decide
  · have hsw : SwapCommits (provisionedConfig slotA 0)
        ⟨.ofSigned (sampleImage 1), .ofSigned (sampleImage 1)⟩ 1 := by
      refine ⟨by decide, rfl, bootConfigFirmwareAllowed_iff.2 ?_⟩
      rw [provisionedConfig_floor]
      exact Nat.zero_le _
    rw [hout, pass]
    dsimp only
    rw [hconf ⟨0, 0, 1, 0⟩ (by decide), passSwap_of_commits hsw rfl]
    decide

end DualBank
