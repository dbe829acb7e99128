import DualBank.Boot.FixedSlots
import DualBank.Lib.Run

/-!
# Boot attempts

`boot_attempts` over runs of passes.  A pass leaves one attempt more, or one attempt
after a switch, or none after a fallback; from this follow when three boots of one
slot lead to the other one (`three_strikes_iff`), and when a confirmed slot keeps
being booted (`same_slot_iff`).
-/

namespace DualBank

open Lib BootConfig

theorem ge_maxBootAttempts_iff {n : UInt8} : n ≥ maxBootAttempts ↔ 3 ≤ n.toNat := by
  rw [ge_iff_le, UInt8.le_iff_toNat_le]; rfl

theorem toNat_succ_of_lt {n : UInt8} (h : ¬n ≥ maxBootAttempts) : (n + 1).toNat = n.toNat + 1 := by
  rw [ge_maxBootAttempts_iff] at h
  rw [UInt8.toNat_add, UInt8.toNat_one]
  omega

/-- A jump that a slot identifier leads to. -/
theorem decisionOf_eq_jump_iff {x y : UInt8} (hx : IsSlot x) (hy : IsSlot y) :
    decisionOf y = .jump (memoryMapSlotAddr x) ↔ y = x := by
  rcases hx with rfl | rfl <;> rcases hy with rfl | rfl <;> decide

section

variable {S : Slots} {cfg : BootConfig}

/-- The choice leaves the slot it started from, by a fallback to the other slot or
back from it. -/
def FallsBack (cfg : BootConfig) (S : Slots) : Prop :=
  (S.slot cfg.activeSlot).verifies = false ∨
    cfg.bootAttempts ≥ maxBootAttempts ∧
      (S.slot (memoryMapOtherSlot cfg.activeSlot)).verifies = false

instance (cfg : BootConfig) (S : Slots) : Decidable (FallsBack cfg S) :=
  inferInstanceAs (Decidable (_ ∨ _ ∧ _))

/-- What a jump to `x` leaves of a record that names a slot: after a fallback no
attempts, else one at least, and one more than before if the slot was active. -/
theorem passPick_attempts {x : UInt8} (hx : IsSlot x) (hcfg : IsSlot cfg.activeSlot)
    (hj : decisionOf (passPick S cfg).1.toUInt8 = .jump (memoryMapSlotAddr x)) :
    (passPick S cfg).2.activeSlot = x ∧
      (FallsBack cfg S → (passPick S cfg).2.bootAttempts.toNat = 0) ∧
      (¬FallsBack cfg S → 1 ≤ (passPick S cfg).2.bootAttempts.toNat) ∧
      (cfg.activeSlot = x → ¬FallsBack cfg S → cfg.bootAttempts.toNat < 3 ∧
        (passPick S cfg).2.bootAttempts.toNat = cfg.bootAttempts.toNat + 1) := by
  have hother := memoryMapOtherSlot_cases cfg.activeSlot
  have hne := memoryMapOtherSlot_ne cfg.activeSlot
  unfold FallsBack
  unfold passPick at hj ⊢
  dsimp only at hj ⊢
  split_ifs at hj ⊢ with h₁ h₂ h₃ h₃
  · rw [PickResult.toUInt8, decisionOf_eq_jump_iff hx hother] at hj
    subst hj
    simp [h₁, h₃, hne.symm]
  · rw [PickResult.toUInt8, decisionOf_eq_jump_iff hx hcfg] at hj
    subst hj
    simp [h₁, h₂, h₃]
  · rw [PickResult.toUInt8, decisionOf_eq_jump_iff hx hcfg] at hj
    have hlt := h₂
    rw [ge_maxBootAttempts_iff, not_le] at hlt
    subst hj
    simp [h₁, h₂, toNat_succ_of_lt h₂, hlt]
  · rw [PickResult.toUInt8, decisionOf_eq_jump_iff hx hother] at hj
    simp [h₁, hj]
  · cases hj

/-- From a record that names `x` the choice leads to the other slot, if that verifies,
exactly when `x` fails or has used up its attempts. -/
theorem passPick_other_iff {x : UInt8} (hx : IsSlot x) (hcfg : cfg.activeSlot = x)
    (hother : (S.slot (memoryMapOtherSlot x)).verifies = true) :
    decisionOf (passPick S cfg).1.toUInt8 = .jump (memoryMapSlotAddr (memoryMapOtherSlot x)) ↔
      (S.slot x).verifies = false ∨ 3 ≤ cfg.bootAttempts.toNat := by
  have ho := memoryMapOtherSlot_cases x
  have hne := memoryMapOtherSlot_ne x
  subst hcfg
  rw [← ge_maxBootAttempts_iff]
  unfold passPick
  dsimp only
  split_ifs with h₁ h₂
  · simp [PickResult.toUInt8, decisionOf_eq_jump_iff ho ho, h₂]
  · simp [PickResult.toUInt8, decisionOf_eq_jump_iff ho hx, h₁, h₂, hne.symm]
  · simp [PickResult.toUInt8, decisionOf_eq_jump_iff ho ho, h₁]

end

/-- From a record that names no slot the choice never leads to slot B. -/
theorem passPick_ne_slotB {S : Slots} {cfg : BootConfig} (h : ¬IsSlot cfg.activeSlot) :
    decisionOf (passPick S cfg).1.toUInt8 ≠ .jump slotBAddr := by
  obtain ⟨ha, hb⟩ := not_or.1 h
  have hne : slotAAddr ≠ slotBAddr := by decide
  rw [passPick_of_ne ha hb]
  split_ifs
  · simp [PickResult.toUInt8, hne]
  · by_cases h0 : cfg.activeSlot = 0
    · simp [PickResult.toUInt8, h0]
    · simp [PickResult.toUInt8, decisionOf_of_ne h0, memoryMapSlotAddr_of_ne hb, hne]
  · simp [PickResult.toUInt8]

/-- What a jump leaves of a record that names no slot: it names slot A once the
attempts are used up, and none before. -/
theorem passPick_attempts_of_unnamed {S : Slots} {cfg : BootConfig} {slotAddr : Nat}
    (h : ¬IsSlot cfg.activeSlot)
    (hj : decisionOf (passPick S cfg).1.toUInt8 = .jump slotAddr) :
    (3 ≤ cfg.bootAttempts.toNat → (passPick S cfg).2.activeSlot = slotA ∧
      (passPick S cfg).2.bootAttempts.toNat = 1) ∧
    (cfg.bootAttempts.toNat < 3 → (passPick S cfg).2.activeSlot = cfg.activeSlot ∧
      (passPick S cfg).2.bootAttempts.toNat = cfg.bootAttempts.toNat + 1) := by
  obtain ⟨ha, hb⟩ := not_or.1 h
  rw [passPick_of_ne ha hb] at hj ⊢
  split_ifs at hj ⊢ with h₁ h₂
  · exact ⟨fun _ ↦ ⟨rfl, rfl⟩, fun hlt ↦ absurd (ge_maxBootAttempts_iff.1 h₂) (by omega)⟩
  · exact ⟨fun hge ↦ absurd (ge_maxBootAttempts_iff.2 hge) h₂,
      fun _ ↦ ⟨rfl, toNat_succ_of_lt h₂⟩⟩
  · cases hj

/-- A slot that is active and has attempts left loses one with every boot. -/
theorem passPick_attempts_of_lt {S : Slots} (cfg : BootConfig) {x : UInt8} (hx : IsSlot x)
    (ha : cfg.activeSlot = x) (hlt : cfg.bootAttempts.toNat < 3)
    (hj : decisionOf (passPick S cfg).1.toUInt8 = .jump (memoryMapSlotAddr x)) :
    (passPick S cfg).2.activeSlot = x ∧
      (passPick S cfg).2.bootAttempts.toNat = cfg.bootAttempts.toNat + 1 := by
  obtain ⟨h₁, -, -, h₂⟩ := passPick_attempts hx (by rw [ha]; exact hx) hj
  have hv := passPick_jump_verifies _ _ hj
  rw [Slots.image_memoryMapSlotAddr] at hv
  refine ⟨h₁, (h₂ ha ?_).2⟩
  rintro (hf | ⟨hge, -⟩)
  · rw [ha, hv] at hf; cases hf
  · exact absurd (ge_maxBootAttempts_iff.1 hge) (by omega)

/-! ## Three strikes -/

/-- Three passes over the slots `S₁`, `S₂`, `S₃`, with the records they load, count as
three failed boots of `x` for a pass over `S₄`. -/
def StrikesOut (cfg₁ cfg₂ cfg₃ : BootConfig) (S₁ S₂ S₃ S₄ : Slots) (x : UInt8) : Prop :=
  if IsSlot cfg₁.activeSlot then
    ¬FallsBack cfg₁ S₁ ∧ ¬FallsBack cfg₂ S₂ ∧ ¬FallsBack cfg₃ S₃ ∨ (S₄.slot x).verifies = false
  else 3 ≤ cfg₁.bootAttempts.toNat ∨
    1 ≤ cfg₁.bootAttempts.toNat ∧ (S₄.slot x).verifies = false

instance (cfg₁ cfg₂ cfg₃ : BootConfig) (S₁ S₂ S₃ S₄ : Slots) (x : UInt8) :
    Decidable (StrikesOut cfg₁ cfg₂ cfg₃ S₁ S₂ S₃ S₄ x) :=
  inferInstanceAs (Decidable (ite _ _ _))

section

variable {cfg₁ cfg₂ cfg₃ cfg₄ : BootConfig} {S₁ S₂ S₃ S₄ : Slots} {x : UInt8}
  (e₂ : cfg₂ = bootConfigStampCrc (passPick S₁ cfg₁).2)
  (e₃ : cfg₃ = bootConfigStampCrc (passPick S₂ cfg₂).2)
  (e₄ : cfg₄ = bootConfigStampCrc (passPick S₃ cfg₃).2) (hx : IsSlot x)
  (h₁ : decisionOf (passPick S₁ cfg₁).1.toUInt8 = .jump (memoryMapSlotAddr x))
  (h₂ : decisionOf (passPick S₂ cfg₂).1.toUInt8 = .jump (memoryMapSlotAddr x))
  (h₃ : decisionOf (passPick S₃ cfg₃).1.toUInt8 = .jump (memoryMapSlotAddr x))
include e₂ e₃ e₄ hx h₁ h₂ h₃

/-- Where the first of the records names a slot, three boots of `x` leave three
attempts exactly when none of them is a fallback. -/
theorem attempts_of_named (hn : IsSlot cfg₁.activeSlot) : cfg₄.activeSlot = x ∧
    (3 ≤ cfg₄.bootAttempts.toNat ↔
      ¬FallsBack cfg₁ S₁ ∧ ¬FallsBack cfg₂ S₂ ∧ ¬FallsBack cfg₃ S₃) := by
  obtain ⟨a₂, f₁, n₁, -⟩ := passPick_attempts hx hn h₁
  have ha₂ : cfg₂.activeSlot = x := by rw [e₂]; exact a₂
  obtain ⟨a₃, f₂, -, n₂⟩ := passPick_attempts hx (by rw [ha₂]; exact hx) h₂
  have ha₃ : cfg₃.activeSlot = x := by rw [e₃]; exact a₃
  obtain ⟨a₄, f₃, -, n₃⟩ := passPick_attempts hx (by rw [ha₃]; exact hx) h₃
  have b₂ : cfg₂.bootAttempts = (passPick S₁ cfg₁).2.bootAttempts := by rw [e₂]; rfl
  have b₃ : cfg₃.bootAttempts = (passPick S₂ cfg₂).2.bootAttempts := by rw [e₃]; rfl
  have b₄ : cfg₄.bootAttempts = (passPick S₃ cfg₃).2.bootAttempts := by rw [e₄]; rfl
  refine ⟨by rw [e₄]; exact a₄, ?_⟩
  rw [← b₂] at f₁ n₁
  rw [← b₃] at f₂ n₂
  rw [← b₄] at f₃ n₃
  have n₂ := n₂ ha₂
  have n₃ := n₃ ha₃
  constructor
  · intro h
    have g₃ : ¬FallsBack cfg₃ S₃ := fun hf ↦ by have := f₃ hf; omega
    have g₂ : ¬FallsBack cfg₂ S₂ := fun hf ↦ by have := f₂ hf; have := n₃ g₃; omega
    have g₁ : ¬FallsBack cfg₁ S₁ := fun hf ↦ by
      have := f₁ hf; have := n₂ g₂; have := n₃ g₃; omega
    exact ⟨g₁, g₂, g₃⟩
  · rintro ⟨g₁, g₂, g₃⟩
    have := n₁ g₁
    have := n₂ g₂
    have := n₃ g₃
    omega

/-- Where the first of the records names no slot, slot A is named, with three attempts
left behind, only if they were used up before. -/
theorem attempts_of_unnamed (hn : ¬IsSlot cfg₁.activeSlot) (hxA : x = slotA) :
    (3 ≤ cfg₁.bootAttempts.toNat → cfg₄.activeSlot = slotA ∧ cfg₄.bootAttempts.toNat = 3) ∧
    (1 ≤ cfg₁.bootAttempts.toNat → cfg₁.bootAttempts.toNat < 3 →
      cfg₄.activeSlot = slotA ∧ cfg₄.bootAttempts.toNat < 3) ∧
    (cfg₁.bootAttempts.toNat = 0 → ¬IsSlot cfg₄.activeSlot) := by
  subst hxA
  have a₂ : cfg₂.activeSlot = (passPick S₁ cfg₁).2.activeSlot := by rw [e₂]; rfl
  have a₃ : cfg₃.activeSlot = (passPick S₂ cfg₂).2.activeSlot := by rw [e₃]; rfl
  have a₄ : cfg₄.activeSlot = (passPick S₃ cfg₃).2.activeSlot := by rw [e₄]; rfl
  have b₂ : cfg₂.bootAttempts = (passPick S₁ cfg₁).2.bootAttempts := by rw [e₂]; rfl
  have b₃ : cfg₃.bootAttempts = (passPick S₂ cfg₂).2.bootAttempts := by rw [e₃]; rfl
  have b₄ : cfg₄.bootAttempts = (passPick S₃ cfg₃).2.bootAttempts := by rw [e₄]; rfl
  obtain ⟨sw₁, st₁⟩ := passPick_attempts_of_unnamed hn h₁
  rw [← a₂, ← b₂] at sw₁ st₁
  have lt₂ := fun ha hlt ↦ passPick_attempts_of_lt cfg₂ hx ha hlt h₂
  rw [← a₃, ← b₃] at lt₂
  have lt₃ := fun ha hlt ↦ passPick_attempts_of_lt cfg₃ hx ha hlt h₃
  rw [← a₄, ← b₄] at lt₃
  refine ⟨fun hge ↦ ?_, fun hpos hlt ↦ ?_, fun h0 ↦ ?_⟩
  · -- switched by the first pass
    obtain ⟨s₂, n₂⟩ := sw₁ hge
    obtain ⟨s₃, n₃⟩ := lt₂ s₂ (by omega)
    obtain ⟨s₄, n₄⟩ := lt₃ s₃ (by omega)
    exact ⟨s₄, by omega⟩
  · obtain ⟨s₂, n₂⟩ := st₁ hlt
    have hn₂ : ¬IsSlot cfg₂.activeSlot := by rw [s₂]; exact hn
    obtain ⟨sw₂, st₂⟩ := passPick_attempts_of_unnamed hn₂ h₂
    rw [← a₃, ← b₃] at sw₂ st₂
    by_cases hge : 3 ≤ cfg₂.bootAttempts.toNat
    · -- switched by the second
      obtain ⟨s₃, n₃⟩ := sw₂ hge
      obtain ⟨s₄, n₄⟩ := lt₃ s₃ (by omega)
      exact ⟨s₄, by omega⟩
    · -- switched by the third
      obtain ⟨s₃, n₃⟩ := st₂ (by omega)
      have hn₃ : ¬IsSlot cfg₃.activeSlot := by rw [s₃]; exact hn₂
      have sw₃ := (passPick_attempts_of_unnamed hn₃ h₃).1
      rw [← a₄, ← b₄] at sw₃
      obtain ⟨s₄, n₄⟩ := sw₃ (by omega)
      exact ⟨s₄, by omega⟩
  · obtain ⟨s₂, n₂⟩ := st₁ (by omega)
    have hn₂ : ¬IsSlot cfg₂.activeSlot := by rw [s₂]; exact hn
    have st₂ := (passPick_attempts_of_unnamed hn₂ h₂).2
    rw [← a₃, ← b₃] at st₂
    obtain ⟨s₃, n₃⟩ := st₂ (by omega)
    have hn₃ : ¬IsSlot cfg₃.activeSlot := by rw [s₃]; exact hn₂
    have st₃ := (passPick_attempts_of_unnamed hn₃ h₃).2
    rw [← a₄, ← b₄] at st₃
    rw [(st₃ (by omega)).1]
    exact hn₃

/-- Three boots lead to the other slot, if that verifies, exactly when they count. -/
theorem passPick_three_strikes_iff (hother : (S₄.slot (memoryMapOtherSlot x)).verifies = true) :
    decisionOf (passPick S₄ cfg₄).1.toUInt8 = .jump (memoryMapSlotAddr (memoryMapOtherSlot x)) ↔
      StrikesOut cfg₁ cfg₂ cfg₃ S₁ S₂ S₃ S₄ x := by
  unfold StrikesOut
  split_ifs with hn
  · obtain ⟨ha, hb⟩ := attempts_of_named e₂ e₃ e₄ hx h₁ h₂ h₃ hn
    rw [passPick_other_iff hx ha hother, hb, or_comm]
  · -- the identifier stands for slot A, until the switch names it
    have hxA : x = slotA := by
      rcases hx with rfl | rfl
      · rfl
      · exact absurd h₁ (passPick_ne_slotB hn)
    obtain ⟨hge, hlt, h0⟩ := attempts_of_unnamed e₂ e₃ e₄ hx h₁ h₂ h₃ hn hxA
    rcases Nat.lt_or_ge cfg₁.bootAttempts.toNat 3 with h | h
    · by_cases hz : cfg₁.bootAttempts.toNat = 0
      · refine iff_of_false ?_ (by omega)
        rw [hxA]
        exact passPick_ne_slotB (h0 hz)
      · obtain ⟨ha, hb⟩ := hlt (by omega) h
        rw [passPick_other_iff hx (ha.trans hxA.symm) hother]
        have h₃ : ¬3 ≤ cfg₄.bootAttempts.toNat := by omega
        have h₃' : ¬3 ≤ cfg₁.bootAttempts.toNat := by omega
        have h₁' : 1 ≤ cfg₁.bootAttempts.toNat := by omega
        simp only [h₃, h₃', h₁', or_false, false_or, true_and]
    · obtain ⟨ha, hb⟩ := hge h
      rw [passPick_other_iff hx (ha.trans hxA.symm) hother]
      exact iff_of_true (.inr (by omega)) (.inl h)

end


/-- A pass in which no application has confirmed and no swap is pending. -/
structure Boot where
  slots : Slots
  shared : SharedBootBlock
  unconfirmed : shared.confirmed = false
  noSwap : shared.otaPending = 0

section

variable {σ : Type} {P : Platform σ} {I : σ → Prop}

/-- A pass over the slots of the boot. -/
def bootOn (P : Platform σ) (s : σ) (l : Boot) : Decision × σ :=
  let r := main (P.withSlots l.slots) ⟨s, l.shared⟩
  (r.1, r.2.dev)

/-- The device after the passes `ls`. -/
def bootRun (P : Platform σ) (s : σ) (ls : List Boot) : σ := ls.foldl (fun s l ↦ (bootOn P s l).2) s

/-- The record a pass loads. -/
def bootConfigOn (P : Platform σ) (s : σ) (l : Boot) : BootConfig :=
  loadedConfig (P.readConfig s) l.slots

theorem bootOn_spec (hP : P.Durable I) {s : σ} (hs : I s) (l : Boot) :
    (bootOn P s l).1 = decisionOf (passPick l.slots (bootConfigOn P s l)).1.toUInt8 ∧
      I (bootOn P s l).2 ∧
      ∀ l', bootConfigOn P (bootOn P s l).2 l' =
        bootConfigStampCrc (passPick l.slots (bootConfigOn P s l)).2 := by
  have hcfg : choiceConfig (P.readConfig s) l.slots l.shared = bootConfigOn P s l := by
    rw [choiceConfig_of_not_commits fun h ↦ h.1 l.noSwap, startConfig, l.unconfirmed]
    rfl
  have h₁ : (bootOn P s l).1 = (main (P.withSlots l.slots) ⟨s, l.shared⟩).1 := by rw [bootOn]
  have h₂ : (bootOn P s l).2 = (main (P.withSlots l.slots) ⟨s, l.shared⟩).2.dev := by rw [bootOn]
  obtain ⟨hI, hr⟩ := hP.main_withSlots l.slots (m := ⟨s, l.shared⟩) hs
  rw [← h₂, fixedChoice, hcfg] at hr
  rw [← h₂] at hI
  rw [(main_withSlots P l.slots ⟨s, l.shared⟩).1] at h₁
  dsimp only at h₁
  rw [hP.flashInit_eq s hs, fixedChoice, hcfg] at h₁
  refine ⟨h₁, hI, fun l' ↦ ?_⟩
  rw [bootConfigOn, hr, loadedConfig_of_valid]
  rw [bootConfigValidate_stampCrc, passPick_magic, bootConfigOn, loadedConfig_magic]
  rfl

theorem bootRun_inv (hP : P.Durable I) {s : σ} (hs : I s) (ls : List Boot) :
    I (bootRun P s ls) := by
  induction ls generalizing s with
  | nil => exact hs
  | cons l ls ih =>
      rw [bootRun, List.foldl_cons]
      exact ih (bootOn_spec hP hs l).2.1

/-- The record in force after the passes `ls`. -/
def recordRun (cfg : BootConfig) (ls : List Boot) : BootConfig :=
  ls.foldl (fun cfg l ↦ bootConfigStampCrc (passPick l.slots cfg).2) cfg

theorem bootConfigOn_bootRun (hP : P.Durable I) {s : σ} (hs : I s) {cfg : BootConfig}
    (hcfg : ∀ l, bootConfigOn P s l = cfg) (ls : List Boot) (l : Boot) :
    bootConfigOn P (bootRun P s ls) l = recordRun cfg ls := by
  induction ls generalizing s cfg with
  | nil => exact hcfg l
  | cons l₀ ls ih =>
      obtain ⟨-, hI, hnext⟩ := bootOn_spec hP hs l₀
      rw [hcfg] at hnext
      rw [bootRun, List.foldl_cons, recordRun, List.foldl_cons]
      exact ih hI hnext

theorem bootOn_bootRun (hP : P.Durable I) {s : σ} (hs : I s) {cfg : BootConfig}
    (hcfg : ∀ l, bootConfigOn P s l = cfg) (ls : List Boot) (l : Boot) :
    (bootOn P (bootRun P s ls) l).1 =
      decisionOf (passPick l.slots (recordRun cfg ls)).1.toUInt8 := by
  rw [(bootOn_spec hP (bootRun_inv hP hs ls) l).1, bootConfigOn_bootRun hP hs hcfg]

/-- **Three strikes.**  After any passes, when three boots in a row have gone to the
slot `x` and its other slot verifies in the next one, that one goes to the other slot
exactly when the three count: none of them was a fallback, or `x` fails by then. -/
theorem three_strikes_iff (hP : P.Durable I) {s₀ : σ} (hs₀ : I s₀) (pre : List Boot)
    (l₁ l₂ l₃ l₄ : Boot) {x : UInt8} (hx : IsSlot x)
    (h₁ : (bootOn P (bootRun P s₀ pre) l₁).1 = .jump (memoryMapSlotAddr x))
    (h₂ : (bootOn P (bootRun P s₀ (pre ++ [l₁])) l₂).1 = .jump (memoryMapSlotAddr x))
    (h₃ : (bootOn P (bootRun P s₀ (pre ++ [l₁, l₂])) l₃).1 = .jump (memoryMapSlotAddr x))
    (hother : (l₄.slots.slot (memoryMapOtherSlot x)).verifies = true) :
    (bootOn P (bootRun P s₀ (pre ++ [l₁, l₂, l₃])) l₄).1 =
        .jump (memoryMapSlotAddr (memoryMapOtherSlot x)) ↔
      StrikesOut (bootConfigOn P (bootRun P s₀ pre) l₁)
        (bootConfigOn P (bootRun P s₀ (pre ++ [l₁])) l₂)
        (bootConfigOn P (bootRun P s₀ (pre ++ [l₁, l₂])) l₃)
        l₁.slots l₂.slots l₃.slots l₄.slots x := by
  have hrun : ∀ ls l, bootRun P s₀ (ls ++ [l]) = (bootOn P (bootRun P s₀ ls) l).2 := fun ls l ↦ by
    simp [bootRun]
  have r₁ := hrun pre l₁
  have r₂ := hrun (pre ++ [l₁]) l₂
  have r₃ := hrun (pre ++ [l₁, l₂]) l₃
  rw [List.append_assoc] at r₂ r₃
  have d := fun ls l ↦ (bootOn_spec hP (bootRun_inv hP hs₀ ls) l).1
  have e := fun ls l ↦ (bootOn_spec hP (bootRun_inv hP hs₀ ls) l).2.2
  rw [d] at h₁ h₂ h₃ ⊢
  refine passPick_three_strikes_iff ?_ ?_ ?_ hx h₁ h₂ h₃ hother
  · rw [r₁, e]
  · exact (congrArg (fun s ↦ bootConfigOn P s l₃) r₂).trans (e _ _ _)
  · exact (congrArg (fun s ↦ bootConfigOn P s l₄) r₃).trans (e _ _ _)

end

/-- A device with a valid record loads it over any slots. -/
theorem bootConfigOn_recordDevice {cfg : BootConfig} (h : bootConfigValidate cfg = true)
    (l : Boot) :
    bootConfigOn (onFlash Hw sampleKeys) (recordDevice cfg) l = cfg := by
  have hr : (onFlash Hw sampleKeys).readConfig (recordDevice cfg) = cfg := readConfig_recordDevice _
  rw [bootConfigOn, hr, loadedConfig_of_valid h]

/-- A pass after a power cycle, over signed images in both slots. -/
def bothBoot : Boot := ⟨⟨.ofSigned (sampleImage 1), .ofSigned (sampleImage 1)⟩, .zero, rfl, rfl⟩

/-- A pass after a power cycle, over a signed image in slot B only. -/
def slotBBoot : Boot := ⟨⟨.erased, .ofSigned (sampleImage 1)⟩, .zero, rfl, rfl⟩

/-- From the factory record three boots of slot A lead to slot B. -/
theorem three_strikes_factory :
    (bootOn (onFlash Hw sampleKeys) (bootRun (onFlash Hw sampleKeys)
      (recordDevice (provisionedConfig slotA 0)) [bothBoot, bothBoot, bothBoot]) bothBoot).1 =
        .jump slotBAddr := by
  have hs : (recordDevice (provisionedConfig slotA 0)).Healthy := Hw.healthy_reset _
  have hcfg := bootConfigOn_recordDevice (provisionedConfig_validate slotA 0)
  have d := bootOn_bootRun (onFlash_durable sampleKeys) hs hcfg
  refine (three_strikes_iff (onFlash_durable sampleKeys) hs [] bothBoot bothBoot bothBoot bothBoot
    (.inl rfl) ?_ ?_ ?_ rfl).2 ?_
  · rw [d]; decide
  · rw [d]; decide
  · rw [d]; decide
  · have e := bootConfigOn_bootRun (onFlash_durable sampleKeys) hs hcfg
    rw [e, e, e]
    decide

/-- The fallback to slot B does not count: with slot A back, the fourth pass still
boots slot B. -/
theorem fallback_uncounted :
    let run := bootRun (onFlash Hw sampleKeys) (recordDevice (provisionedConfig slotA 0))
    (bootOn (onFlash Hw sampleKeys) (run []) slotBBoot).1 = .jump slotBAddr ∧
      (bootOn (onFlash Hw sampleKeys) (run [slotBBoot]) slotBBoot).1 = .jump slotBAddr ∧
      (bootOn (onFlash Hw sampleKeys) (run [slotBBoot, slotBBoot]) slotBBoot).1 =
        .jump slotBAddr ∧
      bothBoot.slots.a.verifies = true ∧
      (bootOn (onFlash Hw sampleKeys) (run [slotBBoot, slotBBoot, slotBBoot]) bothBoot).1 =
        .jump slotBAddr := by
  have hs : (recordDevice (provisionedConfig slotA 0)).Healthy := Hw.healthy_reset _
  have hcfg := bootConfigOn_recordDevice (provisionedConfig_validate slotA 0)
  have d := bootOn_bootRun (onFlash_durable sampleKeys) hs hcfg
  dsimp only
  rw [d, d, d, d]
  exact ⟨by decide, by decide, by decide, rfl, by decide⟩

end DualBank
