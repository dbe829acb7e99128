import DualBank.Boot.Factory
import DualBank.Boot.Floor
import DualBank.Crypto.Burst
import DualBank.Ota.Delivery
import DualBank.System.Recovery

/-!
# Downgrades over whole runs

The version of an image is checked at END and at the swap, and at no other place.  An
image below the floor that END has refused stays in its slot, and a later pass takes it
when it falls back or switches slots.  This file follows the floor and slot B through
runs of the whole bootloader; slot A never boots what a transfer left there, as the
record and a staged image cannot both survive in its sector.
-/

namespace DualBank

open Lib FlashBackend BootConfig

/-! ## Passes next to an old image -/

/-- An image that verifies and is older than `floor`. -/
def SlotImage.Old (floor : UInt32) (i : SlotImage) : Prop := i.verifies = true ∧ i.version < floor

section Pass

variable {record : BootConfig} {S : Slots} {b : SharedBootBlock} {floor : UInt32}

/-- A swap to slot A is always reverted: the save of its commit erases slot A. -/
theorem passSwap_activeSlot_of_ne {st : PassState} (otaPending : UInt32)
    (h : st.cfg.activeSlot ≠ slotA) :
    (passSwap Slots.eraseA otaPending st).2.cfg.activeSlot = st.cfg.activeSlot := by
  by_cases hc : SwapCommits st.cfg st.slots otaPending
  · obtain ⟨h₀, h₁, h₂⟩ := hc
    have hgone : ((Slots.eraseA st.slots).slot (swapConfig st.cfg (st.slots.slot
        (memoryMapOtherSlot st.cfg.activeSlot)).version).activeSlot).verifies = false := by
      rw [swapConfig]
      dsimp only
      rw [memoryMapOtherSlot_of_ne h]
      rfl
    unfold passSwap
    simp only [h₀, h₁, h₂, hgone, if_false, Bool.true_eq_false, Bool.false_eq_true]
    rfl
  · rw [passSwap_of_not_commits hc]

/-- The swap does not commit to an image below the floor. -/
theorem not_swapCommits_of_old {cfg : BootConfig} (otaPending : UInt32)
    (hactive : cfg.activeSlot = slotA) (hfloor : floor ≤ bootConfigAntidowngradeFloor cfg)
    (hold : S.b.Old floor) : ¬SwapCommits cfg S otaPending := by
  rintro ⟨-, -, hallowed⟩
  rw [hactive, memoryMapOtherSlot_slotA, Slots.slot_slotB,
    bootConfigFirmwareAllowed_iff] at hallowed
  have h₁ := UInt32.lt_iff_toNat_lt.1 hold.2
  have h₂ := UInt32.le_iff_toNat_le.1 hfloor
  omega

/-- The choice of a pass whose record is valid and whose swap commits nothing. -/
theorem pass_of_not_commits (hv : bootConfigValidate record = true) (hb : b.confirmed = false)
    (hc : ¬SwapCommits record S b.otaPending) :
    (pass Slots.eraseA record S b).pick = (passPick S record).1 ∧
      (pass Slots.eraseA record S b).final = (passPick S record).2 := by
  unfold pass
  dsimp only
  rw [passConfirm_unconfirmed _ _ _ hb, hv, if_pos rfl, passSwap_of_not_commits hc]
  exact ⟨rfl, rfl⟩

/-- Slot A is taken over an old image in slot B: it verifies and has attempts left. -/
def KeepsSlotA (record : BootConfig) (S : Slots) : Prop :=
  S.a.verifies = true ∧ record.bootAttempts < maxBootAttempts

/-- Next to an old image in slot B that is not active, the record names slot B after the
pass only when slot A was active and could not be kept. -/
theorem pass_final_ne_slotB (hv : bootConfigValidate record = true) (hb : b.confirmed = false)
    (hfloor : floor ≤ bootConfigAntidowngradeFloor record) (hold : S.b.Old floor)
    (hactive : record.activeSlot ≠ slotB)
    (hkeep : record.activeSlot = slotA → KeepsSlotA record S) :
    (pass Slots.eraseA record S b).final.activeSlot ≠ slotB := by
  by_cases ha : record.activeSlot = slotA
  · obtain ⟨hverifies, hattempts⟩ := hkeep ha
    rw [(pass_of_not_commits hv hb (not_swapCommits_of_old _ ha hfloor hold)).2,
      passPick_of_slotA ha, if_pos hverifies, if_neg (by simpa using hattempts)]
    exact hactive
  · -- slot A and an undocumented identifier only lead to each other
    have hswap : (passSwap Slots.eraseA b.otaPending ⟨record, S, []⟩).2.cfg.activeSlot =
        record.activeSlot := passSwap_activeSlot_of_ne b.otaPending ha
    unfold pass
    dsimp only
    rw [passConfirm_unconfirmed _ _ _ hb, hv, if_pos rfl]
    generalize (passSwap Slots.eraseA b.otaPending ⟨record, S, []⟩).2 = st at hswap ⊢
    rw [passPick_of_ne (by rw [hswap]; exact ha) (by rw [hswap]; exact hactive)]
    split_ifs
    · exact (by decide : slotA ≠ slotB)
    · exact hswap ▸ hactive
    · exact hswap ▸ hactive

/-- Where slot A is active and cannot be kept, the old image is chosen. -/
theorem pass_boots_old (hv : bootConfigValidate record = true) (hb : b.confirmed = false)
    (hfloor : floor ≤ bootConfigAntidowngradeFloor record) (hold : S.b.Old floor)
    (ha : record.activeSlot = slotA) (hkeep : ¬KeepsSlotA record S) :
    (pass Slots.eraseA record S b).pick = .boot slotB := by
  rw [(pass_of_not_commits hv hb (not_swapCommits_of_old _ ha hfloor hold)).1,
    passPick_of_slotA ha]
  by_cases h₁ : S.a.verifies = true
  · have h₂ : record.bootAttempts ≥ maxBootAttempts :=
      UInt8.not_lt.1 fun h ↦ hkeep ⟨h₁, h⟩
    rw [if_pos h₁, if_pos h₂, if_pos hold.1]
  · rw [if_neg h₁, if_pos hold.1]

/-- With a valid record and no slot that verifies, nothing is chosen and nothing saved. -/
theorem pass_bothFailed (hv : bootConfigValidate record = true) (hb : b.confirmed = false)
    (hslotA : S.a.verifies = false) (hslotB : S.b.verifies = false) :
    (pass Slots.eraseA record S b).pick = .bothFailed ∧
      (pass Slots.eraseA record S b).writes = [] := by
  have hnone : ∀ slot, ¬(S.slot slot).verifies = true := fun slot ↦ by
    unfold Slots.slot
    split_ifs
    · exact Bool.eq_false_iff.1 hslotB
    · exact Bool.eq_false_iff.1 hslotA
  unfold pass
  dsimp only
  rw [passConfirm_unconfirmed _ _ _ hb, hv, if_pos rfl,
    passSwap_of_not_commits fun hc ↦ hnone _ hc.2.1]
  have hpick : passPick S record = (.bothFailed, record) := by
    unfold passPick
    rw [if_neg (hnone _), if_neg (hnone _)]
  dsimp only
  rw [hpick]
  exact ⟨rfl, rfl⟩

end Pass

/-! ## Conditions on a run -/

section System

variable {σ : Type} [FlashBackend σ] (K : KeyStore) (floor : UInt32)

/-- The image that slot B holds. -/
def imageB (m : Machine σ) : SlotImage := .ofMem K (byte m.dev) slotBAddr

/-- No pass jumps to a slot that a transfer was opened to and that carries a version
below `floor`. -/
def NoDowngrade (d : System σ) (e : SystemEvent) : Prop :=
  e = .softReset → ∀ slotAddr v, (main (onFlash σ K) d.phase.machine).1 = .jump slotAddr →
    slotAddr ∈ d.staged → runningVersion K d.phase.machine = some v → floor ≤ v

/-- Transfers are opened only while slot A is active. -/
def OpensBesideA (d : System σ) (e : SystemEvent) : Prop :=
  ∀ r s, d.phase = .receiving r → e = .frame s → openedSlot K r s ≠ none →
    (readConfig r.client.dev).activeSlot = slotA

/-- At a reset with slot A active and a staged image below `floor` in slot B, slot A
verifies and has attempts left. -/
def KeepsActive (d : System σ) (e : SystemEvent) : Prop :=
  e = .softReset → slotBAddr ∈ d.staged →
    (readConfig d.phase.machine.dev).activeSlot = slotA →
      (imageB K d.phase.machine).Old floor →
        KeepsSlotA (readConfig d.phase.machine.dev) (.ofMem K (byte d.phase.machine.dev))

variable {K floor}

theorem opensBesideA_of_ne {d : System σ} {e : SystemEvent} (h : ∀ s, e ≠ .frame s) :
    OpensBesideA K d e := fun _ s _ he ↦ absurd he (h s)

theorem keepsActive_of_ne {d : System σ} {e : SystemEvent} (h : e ≠ .softReset) :
    KeepsActive K floor d e := fun he ↦ absurd he h

/-! ## The invariant -/

/-- A healthy device whose record is valid and has a floor of `floor` at least, whose
boot is not confirmed, and whose slot B is not active with a staged image below it. -/
structure Machine.Guards (K : KeyStore) (floor : UInt32) (staged : List Nat) (m : Machine σ) :
    Prop where
  healthy : Healthy m.dev
  valid : bootConfigValidate (readConfig m.dev) = true
  floor_le : floor ≤ bootConfigAntidowngradeFloor (readConfig m.dev)
  unconfirmed : m.shared.confirmed = false
  fresh : (readConfig m.dev).activeSlot = slotB → staged ≠ [] → ¬(imageB K m).Old floor

/-- An open session is one of slot B beside an active slot A. -/
structure Receiver.BesideA (r : Receiver σ) : Prop where
  receiving : r.status = .receiving
  active : r.client.state.active = true → (readConfig r.client.dev).activeSlot = slotA
  above : r.client.state.Above slotBAddr

structure System.Guards (K : KeyStore) (floor : UInt32) (d : System σ) : Prop where
  machine : d.phase.machine.Guards K floor d.staged
  staged : ∀ a ∈ d.staged, a = slotBAddr
  session : ∀ r, d.phase = .receiving r → r.BesideA

/-! ## Passes -/

/-- The slots and the record of a pass of a guarded machine. -/
theorem Machine.Guards.pass_eq {staged : List Nat} {m : Machine σ} (h : m.Guards K floor staged) :
    flashPass K m = pass Slots.eraseA (readConfig m.dev) (.ofMem K (byte m.dev)) m.shared := by
  rw [flashPass, flashInit_of_healthy h.healthy]

/-- A powered device with a valid record comes out of a pass with a record whose floor
is no lower. -/
theorem guards_main {m : Machine σ} (hp : Powered m.dev)
    (hv : bootConfigValidate (readConfig (flashInit m.dev)) = true)
    (hfloor : floor ≤ bootConfigAntidowngradeFloor (readConfig (flashInit m.dev)))
    {staged : List Nat}
    (hfresh : (flashPass K m).final.activeSlot = slotB → staged ≠ [] →
      ¬(SlotImage.ofMem K (byte (flashInit m.dev)) slotBAddr).Old floor) :
    (main (onFlash σ K) m).2.Guards K floor staged := by
  obtain ⟨-, hshared, hh, hrec, hslots⟩ := main_onFlash K hp
  have hb : imageB K (main (onFlash σ K) m).2 =
      SlotImage.ofMem K (byte (flashInit m.dev)) slotBAddr := by
    have hB := congrArg Slots.b hslots
    split_ifs at hB
    · exact hB
    · exact hB
  refine ⟨hh, ?_, ?_, ?_, ?_⟩
  · rw [hrec, bootConfigValidate_stampCrc, flashPass, pass_final_magic]
    rfl
  · have hle := pass_final_floor Slots.eraseA (readConfig (flashInit m.dev))
      (.ofMem K (byte (flashInit m.dev))) m.shared
    rw [loadedConfig_of_valid hv] at hle
    rw [hrec, antidowngradeFloor_stampCrc, flashPass]
    exact UInt32.le_iff_toNat_le.2 (Nat.le_trans (UInt32.le_iff_toNat_le.1 hfloor) hle)
  · rw [hshared]
    rfl
  · rw [hrec, activeSlot_stampCrc, hb]
    exact hfresh

variable {d : System σ}

/-- A reset of a guarded system under the condition. -/
theorem System.Guards.reset (h : d.Guards K floor) (E : PatchEngine)
    (hc : KeepsActive K floor d .softReset) :
    (d.step E K .softReset).Guards K floor ∧ NoDowngrade K floor d .softReset := by
  obtain ⟨hm, hstaged, -⟩ := h
  have hp := powered_of_healthy hm.healthy
  have hinit := flashInit_of_healthy hm.healthy
  -- next to an old staged image the record does not name slot B after the pass
  have hnotB : d.staged ≠ [] → (imageB K d.phase.machine).Old floor →
      (flashPass K d.phase.machine).final.activeSlot ≠ slotB := by
    intro hne hold
    obtain ⟨a, ha⟩ := List.exists_mem_of_ne_nil _ hne
    have hB : slotBAddr ∈ d.staged := hstaged a ha ▸ ha
    rw [hm.pass_eq]
    exact pass_final_ne_slotB hm.valid hm.unconfirmed hm.floor_le hold
      (fun hactive ↦ hm.fresh hactive hne hold) fun hactive ↦ hc rfl hB hactive hold
  constructor
  · refine ⟨?_, hstaged, fun r hr ↦ absurd hr (bootPhase_ne_receiving K _ r)⟩
    have hphase : (d.step E K .softReset).phase.machine = (main (onFlash σ K) d.phase.machine).2 :=
      machine_bootPhase K _
    rw [hphase]
    refine guards_main hp (by rw [hinit]; exact hm.valid) (by rw [hinit]; exact hm.floor_le) ?_
    intro hactive hne hold
    rw [hinit] at hold
    exact hnotB hne hold hactive
  · rintro - slotAddr v hjump hmem hversion
    obtain rfl := hstaged slotAddr hmem
    by_contra hlt
    rw [runningVersion_of_jump K hp hjump, Option.some.injEq, Slots.image_slotBAddr, flashPass,
      pass_slots_b, hinit] at hversion
    have hverifies := slotB_verifies_of_main_jump K hp hjump
    rw [hinit] at hverifies
    have hold : (imageB K d.phase.machine).Old floor :=
      ⟨hverifies, by rw [imageB, show (SlotImage.ofMem K (byte d.phase.machine.dev)
        slotBAddr).version = v from hversion]; exact UInt32.not_le.1 hlt⟩
    refine hnotB (List.ne_nil_of_mem hmem) hold ?_
    rw [(main_onFlash K hp).1] at hjump
    have haddr : memoryMapSlotAddr (flashPass K d.phase.machine).final.activeSlot = slotBAddr :=
      (passPick_jump_activeSlot hjump).1
    by_contra hne
    rw [memoryMapSlotAddr_of_ne hne] at haddr
    exact absurd haddr (by decide)

/-- Where slot A is active and cannot be kept, the pass jumps to the old image. -/
theorem Machine.Guards.boots_old {staged : List Nat} {m : Machine σ} (h : m.Guards K floor staged)
    (ha : (readConfig m.dev).activeSlot = slotA) (hold : (imageB K m).Old floor)
    (hkeep : ¬KeepsSlotA (readConfig m.dev) (.ofMem K (byte m.dev))) :
    (main (onFlash σ K) m).1 = .jump slotBAddr ∧
      runningVersion K m = some (imageB K m).version := by
  have hp := powered_of_healthy h.healthy
  have hjump : (main (onFlash σ K) m).1 = .jump slotBAddr := by
    rw [(main_onFlash K hp).1, h.pass_eq,
      pass_boots_old h.valid h.unconfirmed h.floor_le hold ha hkeep]
    exact decisionOf_slotB
  refine ⟨hjump, ?_⟩
  rw [runningVersion_of_jump K hp hjump, Slots.image_slotBAddr, h.pass_eq, pass_slots_b]
  rfl

/-- A reset of a guarded system that makes no downgrade has met the condition. -/
theorem System.Guards.keepsActive (h : d.Guards K floor) {e : SystemEvent}
    (hno : NoDowngrade K floor d e) : KeepsActive K floor d e := by
  rintro rfl hstaged ha hold
  by_contra hkeep
  obtain ⟨hjump, hversion⟩ := h.machine.boots_old ha hold hkeep
  exact absurd hold.2 (UInt32.not_lt.2 (hno rfl slotBAddr _ hjump hstaged hversion))

/-! ## Frames -/

/-- A frame leaves the shared block alone or clears the confirmation in it. -/
theorem handleFrame_shared (E : PatchEngine) (K : KeyStore) (f : OtaFrame) (c : OtaClient σ) :
    (handleFrame E K f c).2.shared = c.shared ∨
      (handleFrame E K f c).2.shared.bootConfirmed = 0 := by
  rcases handleFrame_cases E K f c with he | ⟨o, st, -, -, he⟩ | ⟨dest, w, q, -, he⟩ | he
  · rw [he]
    exact .inl rfl
  · rw [he]
    exact .inl rfl
  · rw [he]
    exact .inl rfl
  · obtain ⟨dev, b, -, hb, hend⟩ := handleEnd_cases E K c
    rw [he, hend]
    rcases hb with rfl | rfl
    · exact .inl rfl
    · exact .inr rfl

theorem confirmed_receive (E : PatchEngine) {r : Receiver σ} (s : FrameStatus)
    (h : r.client.shared.confirmed = false) :
    (receive E K r s).client.shared.confirmed = false := by
  unfold receive
  rcases receiveStep_client E K s r with hc | ⟨f, -, -, hc⟩
  · rw [hc]; exact h
  · rw [hc]
    rcases handleFrame_shared E K f r.client with hs | hs
    · rw [hs]; exact h
    · simp [SharedBootBlock.confirmed, hs]

/-- An opening beside slot A goes to slot B. -/
theorem opening_slotB {f : OtaFrame} {c : OtaClient σ} {o : Opening}
    (hv : bootConfigValidate (readConfig c.dev) = true)
    (hactive : (readConfig c.dev).activeSlot = slotA)
    (ho : opening K f c = some o) : o.addr = slotBAddr := by
  rw [(opening_region ho).1, loadedOn_of_valid K hv, hactive]
  rfl

/-- What a turn of the receiver leaves of the flash: the record, and everything when no
transfer is opened and none is open. -/
theorem byte_receive (E : PatchEngine) {r : Receiver σ} {s : FrameStatus} {x : Nat}
    (hv : bootConfigValidate (readConfig r.client.dev) = true) (hr : r.BesideA)
    (hopen : openedSlot K r s ≠ none → (readConfig r.client.dev).activeSlot = slotA)
    (hx : (readConfig r.client.dev).activeSlot = slotA →
      x < bootConfigAddr + bootConfigRecordSize) :
    byte (receive E K r s).client.dev x = byte r.client.dev x := by
  unfold receive
  rcases receiveStep_client E K s r with hc | ⟨f, rfl, -, hc⟩
  · rw [hc]
  · rw [hc]
    have hend : bootConfigAddr + bootConfigRecordSize ≤ 0x08080000 := by decide
    have hend' : (0x08080000 : Nat) ≤ slotBAddr := by decide
    refine handleFrame_frame hr.above (fun ha ↦ ?_) fun o ho ↦ ?_
    · have := hx (hr.active ha)
      omega
    · have hactive := hopen (by rw [openedSlot, ho]; exact nofun)
      have hlt := hx hactive
      rw [opening_slotB hv hactive ho]
      exact erase_frame _ (not_covered_below_slotB (by omega))

theorem readConfig_receive (E : PatchEngine) {r : Receiver σ} {s : FrameStatus}
    (hv : bootConfigValidate (readConfig r.client.dev) = true) (hr : r.BesideA)
    (hopen : openedSlot K r s ≠ none → (readConfig r.client.dev).activeSlot = slotA) :
    readConfig (receive E K r s).client.dev = readConfig r.client.dev :=
  BootConfig.ofMem_congr fun _ hx ↦ byte_receive E hv hr hopen fun _ ↦ hx.2

/-- A turn of the receiver of a guarded system. -/
theorem guards_receive (E : PatchEngine) {r : Receiver σ} {s : FrameStatus} {staged : List Nat}
    (hm : Machine.Guards K floor staged ⟨r.client.dev, r.client.shared⟩)
    (hstaged : ∀ a ∈ staged, a = slotBAddr) (hr : r.BesideA)
    (hopen : openedSlot K r s ≠ none → (readConfig r.client.dev).activeSlot = slotA) :
    System.Guards K floor
      ⟨(receive E K r s).phase, (openedSlot K r s).toList ++ staged⟩ := by
  have hv := hm.valid
  have hrec := readConfig_receive E hv hr hopen
  have hnew : ∀ a, openedSlot K r s = some a → a = slotBAddr := fun a ha ↦ by
    have hactive := hopen (by rw [ha]; exact nofun)
    cases s with
    | ok f =>
        obtain ⟨o, ho, rfl⟩ := Option.map_eq_some_iff.1 ha
        exact opening_slotB hv hactive ho
    | _ => cases ha
  refine ⟨?_, fun a ha ↦ ?_, fun r' hr' ↦ ?_⟩
  · rw [machine_phase]
    refine ⟨healthy_receive E K s hm.healthy, ?_, ?_, confirmed_receive E s hm.unconfirmed, ?_⟩
    · rw [hrec]; exact hv
    · rw [hrec]; exact hm.floor_le
    · intro hactive hne
      rw [hrec] at hactive
      -- nothing is opened and nothing is written with slot B active
      have hna : ¬(readConfig r.client.dev).activeSlot = slotA := by rw [hactive]; decide
      have hnone : openedSlot K r s = none := not_not.mp fun h ↦ hna (hopen h)
      have hsame : imageB K ⟨(receive E K r s).client.dev, (receive E K r s).client.shared⟩ =
          imageB K ⟨r.client.dev, r.client.shared⟩ :=
        SlotImage.ofMem_congr K fun x _ ↦ byte_receive E hv hr hopen fun h ↦ absurd h hna
      rw [hsame]
      rw [hnone] at hne
      exact hm.fresh hactive hne
  · rcases List.mem_append.1 ha with ha | ha
    · exact hnew a (Option.mem_toList.1 ha)
    · exact hstaged a ha
  · obtain ⟨rfl, hst⟩ := phase_eq_receiving hr'
    suffices h : ((receive E K r s).client.state.active = true →
        (readConfig r.client.dev).activeSlot = slotA) ∧
        (receive E K r s).client.state.Above slotBAddr from
      ⟨hst, fun ha ↦ by rw [hrec]; exact h.1 ha, h.2⟩
    unfold receive
    rcases receiveStep_client E K s r with hc | ⟨f, rfl, -, hc⟩
    · rw [hc]
      exact ⟨hr.active, hr.above⟩
    · rw [hc]
      rcases handleFrame_state E K f r.client with ⟨o, ho, hstate⟩ | ⟨w, q, hstate⟩
      · have hactive := hopen (by rw [openedSlot, ho]; exact nofun)
        obtain ⟨-, -, -, hslot, htail⟩ := opening_region ho
        rw [opening_slotB hv hactive ho] at hslot htail
        rw [hstate]
        exact ⟨fun _ ↦ hactive, fun _ ↦ ⟨Nat.le_of_eq hslot.symm, htail⟩⟩
      · rw [hstate]
        exact ⟨hr.active, hr.above⟩

/-- An event other than a reset. -/
theorem System.Guards.step (h : d.Guards K floor) (E : PatchEngine) {e : SystemEvent}
    (hne : e ≠ .softReset) (hopen : OpensBesideA K d e) : (d.step E K e).Guards K floor := by
  cases e with
  | softReset => exact absurd rfl hne
  | command cmd =>
      cases hp : d.phase with
      | menu m =>
          have hm := h.machine
          rw [hp] at hm
          rw [System.step, hp]
          refine ⟨by rw [machine_recoveryCommand]; exact hm, h.staged, fun r hr ↦ ?_⟩
          rw [recoveryCommand_eq_receiving hr]
          exact ⟨rfl, nofun, nofun⟩
      | _ => rw [System.step, hp]; exact h
  | frame s =>
      cases hp : d.phase with
      | receiving r =>
          have hm := h.machine
          rw [hp] at hm
          rw [System.step, hp]
          exact guards_receive E hm h.staged (h.session r hp) (hopen r s hp rfl)
      | _ => rw [System.step, hp]; exact h

/-- Only a reset changes the record. -/
theorem System.Guards.step_readConfig (h : d.Guards K floor) (E : PatchEngine) {e : SystemEvent}
    (hne : e ≠ .softReset) (hopen : OpensBesideA K d e) :
    readConfig (d.step E K e).phase.machine.dev = readConfig d.phase.machine.dev := by
  cases e with
  | softReset => exact absurd rfl hne
  | command cmd =>
      cases hp : d.phase with
      | menu m => rw [System.step, hp, machine_recoveryCommand]; rfl
      | _ => rw [System.step, hp]; exact congrArg (fun p ↦ readConfig (Phase.machine p).dev) hp
  | frame s =>
      cases hp : d.phase with
      | receiving r =>
          have hm := h.machine
          rw [hp] at hm
          rw [System.step, hp, machine_phase]
          exact readConfig_receive E hm.valid (h.session r hp) (hopen r s hp rfl)
      | _ => rw [System.step, hp]; exact congrArg (fun p ↦ readConfig (Phase.machine p).dev) hp

/-- With slot A active a guarded system meets the conditions up to the next reset. -/
theorem System.Guards.along (h : d.Guards K floor) (E : PatchEngine)
    (hactive : (readConfig d.phase.machine.dev).activeSlot = slotA) {events : List SystemEvent}
    (hne : ∀ e ∈ events, e ≠ .softReset) :
    Along (System.step E K) (fun d e ↦ OpensBesideA K d e ∧ KeepsActive K floor d e) d events := by
  induction events generalizing d with
  | nil => trivial
  | cons e events ih =>
      have he := hne e (List.mem_cons_self ..)
      have hopen : OpensBesideA K d e := fun r s hr _ _ ↦ by
        rw [hr] at hactive
        exact hactive
      refine ⟨⟨hopen, keepsActive_of_ne he⟩, ih (h.step E he hopen) ?_
        fun e' he' ↦ hne e' (List.mem_cons_of_mem _ he')⟩
      rw [h.step_readConfig E he hopen]
      exact hactive

end System

/-! ## Runs -/

section Runs

variable {σ : Type} [FlashBackend σ]

/-- A system before the first pass of a run, or a guarded one. -/
def System.Reached (K : KeyStore) (m : Machine σ) (d : System σ) : Prop :=
  d = ⟨.resetting m, []⟩ ∨
    d.Guards K (bootConfigAntidowngradeFloor (readConfig (flashInit m.dev)))

/-- The step lemma: under the conditions a system that has been reached makes no
downgrade and leads to another one. -/
theorem System.Reached.step {K : KeyStore} {m : Machine σ} (hp : Powered m.dev)
    (hv : bootConfigValidate (readConfig (flashInit m.dev)) = true) (E : PatchEngine)
    {d : System σ} (h : d.Reached K m) {e : SystemEvent} (hopen : OpensBesideA K d e)
    (hkeep : KeepsActive K (bootConfigAntidowngradeFloor (readConfig (flashInit m.dev))) d e) :
    NoDowngrade K (bootConfigAntidowngradeFloor (readConfig (flashInit m.dev))) d e ∧
      (d.step E K e).Reached K m := by
  rcases h with rfl | h
  · refine ⟨fun _ _ _ _ hmem ↦ absurd hmem List.not_mem_nil, ?_⟩
    cases e with
    | softReset =>
        refine .inr ⟨?_, fun a ha ↦ absurd ha List.not_mem_nil,
          fun r hr ↦ absurd hr (bootPhase_ne_receiving K m r)⟩
        rw [System.step, machine_bootPhase]
        exact guards_main hp hv (UInt32.le_refl _) fun _ hne ↦ absurd rfl hne
    | command cmd => exact .inl rfl
    | frame s => exact .inl rfl
  · by_cases he : e = .softReset
    · rw [he] at hkeep ⊢
      exact ⟨(h.reset E hkeep).2, .inr (h.reset E hkeep).1⟩
    · exact ⟨fun hr ↦ absurd hr he, .inr (h.step E he hopen)⟩

/-- **No downgrades.**  In every run from a reset with a valid record in which transfers
are opened only beside an active slot A, and slot A can be kept at every reset over a
staged image below the floor of that record, no pass jumps to a staged image below that
floor.  While transfers are opened only beside slot A, no other run is free of
downgrades. -/
theorem no_downgrade (E : PatchEngine) (K : KeyStore) (m : Machine σ) (hp : Powered m.dev)
    (hv : bootConfigValidate (readConfig (flashInit m.dev)) = true) (events : List SystemEvent) :
    let floor := bootConfigAntidowngradeFloor (readConfig (flashInit m.dev))
    (Along (System.step E K) (fun d e ↦ OpensBesideA K d e ∧ KeepsActive K floor d e)
        ⟨.resetting m, []⟩ events →
      Along (System.step E K) (NoDowngrade K floor) ⟨.resetting m, []⟩ events) ∧
    (Along (System.step E K) (OpensBesideA K) ⟨.resetting m, []⟩ events →
      Along (System.step E K) (NoDowngrade K floor) ⟨.resetting m, []⟩ events →
        Along (System.step E K) (KeepsActive K floor) ⟨.resetting m, []⟩ events) := by
  intro floor
  have hstart : System.Reached K m ⟨.resetting m, []⟩ := .inl rfl
  constructor
  · exact Along.mono_of_inv (I := System.Reached K m)
      (fun d e h hc ↦ h.step hp hv E hc.1 hc.2) hstart
  · intro hopen hno
    refine Along.mono_of_inv (I := System.Reached K m) (fun d e h hc ↦ ?_) hstart
      (along_and.2 ⟨hopen, hno⟩)
    have hkeep : KeepsActive K floor d e := by
      rcases h with rfl | h
      · exact fun _ hmem ↦ absurd hmem List.not_mem_nil
      · exact h.keepsActive hc.2
    exact ⟨hkeep, (h.step hp hv E hc.1 hkeep).2⟩

end Runs

/-! ## A refused image

With no slot to boot a pass leads to the menu.  From there a transfer whose END is
refused and an abort leave the image in slot B, and the next pass falls back to it. -/

section Refused

variable {E : PatchEngine} {K : KeyStore}

/-- The only way to the menu. -/
theorem main_recovers {σ : Type} [FlashBackend σ] {m : Machine σ} (hh : Healthy m.dev)
    (hv : bootConfigValidate (readConfig m.dev) = true) (hb : m.shared.confirmed = false)
    (hslotA : cryptoVerifyFirmware K (byte m.dev) slotAAddr = false)
    (hslotB : cryptoVerifyFirmware K (byte m.dev) slotBAddr = false) :
    main (onFlash σ K) m = (.recovery, ⟨m.dev, consumedBlock m.shared⟩) := by
  have hinit := flashInit_of_healthy hh
  obtain ⟨hpick, hwrites⟩ := pass_bothFailed (S := .ofMem K (byte m.dev)) hv hb hslotA hslotB
  rw [main_eq (onFlash_onSlots K) (m := m) (healthy_flashInit (powered_of_healthy hh))]
  dsimp only
  rw [flashInit_onFlash, hinit, readConfig_onFlash, hpick, hwrites]
  rfl

/-- From a reset of a device without an image to the menu. -/
theorem step_recovers {σ : Type} [FlashBackend σ] {m : Machine σ} (hh : Healthy m.dev)
    (hv : bootConfigValidate (readConfig m.dev) = true) (hb : m.shared.confirmed = false)
    (hslotA : cryptoVerifyFirmware K (byte m.dev) slotAAddr = false)
    (hslotB : cryptoVerifyFirmware K (byte m.dev) slotBAddr = false) :
    System.step E K ⟨.resetting m, []⟩ .softReset =
      ⟨.menu ⟨m.dev, consumedBlock m.shared⟩, []⟩ := by
  unfold System.step bootPhase Phase.machine
  dsimp only
  rw [main_recovers hh hv hb hslotA hslotB]

/-- And on to the receiver. -/
theorem foldl_upload {σ : Type} [FlashBackend σ] {m : Machine σ} (hh : Healthy m.dev)
    (hv : bootConfigValidate (readConfig m.dev) = true) (hb : m.shared.confirmed = false)
    (hslotA : cryptoVerifyFirmware K (byte m.dev) slotAAddr = false)
    (hslotB : cryptoVerifyFirmware K (byte m.dev) slotBAddr = false) :
    [SystemEvent.softReset, .command 85].foldl (System.step E K) ⟨.resetting m, []⟩ =
      ⟨.receiving (.enter m.dev (consumedBlock m.shared)), []⟩ := by
  rw [List.foldl_cons, step_recovers hh hv hb hslotA hslotB]
  rfl

/-- A receiver that is still running at the end has been all the way. -/
theorem receiving_of_foldl {r : Receiver Hw} {fs : List FrameStatus}
    (h : (fs.foldl (receive E K) r).status = .receiving) : r.status = .receiving := by
  induction fs generalizing r with
  | nil => exact h
  | cons s fs ih =>
      have hnext : (receive E K r s).status = .receiving := ih h
      by_contra hne
      rw [receive, receiveStep_ended hne] at hnext
      exact hne hnext

/-- A run of frames that open nothing. -/
theorem foldl_frames {r : Receiver Hw} (staged : List Nat) {fs : List FrameStatus}
    (hno : Along (receive E K) (NoOpening K) r fs)
    (hend : (fs.foldl (receive E K) r).status = .receiving) :
    (fs.map .frame).foldl (System.step E K) ⟨.receiving r, staged⟩ =
      ⟨.receiving (fs.foldl (receive E K) r), staged⟩ := by
  induction fs generalizing r with
  | nil => rfl
  | cons s fs ih =>
      have hrx : r.status = .receiving :=
        receiving_of_foldl (show ((s :: fs).foldl (receive E K) r).status = .receiving from hend)
      have hnext : (receive E K r s).status = .receiving := receiving_of_foldl hend
      have hnone : openedSlot K r s = none := by
        cases s with
        | ok f => rw [openedSlot, hno.1 f rfl hrx]; rfl
        | _ => rfl
      rw [List.map_cons, List.foldl_cons, step_receiving hnext, hnone]
      exact ih hno.2 hend

/-- An abort. -/
def abortFrame (seq : UInt16) : OtaFrame := ⟨otaOpAbort, seq, [], Nat.zero_le _⟩

/-- It leads back to the menu. -/
theorem step_abort {r : Receiver Hw} {staged : List Nat} {seq : UInt16}
    (hrx : r.status = .receiving) :
    System.step E K ⟨.receiving r, staged⟩ (.frame (.ok (abortFrame seq))) =
      ⟨.menu ⟨r.client.dev, r.client.shared⟩, staged⟩ := by
  have hreturned : receive E K r (.ok (abortFrame seq)) = { r with status := .returned } := by
    unfold receive receiveStep
    rw [if_neg (not_not.mpr hrx)]
    rfl
  rw [System.step]
  dsimp only
  rw [hreturned]
  rfl

/-- A refused frame that is not one error too many. -/
theorem receive_refused {r : Receiver Hw} {f : OtaFrame} (hrx : r.status = .receiving)
    (hop : f.op ≠ otaOpAbort) (herrs : r.consecErrs + 1 < maxConsecErrs)
    (hfail : (handleFrame E K f r.client).1 = false) :
    (receive E K r (.ok f)).status = .receiving ∧
      (receive E K r (.ok f)).client = (handleFrame E K f r.client).2 := by
  rw [receive, (receiveStep_ok hrx hop).2 hfail]
  exact ⟨(if_pos herrs).trans hrx, rfl⟩

/-- An acknowledged START beside slot A opens slot B. -/
theorem openedSlot_slotB {σ : Type} [FlashBackend σ] {r : Receiver σ} {start : OtaFrame}
    (hv : bootConfigValidate (readConfig r.client.dev) = true)
    (hactive : (readConfig r.client.dev).activeSlot = slotA) (hop : start.op = otaOpStart)
    (hack : isAcked (receiveStep E K (.ok start) r).1 = true) :
    openedSlot K r (.ok start) = some slotBAddr := by
  obtain ⟨o, ho, -, -⟩ := opened_of_acked hop hack
  rw [openedSlot, ho, Option.map_some, opening_slotB hv hactive ho]

/-- What a transfer to slot B leaves in front of the slot when it comes to its END: the
rest of the sector is erased, and nothing has changed below it. -/
theorem beforeEnd_slotB {r : Receiver Hw} {start : OtaFrame} {events : List FrameStatus}
    (hh : r.client.dev.Healthy) (hv : bootConfigValidate (readConfig r.client.dev) = true)
    (hactive : (readConfig r.client.dev).activeSlot = slotA) (hop : start.op = otaOpStart)
    (hack : isAcked (receiveStep E K (.ok start) r).1 = true)
    (hno : Along (receive E K) (NoOpening K) (receive E K r (.ok start)) events) :
    (beforeEnd E K r start events).client.dev.Healthy ∧
      (beforeEnd E K r start events).client.state.slotAddr = slotBAddr ∧
      (∀ x < kSectorStart 8,
        byte (beforeEnd E K r start events).client.dev x = byte r.client.dev x) ∧
      ∀ x, kSectorStart 8 ≤ x → x < slotBAddr →
        byte (beforeEnd E K r start events).client.dev x = 0xFF := by
  obtain ⟨o, ho, -, hc⟩ := opened_of_acked hop hack
  obtain ⟨-, hpos, hle, hslot, htail⟩ := opening_region ho
  rw [opening_slotB hv hactive ho] at hc hslot htail
  have habove : (receive E K r (.ok start)).client.state.Above slotBAddr := by
    rw [hc]
    exact fun _ ↦ ⟨Nat.le_of_eq hslot.symm, htail⟩
  obtain ⟨hh₂, ⟨w, q, hst⟩, hfr⟩ := beforeEnd_frame hno (healthy_receive E K _ hh) habove
  refine ⟨hh₂, ?_, fun x hx ↦ ?_, fun x h₁ h₂ ↦ ?_⟩
  · rw [hst, hc]
    exact hslot
  · rw [hfr x (Nat.lt_of_lt_of_le hx (by decide)), hc]
    exact erase_frame _ (not_covered_below_slotB hx)
  · have hflash := slot_in_flash slotB
    rw [memoryMapSlotAddr_slotB] at hflash
    rw [hfr x h₂, hc]
    exact (Hw.flashEraseRange_of_healthy hh hflash.1 hpos (by omega)).2 x
      (covered_before_slotB h₁ (by omega)) (by omega)

/-- END refuses an image below the floor, and leaves it where it is. -/
theorem receive_end_old (E : PatchEngine) {img : SignedImage K} {r : Receiver Hw}
    {frames : List OtaFrame} (hready : r.Ready img.bytes.length frames 0) (hne : frames ≠ [])
    (hwritten : r.client.state.written = img.bytes.length)
    (hstaged : (byte r.client.dev).read r.client.state.slotAddr img.bytes.length = img.bytes)
    (hv : bootConfigValidate (readConfig r.client.dev) = true)
    (hold : img.header.version < bootConfigAntidowngradeFloor (readConfig r.client.dev)) :
    (receive E K r (.ok (endFrame 0))).status = .receiving ∧
      (receive E K r (.ok (endFrame 0))).client.dev = r.client.dev := by
  have htook := hready.took.client hne
  have hfail : (handleFrame E K (endFrame 0) r.client).1 = false := by
    rw [handleFrame_end E K _ rfl, handleEnd_staged E htook hwritten hstaged,
      loadedOn_of_valid K hv, Bool.eq_false_iff]
    intro hallowed
    rw [bootConfigFirmwareAllowed_iff] at hallowed
    exact absurd hallowed (Nat.not_le.2 (UInt32.lt_iff_toNat_lt.1 hold))
  obtain ⟨hstatus, hclient⟩ := receive_refused hready.receiving
    (show (endFrame 0).op ≠ otaOpAbort by decide) (by rw [hready.errs]; decide) hfail
  refine ⟨hstatus, ?_⟩
  rw [hclient, handleFrame_end E K _ rfl, (handleEnd_frame E K r.client).2 htook.kind]

/-- What a refused transfer sends. -/
def refusedFrames (image : List UInt8) (chunk : ChunkSize) : List SystemEvent :=
  .frame (.ok (startFrame image.length)) ::
    ((imageFrames image chunk).map FrameStatus.ok).map .frame ++
    [.frame (.ok (endFrame 0)), .frame (.ok (abortFrame 0))]

/-- A transfer of an image below the floor, next to an active slot A: END refuses it,
and it stays in slot B. -/
theorem refused_transfer (E : PatchEngine) (img : SignedImage K) (chunk : ChunkSize)
    {r : Receiver Hw}
    (hrx : r.status = .receiving) (hh : r.client.dev.Healthy)
    (hconfirmed : r.client.shared.confirmed = false)
    (hv : bootConfigValidate (readConfig r.client.dev) = true)
    (hactive : (readConfig r.client.dev).activeSlot = slotA)
    (hold : img.header.version < bootConfigAntidowngradeFloor (readConfig r.client.dev)) :
    ∃ m, (refusedFrames img.bytes chunk).foldl (System.step E K) ⟨.receiving r, []⟩ =
        ⟨.menu m, [slotBAddr]⟩ ∧
      m.dev.Healthy ∧ m.shared.confirmed = false ∧
      (∀ x < kSectorStart 8, byte m.dev x = byte r.client.dev x) ∧
      (∀ x, kSectorStart 8 ≤ x → x < slotBAddr → byte m.dev x = 0xFF) ∧
      (byte m.dev).read slotBAddr img.bytes.length = img.bytes := by
  obtain ⟨hopen, hack, hno, hready, hstaged, hwritten⟩ := staged_of_healthy E img chunk hrx hh
  obtain ⟨hh₂, hslot, hbelow, herased⟩ := beforeEnd_slotB hh hv hactive rfl hack hno
  have hshared : (beforeEnd E K r (startFrame img.bytes.length)
      ((imageFrames img.bytes chunk).map .ok)).client.shared.confirmed = false :=
    inv_of_along (I := fun r : Receiver Hw ↦ r.client.shared.confirmed = false)
      (fun r s h _ ↦ confirmed_receive E s h) (confirmed_receive E _ hconfirmed) hno
  -- START goes on to the DATA frames, and these to END
  have hstart : System.step E K ⟨.receiving r, []⟩ (.frame (.ok (startFrame img.bytes.length))) =
      ⟨.receiving (receive E K r (.ok (startFrame img.bytes.length))), [slotBAddr]⟩ := by
    rw [step_receiving hopen.receiving, openedSlot_slotB hv hactive rfl hack]
    rfl
  have hdata := foldl_frames [slotBAddr] hno hready.receiving
  change _ = (⟨.receiving (beforeEnd E K r (startFrame img.bytes.length)
    ((imageFrames img.bytes chunk).map .ok)), [slotBAddr]⟩ : System Hw) at hdata
  generalize beforeEnd E K r (startFrame img.bytes.length)
    ((imageFrames img.bytes chunk).map .ok) = r₂ at *
  have hrec : readConfig r₂.client.dev = readConfig r.client.dev :=
    BootConfig.ofMem_congr fun x hx ↦ hbelow x (Nat.lt_trans hx.2 (by decide))
  obtain ⟨hstatus, hdev⟩ := receive_end_old E hready (List.cons_ne_nil _ _) hwritten hstaged
    (hrec.symm ▸ hv) (hrec.symm ▸ hold)
  have hshared₃ := confirmed_receive (K := K) E (.ok (endFrame 0)) hshared
  refine ⟨⟨(receive E K r₂ (.ok (endFrame 0))).client.dev,
    (receive E K r₂ (.ok (endFrame 0))).client.shared⟩, ?_, ?_, hshared₃, ?_, ?_, ?_⟩
  · rw [refusedFrames, List.cons_append, List.foldl_cons, hstart, List.foldl_append, hdata,
      List.foldl_cons, step_receiving hstatus, List.foldl_cons]
    exact step_abort hstatus
  · rw [hdev]; exact hh₂
  · rw [hdev]; exact hbelow
  · rw [hdev]; exact herased
  · rw [hdev, ← hslot]; exact hstaged

/-- From a reset to the menu, a refused transfer and a reboot. -/
def refusedUpload (image : List UInt8) (chunk : ChunkSize) : List SystemEvent :=
  [.softReset, .command 85] ++ refusedFrames image chunk ++ [.command 82]

/-- The same, and the pass after it. -/
def refusedRun (image : List UInt8) (chunk : ChunkSize) : List SystemEvent :=
  refusedUpload image chunk ++ [.softReset]

/-- With slot A active and no slot that verifies, a refused image is in slot B before the pass
after the transfer, and sector 8 is erased in front of it. -/
theorem foldl_refusedUpload (E : PatchEngine) (img : SignedImage K) (chunk : ChunkSize)
    {m : Machine Hw} (hh : m.dev.Healthy) (hconfirmed : m.shared.confirmed = false)
    (hv : bootConfigValidate (readConfig m.dev) = true)
    (hactive : (readConfig m.dev).activeSlot = slotA)
    (hslotA : cryptoVerifyFirmware K (byte m.dev) slotAAddr = false)
    (hslotB : cryptoVerifyFirmware K (byte m.dev) slotBAddr = false)
    (hold : img.header.version < bootConfigAntidowngradeFloor (readConfig m.dev)) :
    ∃ m', (refusedUpload img.bytes chunk).foldl (System.step E K) ⟨.resetting m, []⟩ =
        ⟨.resetting m', [slotBAddr]⟩ ∧
      m'.dev.Healthy ∧ m'.shared.confirmed = false ∧ readConfig m'.dev = readConfig m.dev ∧
      (∀ x < kSectorStart 8, byte m'.dev x = byte m.dev x) ∧
      (∀ x, kSectorStart 8 ≤ x → x < slotBAddr → byte m'.dev x = 0xFF) ∧
      imageB K m' = .ofSigned img := by
  obtain ⟨m', hrun, hh', hconfirmed', hbelow, hend, hstaged⟩ :=
    refused_transfer E img chunk (r := .enter m.dev (consumedBlock m.shared)) rfl hh rfl hv hactive
      hold
  refine ⟨m', ?_, hh', hconfirmed', ?_, hbelow, hend, SlotImage.ofMem_eq_ofSigned hstaged⟩
  · rw [refusedUpload, List.foldl_append, List.foldl_append,
      foldl_upload hh hv hconfirmed hslotA hslotB, hrun]
    rfl
  · exact BootConfig.ofMem_congr fun x hx ↦ hbelow x (Nat.lt_trans hx.2 (by decide))

/-- With slot A active and erased and nothing in slot B, an image that END refuses for
its version is booted by the pass after the transfer. -/
theorem refused_is_booted (E : PatchEngine) (img : SignedImage K) (chunk : ChunkSize)
    {m : Machine Hw} (hh : m.dev.Healthy) (hconfirmed : m.shared.confirmed = false)
    (hv : bootConfigValidate (readConfig m.dev) = true)
    (hactive : (readConfig m.dev).activeSlot = slotA)
    (herased : ∀ x, slotAAddr ≤ x → x < slotAAddr + firmwareHeaderSize → byte m.dev x = 0xFF)
    (hslotB : cryptoVerifyFirmware K (byte m.dev) slotBAddr = false)
    (hold : img.header.version < bootConfigAntidowngradeFloor (readConfig m.dev)) :
    ¬Along (System.step E K) (NoDowngrade K (bootConfigAntidowngradeFloor (readConfig m.dev)))
      ⟨.resetting m, []⟩ (refusedRun img.bytes chunk) := by
  obtain ⟨m', hrun, hh', hconfirmed', hrec, hbelow, -, himage⟩ := foldl_refusedUpload E img chunk hh
    hconfirmed hv hactive (cryptoVerifyFirmware_erased K herased) hslotB hold
  intro halong
  rw [refusedRun, along_append, hrun] at halong
  -- slot A is still erased, and the image is in slot B
  have hslotA : cryptoVerifyFirmware K (byte m'.dev) slotAAddr = false := by
    refine cryptoVerifyFirmware_erased K fun x h₁ h₂ ↦ ?_
    rw [hbelow x (Nat.lt_trans h₂ (by decide))]
    exact herased x h₁ h₂
  have hguards : m'.Guards K (bootConfigAntidowngradeFloor (readConfig m.dev)) [slotBAddr] := by
    refine ⟨hh', ?_, ?_, hconfirmed', fun hb ↦ ?_⟩
    · rw [hrec]; exact hv
    · rw [hrec]; exact UInt32.le_refl _
    · rw [hrec, hactive] at hb
      exact absurd hb (by decide)
  obtain ⟨hjump, hversion⟩ := hguards.boots_old (hrec.symm ▸ hactive)
    (by rw [himage]; exact ⟨rfl, hold⟩) fun hkeep ↦ Bool.false_ne_true (hslotA.symm.trans hkeep.1)
  rw [himage] at hversion
  exact absurd (halong.2.1 rfl slotBAddr _ hjump (List.mem_singleton_self _) hversion)
    (UInt32.not_le.2 hold)

theorem refusedFrames_ne_softReset {image : List UInt8} {chunk : ChunkSize} {e : SystemEvent}
    (he : e ∈ refusedFrames image chunk) : e ≠ .softReset := by
  rintro rfl
  simp [refusedFrames] at he

/-- Where the erase in front of slot B makes slot A whole again, the run meets the conditions. -/
theorem refusedRun_conditions (E : PatchEngine) (img : SignedImage K) (chunk : ChunkSize)
    {m : Machine Hw} (hh : m.dev.Healthy) (hconfirmed : m.shared.confirmed = false)
    (hv : bootConfigValidate (readConfig m.dev) = true)
    (hactive : (readConfig m.dev).activeSlot = slotA)
    (hattempts : (readConfig m.dev).bootAttempts < maxBootAttempts)
    (hslotA : cryptoVerifyFirmware K (byte m.dev) slotAAddr = false)
    (hslotB : cryptoVerifyFirmware K (byte m.dev) slotBAddr = false)
    (hold : img.header.version < bootConfigAntidowngradeFloor (readConfig m.dev))
    (hwhole : ∀ m' : Mem, (∀ x < kSectorStart 8, m' x = byte m.dev x) →
      (∀ x, kSectorStart 8 ≤ x → x < slotBAddr → m' x = 0xFF) →
        cryptoVerifyFirmware K m' slotAAddr = true) :
    Along (System.step E K) (fun d e ↦ OpensBesideA K d e ∧
        KeepsActive K (bootConfigAntidowngradeFloor (readConfig m.dev)) d e)
      ⟨.resetting m, []⟩ (refusedRun img.bytes chunk) := by
  obtain ⟨m', hrun, -, -, hrec, hbelow, hend, -⟩ :=
    foldl_refusedUpload E img chunk hh hconfirmed hv hactive hslotA hslotB hold
  rw [refusedRun, along_append, hrun]
  refine ⟨⟨⟨opensBesideA_of_ne nofun, fun _ hmem ↦ absurd hmem List.not_mem_nil⟩, ?_⟩,
    ⟨opensBesideA_of_ne nofun, fun _ _ _ _ ↦ ⟨hwhole _ hbelow hend, ?_⟩⟩, trivial⟩
  · rw [step_recovers hh hv hconfirmed hslotA hslotB]
    have hguards : System.Guards K (bootConfigAntidowngradeFloor (readConfig m.dev))
        ⟨.menu ⟨m.dev, consumedBlock m.shared⟩, []⟩ :=
      ⟨⟨hh, hv, UInt32.le_refl _, rfl, fun _ hne ↦ absurd rfl hne⟩, nofun, nofun⟩
    refine hguards.along E hactive fun e he ↦ ?_
    rcases List.mem_append.1 he with he | he
    · rcases List.mem_cons.1 he with rfl | he
      · exact nofun
      · exact refusedFrames_ne_softReset he
    · rw [List.mem_singleton.1 he]
      exact nofun
  · show (readConfig m'.dev).bootAttempts < maxBootAttempts
    rw [hrec]
    exact hattempts

/-- Slot A has been at version 2.0; both slots are erased. -/
def newerRecord : BootConfig :=
  bootConfigStampCrc { bootConfigDefault with slotAVersion := 0x20000 }

def newerMem : Mem := Mem.write (fun _ ↦ 0xFF) bootConfigAddr newerRecord.toBytes

theorem readConfig_newerMem : readConfig (Hw.reset newerMem) = newerRecord :=
  BootConfig.ofMem_of_read (Mem.read_write _ _ _)

theorem newerMem_erased {x : Nat} (hx : slotAAddr ≤ x) : newerMem x = 0xFF :=
  Mem.write_of_notMem _ _ _ _ (.inr (Nat.le_trans (by decide) hx))

theorem validate_newerRecord : bootConfigValidate newerRecord = true := by
  rw [newerRecord, bootConfigValidate_stampCrc]; rfl

/-- Version 1 is refused by END and booted, over a floor of `0x20000`. -/
theorem downgrade_after_refusal :
    bootConfigValidate (readConfig (Hw.reset newerMem)) = true ∧
      bootConfigAntidowngradeFloor (readConfig (Hw.reset newerMem)) = 0x20000 ∧
      ¬Along (System.step refusingEngine sampleKeys)
        (NoDowngrade sampleKeys (bootConfigAntidowngradeFloor (readConfig (Hw.reset newerMem))))
        ⟨.resetting ⟨Hw.reset newerMem, .zero⟩, []⟩
          (refusedRun (sampleImage 1).bytes wholeChunk) := by
  have hcfg := readConfig_newerMem
  have hfloor : bootConfigAntidowngradeFloor newerRecord = 0x20000 := rfl
  have hAB := slotA_before_slotB
  refine ⟨hcfg ▸ validate_newerRecord, hcfg ▸ hfloor, ?_⟩
  have hold : (sampleImage 1).header.version <
      bootConfigAntidowngradeFloor (readConfig (Hw.reset newerMem)) := by
    rw [hcfg, hfloor, header_sampleImage, version_sampleHeader]
    decide
  exact refused_is_booted (m := ⟨Hw.reset newerMem, .zero⟩) refusingEngine (sampleImage 1)
    wholeChunk
    (Hw.healthy_reset newerMem) rfl (hcfg ▸ validate_newerRecord)
    (congrArg BootConfig.activeSlot hcfg) (fun x h _ ↦ newerMem_erased h)
    (cryptoVerifyFirmware_erased _ fun x h _ ↦ newerMem_erased (by omega)) hold

/-! ### A kept slot A

Slot A ends in the sector that slot B begins in.  An image whose end there is blank and
damaged is made whole by the erase of a transfer to slot B. -/

/-- Version 2.0, with a blank payload up to the end of the slot. -/
def fullImage : SignedImage sampleKeys :=
  sampleImageOf 0x20000 (List.replicate firmwareMaxPayloadSize 0xFF)
    (by rw [List.length_replicate]; decide)

theorem imageSize_fullImage : fullImage.header.imageSize.toNat = firmwareMaxPayloadSize :=
  fullImage.length_payload.symm.trans List.length_replicate

/-- The image in slot A, its last byte damaged. -/
def damagedMem : Mem :=
  Function.update (Mem.write newerMem slotAAddr fullImage.header.bytes) (slotBAddr - 1) 0

theorem damagedMem_record {x : Nat} (hx : x < slotAAddr) : damagedMem x = newerMem x := by
  have hAB : slotAAddr < slotBAddr := by decide
  rw [damagedMem, Function.update_of_ne (by omega)]
  exact Mem.write_of_notMem _ _ _ _ (.inl hx)

theorem damagedMem_blank {x : Nat} (hx : slotAAddr + firmwareHeaderSize ≤ x)
    (hne : x ≠ slotBAddr - 1) : damagedMem x = 0xFF := by
  rw [damagedMem, Function.update_of_ne hne,
    Mem.write_of_notMem _ _ _ _ (.inr (by rw [fullImage.header.length_bytes]; exact hx))]
  exact newerMem_erased (Nat.le_trans (Nat.le_add_right _ _) hx)

/-- What agrees with it in front of the sector has the header. -/
theorem read_header_damagedMem {m : Mem} (hm : ∀ x < kSectorStart 8, m x = damagedMem x) :
    m.read slotAAddr firmwareHeaderSize = fullImage.header.bytes := by
  have hend : slotAAddr + firmwareHeaderSize ≤ kSectorStart 8 ∧ kSectorStart 8 < slotBAddr := by
    decide
  have hread := Mem.read_write newerMem slotAAddr fullImage.header.bytes
  rw [fullImage.header.length_bytes] at hread
  rw [← hread]
  refine Mem.read_congr fun x hx ↦ ?_
  have hlt : x < kSectorStart 8 := Nat.lt_of_lt_of_le hx.2 hend.1
  rw [hm x hlt]
  exact Function.update_of_ne (by omega) _ _

/-- One damaged byte fails the CRC. -/
theorem damagedMem_not_verifies :
    cryptoVerifyFirmware sampleKeys damagedMem slotAAddr = false := by
  have hheader : FirmwareHeader.ofMem damagedMem slotAAddr = fullImage.header :=
    FirmwareHeader.ext (read_header_damagedMem fun _ _ ↦ rfl)
  obtain ⟨n, hn⟩ : ∃ n, firmwareMaxPayloadSize = n + 1 := ⟨_, rfl⟩
  have hlast : slotAAddr + firmwareHeaderSize + n = slotBAddr - 1 := by
    have hfit : slotAAddr + firmwareHeaderSize + firmwareMaxPayloadSize = slotBAddr := by decide
    omega
  have hread : damagedMem.read (slotAAddr + firmwareHeaderSize) (n + 1) =
      List.replicate n 0xFF ++ [0] ++ [] := by
    rw [Mem.read_add, Mem.read_eq_replicate fun x h₁ h₂ ↦ damagedMem_blank h₁ (by omega), hlast,
      List.append_nil]
    exact congrArg (fun b ↦ List.replicate n 0xFF ++ [b]) (Function.update_self (slotBAddr - 1) 0 _)
  have hburst : Burst (List.replicate n 0xFF ++ [0] ++ [])
      (List.replicate n 0xFF ++ [0xFF] ++ []) :=
    burst_of_bytes rfl (by decide) (by decide)
  have hcrc : crc32 (List.replicate n 0xFF ++ [0] ++ []) ≠ fullImage.header.crc32 := by
    rw [show fullImage.header.crc32 = crc32 (List.replicate firmwareMaxPayloadSize 0xFF) from
      crc32_sampleHeaderOf .., hn, List.replicate_succ']
    simpa only [List.append_nil] using hburst.crc32_ne
  rw [cryptoVerifyFirmware_eq, hheader, imageSize_fullImage, hn, hread, acceptsImage,
    beq_eq_false_iff_ne.2 hcrc, Bool.and_false, Bool.false_and, Bool.false_and]

/-- With the sector erased in front of slot B the image is whole. -/
theorem damagedMem_erased_verifies {m : Mem} (hbelow : ∀ x < kSectorStart 8, m x = damagedMem x)
    (hend : ∀ x, kSectorStart 8 ≤ x → x < slotBAddr → m x = 0xFF) :
    cryptoVerifyFirmware sampleKeys m slotAAddr = true := by
  have hfit : slotAAddr + firmwareHeaderSize + firmwareMaxPayloadSize = slotBAddr := by decide
  have hsector : kSectorStart 8 < slotBAddr := by decide
  have hblank : ∀ x, slotAAddr + firmwareHeaderSize ≤ x → x < slotBAddr → m x = 0xFF := by
    intro x h₁ h₂
    by_cases hx : x < kSectorStart 8
    · rw [hbelow x hx]
      exact damagedMem_blank h₁ (by omega)
    · exact hend x (Nat.not_lt.1 hx) h₂
  have himage : m.read slotAAddr fullImage.bytes.length = fullImage.bytes := by
    rw [fullImage.length_bytes, imageSize_fullImage, Mem.read_add, read_header_damagedMem hbelow,
      Mem.read_eq_replicate fun x h₁ h₂ ↦ hblank x h₁ (hfit ▸ h₂)]
    rfl
  exact SignedImage.verifies himage

theorem ofMem_damagedMem : BootConfig.ofMem damagedMem = newerRecord :=
  (BootConfig.ofMem_congr fun _ hx ↦ damagedMem_record (Nat.lt_trans hx.2 (by decide))).trans
    readConfig_newerMem

/-- The same refused transfer beside the image that its erase makes whole. -/
theorem no_downgrade_kept :
    Along (System.step refusingEngine sampleKeys)
      (NoDowngrade sampleKeys (bootConfigAntidowngradeFloor (readConfig (Hw.reset damagedMem))))
      ⟨.resetting ⟨Hw.reset damagedMem, .zero⟩, []⟩
      (refusedRun (sampleImage 1).bytes wholeChunk) := by
  have hrecord := ofMem_damagedMem
  have hslotA := damagedMem_not_verifies
  have hwhole := @damagedMem_erased_verifies
  have hslotB : cryptoVerifyFirmware sampleKeys damagedMem slotBAddr = false :=
    cryptoVerifyFirmware_erased _ fun x h _ ↦ damagedMem_blank (Nat.le_trans (by decide) h)
      (Nat.ne_of_gt (Nat.lt_of_lt_of_le (by decide) h))
  generalize damagedMem = mem at *
  have hcfg : readConfig (Hw.reset mem) = newerRecord := hrecord
  have hv : bootConfigValidate (readConfig (Hw.reset mem)) = true := hcfg ▸ validate_newerRecord
  have hold : (sampleImage 1).header.version <
      bootConfigAntidowngradeFloor (readConfig (Hw.reset mem)) := by
    rw [hcfg, header_sampleImage, version_sampleHeader]
    decide
  have hattempts : (readConfig (Hw.reset mem)).bootAttempts < maxBootAttempts := by
    rw [hcfg]
    decide
  have hconditions := refusedRun_conditions (m := ⟨Hw.reset mem, .zero⟩) refusingEngine
    (sampleImage 1) wholeChunk (Hw.healthy_reset mem) rfl hv (congrArg BootConfig.activeSlot hcfg)
    hattempts hslotA hslotB hold fun _ ↦ hwhole
  exact (no_downgrade refusingEngine sampleKeys ⟨Hw.reset mem, .zero⟩ (Hw.healthy_reset mem) hv
    (refusedRun (sampleImage 1).bytes wholeChunk)).1 hconditions

end Refused

end DualBank
