import DualBank.Boot.Floor
import DualBank.Config.Torn
import DualBank.Ota.Atomic

/-!
# The anti-downgrade floor over runs

Runs of passes and transfers on the hardware backend, each on a supply that may fail at
any step.  The floor in force at a boot is carried by the record as long as the record
survives.  A save that is torn loses it, and so does a transfer to slot A, whose first
sector is that of the record; the floor is then rebuilt from what the slots hold.
-/

namespace DualBank

open Lib FlashBackend BootConfig

/-! ## Saves that keep the slots -/

/-- The platform over the flash, with saves that leave the contents of the slots alone. -/
def keepingSlots (K : KeyStore) : Platform Hw :=
  { onFlash Hw K with
    bootConfigSave := fun cfg s ↦
      let r := bootConfigSave cfg s
      (r.1, { r.2 with
        mem := fun x ↦
          if slotAAddr ≤ x ∧ x < slotBAddr + slotSize then s.mem x else r.2.mem x }) }

section KeepingSlots

variable (K : KeyStore)

theorem keepingSlots_onSlots :
    (keepingSlots K).OnSlots (fun _ ↦ True) (fun s ↦ .ofMem K s.mem) id where
  verify slot s _ := (onFlash_sees K).verify slot s trivial
  readHeader slot s _ := (onFlash_sees K).readHeader slot s trivial
  save cfg s _ := by
    have hAB := slotA_before_slotB
    refine ⟨trivial, ?_⟩
    have hkept : ∀ slotAddr, slotAAddr ≤ slotAddr → slotAddr ≤ slotBAddr →
        SlotImage.ofMem K ((keepingSlots K).bootConfigSave cfg s).2.mem slotAddr =
          .ofMem K s.mem slotAddr := fun slotAddr h₁ h₂ ↦
      SlotImage.ofMem_congr K fun x hx ↦
        if_pos ⟨Nat.le_trans h₁ hx.1, Nat.lt_of_lt_of_le hx.2 (Nat.add_le_add_right h₂ _)⟩
    rw [id, Slots.ofMem, hkept slotAAddr (Nat.le_refl _) (by omega),
      hkept slotBAddr (by omega) (Nat.le_refl _)]
    rfl

/-- Such a save does to the record what the real one does. -/
theorem keepingSlots_record (cfg : BootConfig) (s : Hw) {x : Nat} (hx : x < slotAAddr) :
    ((keepingSlots K).bootConfigSave cfg s).2.mem x = (bootConfigSave cfg s).2.mem x :=
  if_neg fun h ↦ absurd h.1 (Nat.not_le.2 hx)

/-- The record lies in front of the slots. -/
theorem lt_slotA_of_record {x : Nat} (hx : x < bootConfigAddr + bootConfigRecordSize) :
    x < slotAAddr := Nat.lt_of_lt_of_le hx (by decide)

theorem readConfig_keepingSlots (cfg : BootConfig) (s : Hw) :
    readConfig ((keepingSlots K).bootConfigSave cfg s).2 = readConfig (bootConfigSave cfg s).2 :=
  BootConfig.ofMem_congr fun _ hx ↦ keepingSlots_record K cfg s (lt_slotA_of_record hx.2)

/-- Saves of records with a floor of at least `n` keep the floor of the record, torn or not. -/
theorem saveAll_recordFloor {n : Nat} {s : Hw} (h : RecordFloor n (readConfig s))
    {ws : List BootConfig} (hws : ∀ w ∈ ws, w.magic = bootConfigMagic ∧
      n ≤ (bootConfigAntidowngradeFloor w).toNat) :
    RecordFloor n (readConfig (saveAll (keepingSlots K) ws s)) := by
  induction ws generalizing s with
  | nil => exact h
  | cons w ws ih =>
      refine ih (s := ((keepingSlots K).bootConfigSave w s).2) ?_
        fun w' hw' ↦ hws w' (List.mem_cons_of_mem w hw')
      obtain ⟨hmag, hn⟩ := hws w List.mem_cons_self
      rw [readConfig_keepingSlots]
      rcases bootConfigSave_torn hmag s with e | e | e
      · rw [e]; exact h
      · intro hv
        rw [e] at hv
        cases hv
      · rw [e]; exact fun _ ↦ hn

end KeepingSlots

/-! ## The record in a transfer -/

/-- The record is that of `m₀`, or its bytes are erased. -/
def RecordKept (m₀ m : Mem) : Prop :=
  Set.EqOn m m₀ (Set.Ico bootConfigAddr (bootConfigAddr + bootConfigRecordSize)) ∨
    ∀ x ∈ Set.Ico bootConfigAddr (bootConfigAddr + bootConfigRecordSize), m x = 0xFF

/-- So an intact record has its floor still. -/
theorem RecordKept.recordFloor {m₀ m : Mem} (h : RecordKept m₀ m) {n : Nat}
    (hn : RecordFloor n (BootConfig.ofMem m₀)) : RecordFloor n (BootConfig.ofMem m) := by
  rcases h with h | h
  · rw [BootConfig.ofMem_congr h]
    exact hn
  · intro hv
    obtain ⟨x, h₁, h₂, hne⟩ := exists_config_ne_erased hv
    exact absurd (h x ⟨h₁, h₂⟩) hne

theorem RecordKept.congr {m₀ m m' : Mem} (h : RecordKept m₀ m)
    (he : Set.EqOn m' m (Set.Ico bootConfigAddr (bootConfigAddr + bootConfigRecordSize))) :
    RecordKept m₀ m' := by
  rcases h with h | h
  · exact .inl (he.trans h)
  · exact .inr fun x hx ↦ (he hx).trans (h x hx)

/-- The record is erased as a whole, with its sector, or not at all. -/
theorem RecordKept.flashEraseRange {m₀ : Mem} {s : Hw} (h : RecordKept m₀ s.mem)
    (addr size : Nat) : RecordKept m₀ (Hw.flashEraseRange addr size s).2.mem := by
  refine eraseRangeWith_inv Hw.flashEraseSector_refuses (I := fun t ↦ RecordKept m₀ t.mem)
    (fun i hi _ _ t ht ↦ ?_) h
  rcases (Hw.flashEraseSector_cases hi t).1 with hm | hm
  · rw [hm]; exact ht
  · rw [hm]
    have hrecord : bootConfigAddr = kSectorStart 4 ∧ bootConfigRecordSize ≤ kSectorSize 4 := by
      decide
    by_cases h4 : i = 4
    · subst h4
      exact .inr fun x hx ↦ Mem.fill_of_mem _ _ (by have := hx.1; omega) (by have := hx.2; omega)
    · refine ht.congr fun x hx ↦ Mem.fill_of_notMem _ _ ?_
      have hdisjoint : ∀ i < 12, i ≠ 4 → kSectorStart i + kSectorSize i ≤ kSectorStart 4 ∨
          kSectorStart 4 + kSectorSize 4 ≤ kSectorStart i := by decide
      have hi4 := hdisjoint i hi h4
      have h₁ := hx.1
      have h₂ := hx.2
      omega

/-- An open session programs only the slots, and the record is kept. -/
structure Receiver.KeepsRecord (m₀ : Mem) (r : Receiver Hw) : Prop where
  above : r.client.state.Above slotAAddr
  record : RecordKept m₀ r.client.dev.mem

theorem Receiver.KeepsRecord.step {m₀ : Mem} {r : Receiver Hw} (h : r.KeepsRecord m₀)
    (E : PatchEngine) (K : KeyStore) (s : FrameStatus) : (receive E K r s).KeepsRecord m₀ := by
  have hle : ∀ slot, slotAAddr ≤ memoryMapSlotAddr slot := fun slot ↦ by
    rcases memoryMapSlotAddr_cases slot with e | e
    · rw [e]
    · rw [e]; decide
  unfold receive
  rcases receiveStep_client E K s r with hc | ⟨f, rfl, -, hc⟩
  · exact ⟨hc ▸ h.above, hc ▸ h.record⟩
  · constructor
    · rw [hc]
      rcases handleFrame_state E K f r.client with ⟨o, ho, hst⟩ | ⟨w, q, hst⟩
      · obtain ⟨haddr, -, -, hslot, htail⟩ := opening_region ho
        rw [hst]
        have hbase := hle (memoryMapOtherSlot (loadedOn K r.client.dev).activeSlot)
        rw [← haddr] at hbase
        exact fun _ ↦ ⟨hslot ▸ hbase, fun hk ↦ Nat.le_trans hbase (htail hk)⟩
      · rw [hst]
        exact h.above
    · rw [hc]
      cases ho : opening K f r.client with
      | some o =>
          rw [handleFrame_opening_dev E ho]
          exact h.record.flashEraseRange o.addr o.size
      | none =>
          refine h.record.congr fun x hx ↦ ?_
          exact handleFrame_frame h.above (fun _ ↦ lt_slotA_of_record hx.2)
            fun o ho' ↦ by rw [ho] at ho'; cases ho'

/-- A transfer keeps the record or erases it. -/
theorem recordKept_transfer (E : PatchEngine) (K : KeyStore) (dev : Hw) (shared : SharedBootBlock)
    (events : List FrameStatus) :
    RecordKept dev.mem (events.foldl (receive E K) (.enter dev shared)).client.dev.mem := by
  have hrun : ∀ r : Receiver Hw, r.KeepsRecord dev.mem →
      (events.foldl (receive E K) r).KeepsRecord dev.mem := by
    induction events with
    | nil => exact fun r h ↦ h
    | cons s events ih => exact fun r h ↦ ih _ (h.step E K s)
  exact (hrun (.enter dev shared) ⟨nofun, .inl fun _ _ ↦ rfl⟩).record

/-! ## Runs -/

/-- A run of passes and transfers. -/
structure FloorRun where
  dev : Hw
  /-- The floor in force at the previous boot. -/
  floor : Nat

/-- A device before its first boot. -/
def FloorRun.start (dev : Hw) : FloorRun := ⟨dev, 0⟩

inductive FloorStep where
  /-- A pass, with the block it finds and the steps its supply lasts. -/
  | boot (shared : SharedBootBlock) (supply : Option Nat)
  /-- What the receiver makes of frames and read errors, on such a supply. -/
  | transfer (shared : SharedBootBlock) (supply : Option Nat) (events : List FrameStatus)

variable (E : PatchEngine) (K : KeyStore)

/-- The machine at the start of a step. -/
def FloorRun.machine (st : FloorRun) (shared : SharedBootBlock) (supply : Option Nat) :
    Machine Hw :=
  ⟨{ st.dev with power := supply }, shared⟩

/-- The floor of the record a pass loads. -/
def FloorRun.bootFloor (st : FloorRun) (shared : SharedBootBlock) (supply : Option Nat) : Nat :=
  (bootConfigAntidowngradeFloor (mainLoad (keepingSlots K) (st.machine shared supply)).cfg).toNat

def FloorRun.step (st : FloorRun) : FloorStep → FloorRun
  | .boot shared supply =>
    { dev := (main (keepingSlots K) (st.machine shared supply)).2.dev
      floor := st.bootFloor K shared supply }
  | .transfer shared supply events =>
    let m := st.machine shared supply
    { st with dev := (events.foldl (receive E K) (.enter m.dev m.shared)).client.dev }

/-- The floor of a boot is at least the one of the previous boot. -/
def FloorRun.Monotone (st : FloorRun) : FloorStep → Prop
  | .boot shared supply => st.floor ≤ st.bootFloor K shared supply
  | .transfer _ _ _ => True

/-- The record survives, or the slots reach the floor. -/
def FloorRun.Keeps (st : FloorRun) : FloorStep → Prop
  | .boot _ _ =>
    bootConfigValidate (readConfig st.dev) = true ∨ (Slots.ofMem K st.dev.mem).Reach st.floor
  | .transfer _ _ _ => True

variable (st : FloorRun) (shared : SharedBootBlock) (supply : Option Nat)

/-- The pass of the run loads the record, or rebuilds it from the slots. -/
theorem FloorRun.bootFloor_eq : st.bootFloor K shared supply =
    (bootConfigAntidowngradeFloor
      (loadedConfig (readConfig st.dev) (.ofMem K st.dev.mem))).toNat := by
  have hl := bootConfigLoad_eq (keepingSlots_onSlots K).toSees
    (s := { st.dev with power := supply }) trivial
  have hinit : (keepingSlots K).flashInit { st.dev with power := supply } =
      { st.dev with power := supply } := rfl
  rw [FloorRun.bootFloor, mainLoad, FloorRun.machine]
  dsimp only
  rw [hinit, hl]
  rfl

/-- The device after a pass: the records of the pass are saved. -/
theorem FloorRun.dev_main : (main (keepingSlots K) (st.machine shared supply)).2.dev =
    saveAll (keepingSlots K) (pass id (readConfig st.dev) (.ofMem K st.dev.mem) shared).writes
      (st.machine shared supply).dev := by
  rw [main_eq (keepingSlots_onSlots K) (m := st.machine shared supply) trivial]
  rfl

/-- No step takes the floor of an intact record below the one in force. -/
theorem FloorRun.recordFloor_step {st : FloorRun} (h : RecordFloor st.floor (readConfig st.dev))
    (l : FloorStep) : RecordFloor (st.step E K l).floor (readConfig (st.step E K l).dev) := by
  unfold FloorRun.step
  cases l with
  | boot shared supply =>
      dsimp only
      rw [st.dev_main K, st.bootFloor_eq K]
      refine saveAll_recordFloor K (s := (st.machine shared supply).dev) (fun hv ↦ ?_)
        fun w hw ↦ pass_writes_floor hw
      have hv' : bootConfigValidate (readConfig st.dev) = true := hv
      rw [loadedConfig_of_valid hv']
      exact Nat.le_refl _
  | transfer shared supply events =>
      dsimp only
      exact (recordKept_transfer E K (st.machine shared supply).dev shared events).recordFloor h

/-- When the floor of a boot is at least the one before. -/
theorem FloorRun.monotone_iff {st : FloorRun} (h : RecordFloor st.floor (readConfig st.dev))
    (l : FloorStep) : st.Monotone K l ↔ st.Keeps K l := by
  cases l with
  | boot shared supply =>
      rw [FloorRun.Monotone, FloorRun.Keeps, st.bootFloor_eq K]
      exact le_loaded_floor_iff _ h
  | transfer shared supply events => exact Iff.rfl

/-- **The floor over runs.**  In every run of passes, swaps, transfers and power cuts
the floor in force never decreases, exactly when at every boot the record is intact or
the slots reach the floor of the boot before. -/
theorem floor_monotone_iff (dev : Hw) (ls : List FloorStep) :
    Along (FloorRun.step E K) (FloorRun.Monotone K) (.start dev) ls ↔
      Along (FloorRun.step E K) (FloorRun.Keeps K) (.start dev) ls := by
  refine along_iff_of_inv (I := fun st ↦ RecordFloor st.floor (readConfig st.dev))
    (fun st l h ↦ st.monotone_iff K h l) (fun st l h _ ↦ ?_) (fun _ ↦ Nat.zero_le _)
  exact FloorRun.recordFloor_step E K h l

/-! ## A floor that is lost -/

/-- The record is erased, and the supply is gone. -/
def RecordLost (s : Hw) : Prop :=
  s.Dead ∧ ∀ x ∈ Set.Ico bootConfigAddr (bootConfigAddr + bootConfigRecordSize), s.mem x = 0xFF

theorem RecordLost.invalid {s : Hw} (h : RecordLost s) :
    bootConfigValidate (readConfig s) = false := by
  refine Bool.eq_false_iff.2 fun hv ↦ ?_
  obtain ⟨x, h₁, h₂, hne⟩ := exists_config_ne_erased hv
  exact hne (h.2 x ⟨h₁, h₂⟩)

/-- A supply of one step lasts for the erase of the first save of a pass. -/
theorem saveAll_of_one {ws : List BootConfig} (hws : ws ≠ []) {s : Hw} (hb : s.busy = [])
    (h : s.power = some 1) : RecordLost (saveAll (keepingSlots K) ws s) := by
  -- what follows the first save finds the supply gone
  have hlost : ∀ (ws : List BootConfig) (s : Hw), RecordLost s →
      RecordLost (saveAll (keepingSlots K) ws s) := by
    intro ws
    induction ws with
    | nil => exact fun s h ↦ h
    | cons w ws ih =>
        intro s h
        obtain ⟨hm, hd⟩ := bootConfigSave_of_dead w h.1
        refine ih ((keepingSlots K).bootConfigSave w s).2 ⟨hd, fun x hx ↦ ?_⟩
        rw [keepingSlots_record K w s (lt_slotA_of_record hx.2), hm]
        exact h.2 x hx
  cases ws with
  | nil => exact absurd rfl hws
  | cons w ws =>
      obtain ⟨he, hd⟩ := bootConfigSave_of_one w hb h
      refine hlost ws ((keepingSlots K).bootConfigSave w s).2 ⟨hd, fun x hx ↦ ?_⟩
      have hsector : bootConfigAddr = kSectorStart 4 ∧ bootConfigRecordSize ≤ kSectorSize 4 := by
        decide
      rw [keepingSlots_record K w s (lt_slotA_of_record hx.2)]
      exact he x (hsector.1 ▸ hx.1) (by have := hx.2; omega)

/-- The record does not survive a pass that is cut after one step; the slots do. -/
theorem FloorRun.step_of_one {st : FloorRun} {shared : SharedBootBlock} (hb : st.dev.busy = [])
    (hA : (SlotImage.ofMem K st.dev.mem slotAAddr).verifies = true)
    (hf : FindsSlot (readConfig st.dev) (.ofMem K st.dev.mem) shared) :
    bootConfigValidate (readConfig (st.step E K (.boot shared (some 1))).dev) = false ∧
      Slots.ofMem K (st.step E K (.boot shared (some 1))).dev.mem = .ofMem K st.dev.mem := by
  -- a pass that finds a slot boots, and writes the record
  have hpick : (pass id (readConfig st.dev) (.ofMem K st.dev.mem) shared).pick ≠ .bothFailed :=
    fun hp ↦ by
      rw [pass_id_pick] at hp
      have hrec := (fixedChoice_recovery_iff _ _ _).2 hf (by rw [fixedChoice, hp]; rfl)
      exact absurd (hA.symm.trans hrec.1) (by decide)
  have hlost := saveAll_of_one K (writes_ne_nil hpick)
    (s := (st.machine shared (some 1)).dev) hb rfl
  have hslots := saveAll_slots (keepingSlots_onSlots K) (s := (st.machine shared (some 1)).dev)
    trivial (pass id (readConfig st.dev) (.ofMem K st.dev.mem) shared).writes
  rw [Function.iterate_id, id, ← st.dev_main K] at hslots
  rw [← st.dev_main K] at hlost
  exact ⟨hlost.invalid, hslots⟩

/-- The record of a device that came back to slot A from a swap to version 5.0.0. -/
def returnedConfig : BootConfig :=
  bootConfigStampCrc { provisionedConfig slotA 0 with
    slotBVersion := 0x50000
    rollbackCounter := 5 }

/-- The flash of that device. -/
def returnedMem : Mem :=
  Mem.write (Mem.write (Mem.write (fun _ ↦ 0xFF) bootConfigAddr returnedConfig.toBytes)
    slotAAddr (sampleImage 0x10000).bytes) slotBAddr (sampleImage 0x50000).bytes

theorem validate_returnedConfig : bootConfigValidate returnedConfig = true := by
  rw [returnedConfig, bootConfigValidate_stampCrc]; rfl

def returnedDev : Hw := Hw.reset returnedMem

theorem readConfig_hw (s : Hw) : readConfig s = BootConfig.ofMem s.mem := rfl

theorem mem_reset (m : Mem) : (Hw.reset m).mem = m := rfl

theorem machine_reset (m : Mem) (shared : SharedBootBlock) :
    (FloorRun.start (Hw.reset m)).machine shared none = ⟨Hw.reset m, shared⟩ := rfl

theorem mem_returnedDev : returnedDev.mem = returnedMem := mem_reset returnedMem

theorem readConfig_returnedDev : readConfig returnedDev = returnedConfig := by
  have hlen : returnedConfig.toBytes.length = bootConfigRecordSize := length_toBytes _
  have hread : returnedDev.mem.read bootConfigAddr bootConfigRecordSize =
      returnedConfig.toBytes := by
    rw [mem_returnedDev, returnedMem, ← hlen,
      Mem.read_write_of_disjoint _ (.inl (by rw [hlen]; decide)),
      Mem.read_write_of_disjoint _ (.inl (by rw [hlen]; decide)), Mem.read_write]
  exact BootConfig.ofMem_of_read hread

theorem slotA_returnedDev : returnedDev.mem.read slotAAddr (sampleImage 0x10000).bytes.length =
    (sampleImage 0x10000).bytes := by
  rw [mem_returnedDev, returnedMem,
    Mem.read_write_of_disjoint _ (.inl (by rw [length_sampleImage]; decide)), Mem.read_write]

/-- A START on that device leaves the record and slot A, and erases slot B. -/
theorem step_sampleStart : ∃ dev : Hw,
    (FloorRun.start returnedDev).step E sampleKeys
        (.transfer .zero none [.ok sampleStart]) = ⟨dev, 0⟩ ∧
      dev.Healthy ∧ readConfig dev = returnedConfig ∧
      Slots.ofMem sampleKeys dev.mem = ⟨.ofSigned (sampleImage 0x10000), .erased⟩ := by
  have hh : returnedDev.Healthy := Hw.healthy_reset returnedMem
  have henter : (Receiver.enter returnedDev .zero).client.dev = returnedDev := rfl
  have hactive : (loadedOn sampleKeys (Receiver.enter returnedDev .zero).client.dev).activeSlot =
      slotA := by
    rw [henter, loadedOn_of_valid _ (readConfig_returnedDev ▸ validate_returnedConfig),
      readConfig_returnedDev]
    rfl
  have he : ∀ (a n : Nat) (s : Hw), FlashBackend.flashEraseRange a n s = Hw.flashEraseRange a n s :=
    fun _ _ _ ↦ rfl
  have hdev := receive_opening_dev E (r := .enter returnedDev .zero) rfl
    (opening_sampleStart hactive)
  rw [henter, he] at hdev
  obtain ⟨-, herased⟩ := @Hw.flashEraseRange_of_healthy slotBAddr 512 _ hh
    (by decide) (by decide) (by decide)
  have hframe : ∀ x < 0x08080000,
      (Hw.flashEraseRange slotBAddr 512 returnedDev).2.mem x = returnedDev.mem x :=
    fun x hx ↦ Hw.flashEraseRange_frame _ (not_covered_below_slotB hx)
  have hm : (FloorRun.start returnedDev).machine .zero none = ⟨returnedDev, .zero⟩ :=
    machine_reset returnedMem .zero
  refine ⟨(Hw.flashEraseRange slotBAddr 512 returnedDev).2, ?_, hh.flashEraseRange _ _, ?_, ?_⟩
  · unfold FloorRun.step
    dsimp only
    rw [hm, List.foldl_cons, List.foldl_nil, hdev]
    rfl
  · have hend : bootConfigAddr + bootConfigRecordSize ≤ 0x08080000 := by decide
    have hrecord : BootConfig.ofMem (Hw.flashEraseRange slotBAddr 512 returnedDev).2.mem =
        BootConfig.ofMem returnedDev.mem :=
      BootConfig.ofMem_congr fun x hx ↦ hframe x (Nat.lt_of_lt_of_le hx.2 hend)
    rw [readConfig_hw, hrecord, ← readConfig_hw]
    exact readConfig_returnedDev
  · have hA : SlotImage.ofMem sampleKeys
        (Hw.flashEraseRange slotBAddr 512 returnedDev).2.mem slotAAddr =
          .ofSigned (sampleImage 0x10000) := by
      refine SlotImage.ofMem_eq_ofSigned ?_
      rw [← slotA_returnedDev, Mem.length_read]
      refine Mem.read_congr fun x hx ↦ hframe x (Nat.lt_trans hx.2 ?_)
      rw [length_sampleImage]
      decide
    have hB : SlotImage.ofMem sampleKeys
        (Hw.flashEraseRange slotBAddr 512 returnedDev).2.mem slotBAddr = .erased := by
      refine SlotImage.ofMem_eq_erased _ fun x h₁ h₂ ↦ herased x ⟨?_, ?_⟩ ?_
      · exact Nat.le_trans (flashSectorStart_le _) h₁
      · exact Nat.lt_of_le_of_lt (flashSectorStart_le x) h₂
      · exact Nat.lt_trans h₂ (by decide)
    rw [Slots.ofMem, hA, hB]

/-- A transfer erases slot B, and a cut in the next pass erases the record: the pass
after that finds the floor at version 1.0.0. -/
theorem floor_lost :
    ¬Along (FloorRun.step refusingEngine sampleKeys) (FloorRun.Monotone sampleKeys)
      (.start returnedDev)
      [.transfer .zero none [.ok sampleStart], .boot .zero (some 1), .boot .zero none] := by
  obtain ⟨dev, hst, hh, hrec, hslots⟩ := step_sampleStart refusingEngine
  have hA : (SlotImage.ofMem sampleKeys dev.mem slotAAddr).verifies = true :=
    congrArg (fun S ↦ S.a.verifies) hslots
  -- the pass that is cut
  have hf : FindsSlot (readConfig dev) (.ofMem sampleKeys dev.mem) .zero :=
    .inr (.inl (.inl (congrArg activeSlot hrec)))
  obtain ⟨hinvalid, hslots₁⟩ := @FloorRun.step_of_one refusingEngine sampleKeys ⟨dev, 0⟩ .zero
    hh.1 hA hf
  have hfloor : ((⟨dev, 0⟩ : FloorRun).step refusingEngine sampleKeys
      (.boot .zero (some 1))).floor = 0x50000 := by
    rw [FloorRun.step, FloorRun.bootFloor_eq, hrec, loadedConfig_of_valid validate_returnedConfig]
    rfl
  -- the pass after it
  rintro ⟨-, -, h, -⟩
  rw [hst] at h
  generalize (⟨dev, 0⟩ : FloorRun).step refusingEngine sampleKeys (.boot .zero (some 1)) = st at *
  rw [FloorRun.Monotone, st.bootFloor_eq sampleKeys, hfloor, loadedConfig, hinvalid,
    if_neg Bool.false_ne_true, le_recovered_floor_iff, hslots₁, hslots] at h
  rcases h with h | ⟨i, rfl | rfl, hi, -, h⟩
  · cases h
  · exact absurd h (by decide)
  · cases hi

end DualBank
