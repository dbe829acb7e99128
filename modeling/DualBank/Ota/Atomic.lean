import DualBank.Ota.InPlace
import DualBank.Ota.Session

/-!
# What a transfer leaves alone

An update is meant to be atomic: until the receiver resets the system, the active slot
and the boot configuration are those it was entered with, so that the supply may fail
anywhere.  Programming keeps to the inactive slot.  Erasing does not, as slots are not
made of whole sectors: the sector that slot B starts in holds the last 16 KB of slot A,
and the sector that slot A starts in holds the boot configuration.
-/

namespace DualBank

open Lib FlashBackend

/-! ## Openings -/

section Opening

variable {σ : Type} [FlashBackend σ] {K : KeyStore} {f : OtaFrame} {c : OtaClient σ} {o : Opening}

/-- An opening erases the inactive slot from its base on, and its session goes there. -/
theorem opening_region (h : opening K f c = some o) :
    o.addr = memoryMapSlotAddr (memoryMapOtherSlot (loadedOn K c.dev).activeSlot) ∧
      0 < o.size ∧ o.size ≤ slotSize ∧ o.state.slotAddr = o.addr ∧
      (o.state.kind = .delta → o.addr ≤ o.state.patchTailBase) := by
  have hmin : 0 < firmwareHeaderSize := by decide
  have hmax := image_fits_slot
  have hspan := headerSize_le_span (σ := σ)
  have hspan' := span_le_slotSize (σ := σ)
  unfold opening at h
  split_ifs at h
  · obtain ⟨-, hmin', hmax', rfl⟩ := startOpens_eq_some.1 h
    exact ⟨rfl, Nat.lt_of_lt_of_le hmin hmin', Nat.le_trans hmax' (Nat.le_of_eq hmax), rfl, nofun⟩
  · obtain ⟨-, hpatch, -, rfl⟩ := startDeltaOpens_eq_some h
    have hpos : 0 < flashOtaSlotSpan σ := Nat.lt_of_lt_of_le hmin hspan
    refine ⟨rfl, hpos, hspan', rfl, fun _ ↦ ?_⟩
    dsimp only
    omega

/-- Only START and START_DELTA open a session. -/
theorem opening_op (h : opening K f c = some o) : f.op = otaOpStart ∨ f.op = otaOpStartDelta := by
  unfold opening at h
  split_ifs at h with h₁ h₂
  · exact .inl h₁
  · exact .inr h₂

/-- The flash after the frame of an opening is that after its erase. -/
theorem handleFrame_opening_dev (E : PatchEngine) (h : opening K f c = some o) :
    (handleFrame E K f c).2.dev = (flashEraseRange o.addr o.size c.dev).2 := by
  rw [handleFrame_of_opens E K c (opening_op h), h]
  unfold openSession
  dsimp only
  split_ifs <;> rfl

end Opening

/-! ## One frame -/

/-- An open session programs nothing below `lo`. -/
def OtaState.Above (lo : Nat) (st : OtaState) : Prop :=
  st.active = true → lo ≤ st.slotAddr ∧ (st.kind = .delta → lo ≤ st.patchTailBase)

section Frame

variable {σ : Type} [FlashBackend σ] {E : PatchEngine} {K : KeyStore} {f : OtaFrame}
  {c : OtaClient σ} {lo : Nat}

omit [FlashBackend σ] in
theorem dataDest_above {dest : Nat} (hd : dataDest f c.state = some dest) (h : c.state.Above lo) :
    c.state.active = true ∧ lo ≤ dest := by
  unfold dataDest at hd
  split_ifs at hd with h₁ h₂ h₃ h₄ h₅
  all_goals
    have ha : c.state.active = true := by simpa using h₁
    obtain ⟨hs, hp⟩ := h ha
    cases hd
  · exact ⟨ha, Nat.le_trans (hp h₅) (Nat.le_add_right _ _)⟩
  · exact ⟨ha, Nat.le_trans hs (Nat.le_add_right _ _)⟩

/-- A frame opens a session or leaves the region of the open one alone. -/
theorem handleFrame_state (E : PatchEngine) (K : KeyStore) (f : OtaFrame) (c : OtaClient σ) :
    (∃ o, opening K f c = some o ∧ (handleFrame E K f c).2.state = o.state) ∨
      ∃ w q, (handleFrame E K f c).2.state = { c.state with written := w, expectedSeq := q } := by
  rcases handleFrame_cases E K f c with h | ⟨o, st, ho, hst, h⟩ | ⟨dest, w, q, -, h⟩ | h
  · rw [h]
    exact .inr ⟨c.state.written, c.state.expectedSeq, rfl⟩
  · rw [h]
    rcases hst with rfl | rfl
    · exact .inr ⟨c.state.written, c.state.expectedSeq, rfl⟩
    · exact .inl ⟨o, ho, rfl⟩
  · rw [h]
    exact .inr ⟨w, q, rfl⟩
  · rw [h, (handleEnd_frame E K c).1]
    exact .inr ⟨c.state.written, c.state.expectedSeq, rfl⟩

/-- A frame changes a byte below the sessions only by the erase of an opening. -/
theorem handleFrame_frame {x : Nat} (h : c.state.Above lo)
    (hx : c.state.active = true → x < lo)
    (ho : ∀ o, opening K f c = some o →
      byte (flashEraseRange o.addr o.size c.dev).2 x = byte c.dev x) :
    byte (handleFrame E K f c).2.dev x = byte c.dev x := by
  rcases handleFrame_cases E K f c with he | ⟨o, st, hopen, -, he⟩ | ⟨dest, w, q, hd, he⟩ | he
  · rw [he]
  · rw [he]
    exact ho o hopen
  · rw [he]
    obtain ⟨ha, hlo⟩ := dataDest_above hd h
    exact programBytes_frame c.dev (.inl (Nat.lt_of_lt_of_le (hx ha) hlo))
  · obtain ⟨dev, b, hdev, -, hend⟩ := handleEnd_cases E K c
    rw [he, hend]
    rcases hdev with rfl | ⟨ha, -, rfl⟩
    · rfl
    · exact deltaApplyPatch_frame E _ _ _ _ c.dev (.inl (Nat.lt_of_lt_of_le (hx ha) (h ha).1))

theorem healthy_handleFrame (E : PatchEngine) (K : KeyStore) (f : OtaFrame) (h : Healthy c.dev) :
    Healthy (handleFrame E K f c).2.dev := by
  rcases handleFrame_cases E K f c with he | ⟨o, st, -, -, he⟩ | ⟨dest, w, q, -, he⟩ | he
  · rw [he]
    exact h
  · rw [he]
    exact healthy_erase _ _ h
  · rw [he]
    exact healthy_programBytes _ _ h
  · obtain ⟨dev, b, hdev, -, hend⟩ := handleEnd_cases E K c
    rw [he, hend]
    rcases hdev with rfl | ⟨-, -, rfl⟩
    · exact h
    · exact healthy_deltaApplyPatch E _ _ _ _ h

end Frame

/-- What a turn of the receive loop does to the client: nothing, or what the handler of
a frame does. -/
theorem receiveStep_client {σ : Type} [FlashBackend σ] (E : PatchEngine) (K : KeyStore)
    (s : FrameStatus) (r : Receiver σ) :
    (receiveStep E K s r).2.client = r.client ∨
      ∃ f, s = .ok f ∧ r.status = .receiving ∧
        (receiveStep E K s r).2.client = (handleFrame E K f r.client).2 := by
  unfold receiveStep
  split_ifs with hrx
  · exact .inl rfl
  · cases s with
    | ok f =>
        dsimp only
        by_cases hop : f.op = otaOpAbort
        · exact .inl (by unfold receiveFrame; rw [if_pos hop])
        · exact .inr ⟨f, rfl, not_not.mp hrx, (receiveFrame_spec E K hop).1⟩
    | _ => exact .inl rfl

/-- The receiver as a system that frames and read errors drive. -/
def receive {σ : Type} [FlashBackend σ] (E : PatchEngine) (K : KeyStore) (r : Receiver σ)
    (s : FrameStatus) : Receiver σ :=
  (receiveStep E K s r).2

/-- The flash after the turn of an opening is that after its erase. -/
theorem receive_opening_dev {σ : Type} [FlashBackend σ] (E : PatchEngine) {K : KeyStore}
    {r : Receiver σ} {f : OtaFrame} {o : Opening} (hrx : r.status = .receiving)
    (ho : opening K f r.client = some o) :
    (receive E K r (.ok f)).client.dev = (flashEraseRange o.addr o.size r.client.dev).2 := by
  have hop : f.op ≠ otaOpAbort := by
    rcases opening_op ho with e | e <;> rw [e] <;> decide
  unfold receive receiveStep
  rw [if_neg (not_not.mpr hrx)]
  dsimp only
  rw [(receiveFrame_spec E K hop).1, handleFrame_opening_dev E ho]

theorem healthy_receive {σ : Type} [FlashBackend σ] (E : PatchEngine) (K : KeyStore)
    {r : Receiver σ} (s : FrameStatus) (h : Healthy r.client.dev) :
    Healthy (receive E K r s).client.dev := by
  unfold receive
  rcases receiveStep_client E K s r with hc | ⟨f, -, -, hc⟩
  · rw [hc]; exact h
  · rw [hc]; exact healthy_handleFrame E K f h

/-! ## Intermediate points -/

/-- What an update must leave alone: the active slot of a record, and the record. -/
def Protected (cfg : BootConfig) (x : Nat) : Prop :=
  (memoryMapSlotAddr cfg.activeSlot ≤ x ∧ x < memoryMapSlotAddr cfg.activeSlot + slotSize) ∨
    (bootConfigAddr ≤ x ∧ x < bootConfigAddr + bootConfigRecordSize)

/-- The receiver on a supply of so many flash steps. -/
def Receiver.cut (power : Option Nat) (r : Receiver Hw) : Receiver Hw :=
  { r with client := { r.client with dev := { r.client.dev with power := power } } }

/-- Wherever the turn is cut short, the flash agrees with `m₀` on what its record
protects. -/
def Untouched (E : PatchEngine) (K : KeyStore) (m₀ : Mem) (r : Receiver Hw) (s : FrameStatus) :
    Prop :=
  ∀ power x, Protected (BootConfig.ofMem m₀) x →
    (receive E K (r.cut power) s).client.dev.mem x = m₀ x

/-- A START or START_DELTA that passes its checks finds slot A active, and the end of
slot A in the first sector of slot B erased. -/
def OpensErased (K : KeyStore) (r : Receiver Hw) (s : FrameStatus) : Prop :=
  ∀ f o, s = .ok f → r.status = .receiving → opening K f r.client = some o →
    (readConfig r.client.dev).activeSlot = slotA ∧
      ∀ x, kSectorStart 8 ≤ x → x < slotBAddr → r.client.dev.mem x = 0xFF

/-- The flash is that of the entry where it matters, and an open session is one of slot
B beside an active slot A. -/
structure Receiver.Keeps (r : Receiver Hw) (m₀ : Mem) : Prop where
  kept : ∀ x, Protected (BootConfig.ofMem m₀) x → r.client.dev.mem x = m₀ x
  active : r.client.state.active = true → (BootConfig.ofMem m₀).activeSlot = slotA
  above : r.client.state.Above slotBAddr

section Runs

variable {E : PatchEngine} {K : KeyStore} {m₀ : Mem} {r : Receiver Hw} {s : FrameStatus}

theorem Receiver.Keeps.readConfig (h : r.Keeps m₀) :
    readConfig r.client.dev = BootConfig.ofMem m₀ :=
  BootConfig.ofMem_congr fun x hx ↦ h.kept x (.inr hx)

theorem Receiver.Keeps.enter (dev : Hw) (shared : SharedBootBlock) :
    (Receiver.enter dev shared).Keeps dev.mem :=
  ⟨fun _ _ ↦ rfl, nofun, nofun⟩

/-- Everything that is protected with slot A active lies below slot B. -/
theorem lt_slotB_of_protected {cfg : BootConfig} {x : Nat} (hcfg : cfg.activeSlot = slotA)
    (hx : Protected cfg x) : x < slotBAddr := by
  have hAB := slotA_before_slotB
  have hcA := bootConfig_before_slotA
  have hrec : bootConfigRecordSize ≤ bootConfigSize := by decide
  unfold Protected at hx
  rw [hcfg, memoryMapSlotAddr_slotA] at hx
  omega

/-- Cutting the supply changes no opening. -/
theorem opening_cut (hv : BootConfig.bootConfigValidate (DualBank.readConfig r.client.dev) = true)
    (power : Option Nat) (f : OtaFrame) :
    opening K f (r.cut power).client = opening K f r.client := by
  have hload : loadedOn K (r.cut power).client.dev = loadedOn K r.client.dev := by
    rw [loadedOn_of_valid K hv]
    exact loadedOn_of_valid K hv
  unfold opening
  rw [hload]
  rfl

/-- An opening that meets the condition goes to slot B, and its erase finds nothing to
erase in what is protected. -/
theorem opening_kept {f : OtaFrame} {o : Opening} (h : r.Keeps m₀)
    (hv : BootConfig.bootConfigValidate (BootConfig.ofMem m₀) = true)
    (hcond : OpensErased K r (.ok f)) (hrx : r.status = .receiving)
    (ho : opening K f r.client = some o) :
    (BootConfig.ofMem m₀).activeSlot = slotA ∧ o.addr = slotBAddr ∧
      ∀ x (dev : Hw), Protected (BootConfig.ofMem m₀) x → dev.mem = r.client.dev.mem →
        (flashEraseRange o.addr o.size dev).2.mem x = dev.mem x := by
  obtain ⟨hactive, herased⟩ := hcond f o rfl hrx ho
  obtain ⟨haddr, -⟩ := opening_region ho
  rw [loadedOn_of_valid K (h.readConfig.symm ▸ hv), hactive] at haddr
  rw [h.readConfig] at hactive
  refine ⟨hactive, haddr, fun x dev hx hdev ↦ ?_⟩
  have hlt := lt_slotB_of_protected hactive hx
  by_cases hsector : kSectorStart 8 ≤ x
  · -- the end of slot A
    have hff : dev.mem x = 0xFF := by rw [hdev]; exact herased x hsector hlt
    rw [hff]
    exact Hw.flashEraseRange_erased hff
  · refine Hw.flashEraseRange_frame dev fun hc ↦ hsector ?_
    have h₁ := hc.1
    rwa [haddr] at h₁

/-- A turn under the condition, wherever it is cut short. -/
theorem Receiver.Keeps.untouched (E : PatchEngine) (h : r.Keeps m₀)
    (hv : BootConfig.bootConfigValidate (BootConfig.ofMem m₀) = true) (hcond : OpensErased K r s) :
    Untouched E K m₀ r s := by
  intro power x hx
  have hkept : (r.cut power).client.dev.mem x = m₀ x := h.kept x hx
  have habove : (r.cut power).client.state.Above slotBAddr := h.above
  unfold receive
  rcases receiveStep_client E K s (r.cut power) with hc | ⟨f, rfl, hrx, hc⟩
  · rw [hc]; exact hkept
  · rw [hc]
    refine (handleFrame_frame habove
      (fun ha ↦ lt_slotB_of_protected (h.active ha) hx) fun o ho ↦ ?_).trans hkept
    rw [opening_cut (h.readConfig.symm ▸ hv)] at ho
    exact (opening_kept h hv hcond hrx ho).2.2 x _ hx rfl

theorem Receiver.Keeps.step (E : PatchEngine) (h : r.Keeps m₀)
    (hv : BootConfig.bootConfigValidate (BootConfig.ofMem m₀) = true) (hcond : OpensErased K r s) :
    (receive E K r s).Keeps m₀ := by
  have hkept : ∀ x, Protected (BootConfig.ofMem m₀) x → (receive E K r s).client.dev.mem x = m₀ x :=
    h.untouched E hv hcond r.client.dev.power
  suffices hst : ((receive E K r s).client.state.active = true →
      (BootConfig.ofMem m₀).activeSlot = slotA) ∧
        (receive E K r s).client.state.Above slotBAddr from
    ⟨hkept, hst.1, hst.2⟩
  unfold receive
  rcases receiveStep_client E K s r with hc | ⟨f, rfl, hrx, hc⟩
  · rw [hc]
    exact ⟨h.active, h.above⟩
  · rw [hc]
    rcases handleFrame_state E K f r.client with ⟨o, ho, hst⟩ | ⟨w, q, hst⟩
    · obtain ⟨hactive, haddr, -⟩ := opening_kept h hv hcond hrx ho
      obtain ⟨-, -, -, hslot, htail⟩ := opening_region ho
      rw [hst]
      rw [haddr] at hslot htail
      exact ⟨fun _ ↦ hactive, fun _ ↦ ⟨Nat.le_of_eq hslot.symm, htail⟩⟩
    · rw [hst]
      exact ⟨h.active, h.above⟩

/-- The bytes of a valid record are not all erased. -/
theorem exists_config_ne_erased {m : Mem}
    (hv : BootConfig.bootConfigValidate (BootConfig.ofMem m) = true) :
    ∃ x, bootConfigAddr ≤ x ∧ x < bootConfigAddr + bootConfigRecordSize ∧ m x ≠ 0xFF := by
  by_contra hall
  push Not at hall
  have herased : BootConfig.ofMem m = BootConfig.ofMem fun _ ↦ 0xFF :=
    BootConfig.ofMem_congr fun x hx ↦ hall x hx.1 hx.2
  rw [herased] at hv
  exact absurd hv (by decide)

/-- Without faults, a turn that leaves everything alone meets the condition. -/
theorem Receiver.Keeps.opensErased (h : r.Keeps m₀)
    (hv : BootConfig.bootConfigValidate (BootConfig.ofMem m₀) = true) (hh : r.client.dev.Healthy)
    (hu : Untouched E K m₀ r s) : OpensErased K r s := by
  rintro f o rfl hrx ho
  obtain ⟨haddr, hpos, hle, -, -⟩ := opening_region ho
  rw [loadedOn_of_valid K (h.readConfig.symm ▸ hv), h.readConfig] at haddr
  have hdev := receive_opening_dev E hrx ho
  have hflash := slot_in_flash (memoryMapOtherSlot (BootConfig.ofMem m₀).activeSlot)
  rw [← haddr] at hflash
  obtain ⟨-, herased⟩ := Hw.flashEraseRange_of_healthy hh hflash.1 hpos (by omega)
  have hkept : ∀ x, Protected (BootConfig.ofMem m₀) x → Covered o.addr o.size x →
      x < flashBaseAddr + flashTotalSize → m₀ x = 0xFF := fun x hx hc hlt ↦ by
    have h₁ := hu r.client.dev.power x hx
    have hcut : r.cut r.client.dev.power = r := rfl
    rw [hcut, hdev] at h₁
    exact h₁.symm.trans (herased x hc hlt)
  rw [h.readConfig]
  by_cases hactive : (BootConfig.ofMem m₀).activeSlot = slotA
  · -- the erase begins in front of slot B
    rw [hactive, memoryMapOtherSlot_slotA, memoryMapSlotAddr_slotB] at haddr
    refine ⟨hactive, fun x h₁ h₂ ↦ ?_⟩
    have hbounds : slotAAddr ≤ kSectorStart 8 ∧ slotBAddr ≤ slotAAddr + slotSize ∧
        slotBAddr < flashBaseAddr + flashTotalSize := by decide
    have hx : Protected (BootConfig.ofMem m₀) x := by
      rw [Protected, hactive, memoryMapSlotAddr_slotA]
      exact .inl (by omega)
    have hc : Covered o.addr o.size x := haddr ▸ covered_before_slotB h₁ (by omega)
    rw [h.kept x hx]
    exact hkept x hx hc (by omega)
  · -- the erase begins with the record
    rw [memoryMapOtherSlot_of_ne hactive, memoryMapSlotAddr_slotA] at haddr
    obtain ⟨x, h₁, h₂, hne⟩ := exists_config_ne_erased hv
    have hbounds : bootConfigAddr + bootConfigRecordSize ≤ slotAAddr ∧
        slotAAddr < flashBaseAddr + flashTotalSize := by decide
    have hc : Covered o.addr o.size x := by
      have hsector := flashSectorStart_le x
      rw [haddr]
      exact ⟨flashSectorStart_slotAAddr ▸ h₁, by omega⟩
    exact absurd (hkept x (.inr ⟨h₁, h₂⟩) hc (by omega)) hne

end Runs

/-- **Atomic updates.**  In every run of the receiver in which a transfer is only ever
opened with slot A active and the end of slot A erased, whatever the flash reports and
wherever the supply fails, the active slot and the record stay as they were.  On a
flash without faults there is no other such run. -/
theorem transfer_atomic (E : PatchEngine) (K : KeyStore) (dev : Hw) (shared : SharedBootBlock)
    (hv : BootConfig.bootConfigValidate (readConfig dev) = true) (events : List FrameStatus) :
    (Along (receive E K) (OpensErased K) (.enter dev shared) events →
        Along (receive E K) (Untouched E K dev.mem) (.enter dev shared) events) ∧
      (dev.Healthy → Along (receive E K) (Untouched E K dev.mem) (.enter dev shared) events →
        Along (receive E K) (OpensErased K) (.enter dev shared) events) := by
  constructor
  · exact Along.mono_of_inv (I := fun r ↦ r.Keeps dev.mem)
      (fun r s h hc ↦ ⟨h.untouched E hv hc, h.step E hv hc⟩) (.enter dev shared)
  · intro hh
    refine Along.mono_of_inv (I := fun r ↦ r.Keeps dev.mem ∧ r.client.dev.Healthy)
      (fun r s h hu ↦ ?_) ⟨.enter dev shared, hh⟩
    have hc := h.1.opensErased hv h.2 hu
    exact ⟨hc, h.1.step E hv hc, healthy_receive E K (r := r) s h.2⟩

/-- The default record, and an image in slot A. -/
def residentMem : Mem := Mem.write defaultMem slotAAddr (sampleImage 1).bytes

/-- A transfer of the next version: START, DATA and END. -/
def nextVersionFrames : List OtaFrame :=
  [⟨otaOpStart, 1, bytes32 516, by decide⟩,
    ⟨otaOpData, 2, (sampleImage 2).bytes, by rw [length_sampleImage]; decide⟩,
    ⟨otaOpEnd, 3, [], Nat.zero_le _⟩]

theorem ofMem_residentMem : BootConfig.ofMem residentMem = .bootConfigDefault := by
  rw [← ofMem_defaultMem]
  refine BootConfig.ofMem_congr fun x hx ↦ Mem.write_of_notMem _ _ _ _ (.inl ?_)
  exact Nat.lt_of_lt_of_le hx.2 (by decide)

/-- The image ends in front of sector 8. -/
theorem residentMem_end {x : Nat} (hx : kSectorStart 8 ≤ x) : residentMem x = 0xFF := by
  have hrecord : bootConfigAddr + BootConfig.bootConfigDefault.toBytes.length ≤ kSectorStart 8 := by
    decide
  have himage : slotAAddr + (sampleImage 1).bytes.length ≤ kSectorStart 8 := by
    rw [length_sampleImage]
    decide
  rw [residentMem, Mem.write_of_notMem _ _ _ _ (.inr (by omega))]
  exact Mem.write_of_notMem _ _ _ _ (.inr (by omega))

theorem transfer_atomic_resident :
    Along (receive refusingEngine sampleKeys)
      (Untouched refusingEngine sampleKeys (Hw.reset residentMem).mem)
      (.enter (Hw.reset residentMem) .zero) (nextVersionFrames.map .ok) := by
  have hrecord := ofMem_residentMem
  have hend : ∀ x ≥ kSectorStart 8, residentMem x = 0xFF := fun _ ↦ residentMem_end
  generalize residentMem = m at *
  have hcfg : readConfig (Hw.reset m) = .bootConfigDefault := hrecord
  refine (transfer_atomic refusingEngine sampleKeys (Hw.reset m) .zero
    (by rw [hcfg]; exact BootConfig.bootConfigValidate_default) _).1 ⟨?_, ?_, ?_, trivial⟩
  · exact fun _ _ _ _ _ ↦ ⟨congrArg BootConfig.activeSlot hcfg, fun x hx _ ↦ hend x hx⟩
  -- neither DATA nor END opens a transfer
  · rintro f o ⟨⟩ - ho
    exact absurd (opening_op ho) (by decide)
  · rintro f o ⟨⟩ - ho
    exact absurd (opening_op ho) (by decide)

/-! ## Erased with the inactive slot -/

/-- The sample START passes its checks with any record. -/
theorem exists_opening_sampleStart {σ : Type} [FlashBackend σ] (K : KeyStore) (c : OtaClient σ) :
    ∃ o, opening K sampleStart c = some o := by
  unfold opening startOpens
  exact ⟨_, rfl⟩

/-- An image that reaches to the end of slot A. -/
def fullSlotMem : Mem := Function.update defaultMem (slotAAddr + slotSize - 1) 0

/-- An erased flash with a record that has slot B active. -/
def activeBMem : Mem :=
  Mem.write (fun _ ↦ 0xFF) bootConfigAddr
    (BootConfig.bootConfigStampCrc
      { BootConfig.bootConfigDefault with activeSlot := slotB }).toBytes

/-- A START erases the end of the active slot A, and with slot B active it erases the
record. -/
theorem start_erases_protected :
    ¬Along (receive refusingEngine sampleKeys)
        (Untouched refusingEngine sampleKeys (Hw.reset fullSlotMem).mem)
        (.enter (Hw.reset fullSlotMem) .zero) [.ok sampleStart] ∧
      ¬Along (receive refusingEngine sampleKeys)
        (Untouched refusingEngine sampleKeys (Hw.reset activeBMem).mem)
        (.enter (Hw.reset activeBMem) .zero) [.ok sampleStart] := by
  have key : ∀ m, BootConfig.bootConfigValidate (BootConfig.ofMem m) = true →
      Along (receive refusingEngine sampleKeys) (Untouched refusingEngine sampleKeys m)
        (.enter (Hw.reset m) .zero) [.ok sampleStart] →
      (BootConfig.ofMem m).activeSlot = slotA ∧
        ∀ x, kSectorStart 8 ≤ x → x < slotBAddr → m x = 0xFF := fun m hv hu ↦ by
    obtain ⟨o, ho⟩ := exists_opening_sampleStart sampleKeys
      (Receiver.enter (Hw.reset m) .zero).client
    exact (Receiver.Keeps.enter (Hw.reset m) .zero).opensErased hv (Hw.healthy_reset m) hu.1
      sampleStart o rfl rfl ho
  constructor
  · intro hu
    have hcfg : BootConfig.ofMem fullSlotMem = .bootConfigDefault := by
      rw [← ofMem_defaultMem]
      refine BootConfig.ofMem_congr fun x hx ↦ Function.update_of_ne ?_ _ _
      have hlt : bootConfigAddr + bootConfigRecordSize ≤ slotAAddr + slotSize - 1 := by decide
      have := hx.2
      omega
    have hff := (key _ (hcfg ▸ BootConfig.bootConfigValidate_default) hu).2
      (slotAAddr + slotSize - 1) (by decide) (by decide)
    have h0 : fullSlotMem (slotAAddr + slotSize - 1) = 0 := Function.update_self ..
    exact absurd (h0.symm.trans hff) (by decide)
  · intro hu
    have hcfg : BootConfig.ofMem activeBMem = BootConfig.bootConfigStampCrc
        { BootConfig.bootConfigDefault with activeSlot := slotB } :=
      BootConfig.ofMem_of_read (Mem.read_write _ _ _)
    have hv : BootConfig.bootConfigValidate (BootConfig.ofMem activeBMem) = true := by
      rw [hcfg, BootConfig.bootConfigValidate_stampCrc]; rfl
    have hactive := (key _ hv hu).1
    rw [hcfg] at hactive
    exact absurd hactive (by decide)

end DualBank
