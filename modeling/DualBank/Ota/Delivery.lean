import DualBank.Boot.JumpTarget
import DualBank.Ota.Atomic
import DualBank.Ota.Loss

/-!
# From END to the next boot

An acknowledged END leaves a verified image in the inactive slot and a request in the
shared block.  The boot pass after the reset loads the record, swaps and saves, and it
delivers the image exactly when that is in slot B: every save of the pass erases the
head of slot A.
-/

namespace DualBank

open Lib FlashBackend BootConfig

/-! ## Full transfers -/

section Transfer

variable {σ : Type} [FlashBackend σ]

/-- No frame opens a transfer in this turn. -/
def NoOpening (K : KeyStore) (r : Receiver σ) (s : FrameStatus) : Prop :=
  ∀ f, s = .ok f → r.status = .receiving → opening K f r.client = none

/-- The receiver after the START of a transfer and what came after it. -/
def beforeEnd (E : PatchEngine) (K : KeyStore) (r : Receiver σ) (start : OtaFrame)
    (events : List FrameStatus) : Receiver σ :=
  events.foldl (receive E K) (receive E K r (.ok start))

/-- A full transfer: a START that is acknowledged, any frames and read errors that open
no other transfer, and an END that is acknowledged. -/
structure FullTransfer (E : PatchEngine) (K : KeyStore) (r : Receiver σ) (start : OtaFrame)
    (events : List FrameStatus) (stop : OtaFrame) : Prop where
  start_op : start.op = otaOpStart
  opened : isAcked (receiveStep E K (.ok start) r).1 = true
  same : Along (receive E K) (NoOpening K) (receive E K r (.ok start)) events
  stop_op : stop.op = otaOpEnd
  closed : isAcked (receiveStep E K (.ok stop) (beforeEnd E K r start events)).1 = true

/-- What the reset at the end of a transfer hands to `main`. -/
def atReset (E : PatchEngine) (K : KeyStore) (r : Receiver σ) (start : OtaFrame)
    (events : List FrameStatus) (stop : OtaFrame) : Machine σ :=
  let c := (receive E K (beforeEnd E K r start events) (.ok stop)).client
  ⟨c.dev, c.shared⟩

/-- The pass from `m` jumps to the slot at `slotAddr`, which still holds what it held
and still verifies. -/
def Delivers (K : KeyStore) (m : Machine σ) (slotAddr : Nat) : Prop :=
  (main (onFlash σ K) m).1 = .jump slotAddr ∧
    (∀ x, slotAddr ≤ x → x < slotAddr + slotSize →
      byte (main (onFlash σ K) m).2.dev x = byte m.dev x) ∧
    cryptoVerifyFirmware K (byte (main (onFlash σ K) m).2.dev) slotAddr = true

variable {E : PatchEngine} {K : KeyStore} {r : Receiver σ} {f : OtaFrame}

/-- A frame that is acknowledged has been accepted by its handler. -/
theorem handleFrame_of_acked (hop : f.op ≠ otaOpAbort)
    (h : isAcked (receiveStep E K (.ok f) r).1 = true) :
    (handleFrame E K f r.client).1 = true ∧
      (receive E K r (.ok f)).client = (handleFrame E K f r.client).2 := by
  obtain ⟨hcl, hack, -⟩ := receiveFrame_spec E K (r := r) hop
  unfold receive
  unfold receiveStep at h ⊢
  split_ifs at h ⊢ with hrx
  · cases h
  · exact ⟨hack.symm.trans h, hcl⟩

/-- An acknowledged START has opened its transfer. -/
theorem opened_of_acked (hop : f.op = otaOpStart)
    (h : isAcked (receiveStep E K (.ok f) r).1 = true) :
    ∃ o, opening K f r.client = some o ∧ o.state.kind = .full ∧
      (receive E K r (.ok f)).client =
        { r.client with
          dev := (flashEraseRange o.addr o.size r.client.dev).2, state := o.state } := by
  obtain ⟨hok, hcl⟩ := handleFrame_of_acked (by rw [hop]; decide) h
  rw [handleFrame_of_opens E K r.client (.inl hop)] at hok hcl
  cases ho : opening K f r.client with
  | none => rw [ho] at hok; cases hok
  | some o =>
      rw [ho] at hok hcl
      unfold openSession at hok hcl
      dsimp only at hok hcl
      split_ifs at hok hcl
      refine ⟨o, rfl, ?_, hcl⟩
      unfold opening at ho
      rw [if_pos hop] at ho
      obtain ⟨-, -, -, rfl⟩ := startOpens_eq_some.1 ho
      rfl

/-- An acknowledged END of a full transfer has verified the slot and its version, and
has left the request. -/
theorem closed_of_acked (hop : f.op = otaOpEnd) (hk : r.client.state.kind = .full)
    (h : isAcked (receiveStep E K (.ok f) r).1 = true) :
    cryptoVerifyFirmware K (byte r.client.dev) r.client.state.slotAddr = true ∧
      bootConfigFirmwareAllowed (loadedOn K r.client.dev)
        (FirmwareHeader.ofMem (byte r.client.dev) r.client.state.slotAddr).version = true ∧
      (receive E K r (.ok f)).client =
        { r.client with
          shared :=
            { r.client.shared with
              magic := sharedBlockMagic
              otaPending := 1
              bootConfirmed := 0 } } := by
  obtain ⟨hok, hcl⟩ := handleFrame_of_acked (by rw [hop]; decide) h
  rw [handleFrame_end E K r.client hop] at hok hcl
  have hnd : ¬r.client.state.kind = .delta := by rw [hk]; decide
  unfold handleEnd at hok hcl
  rw [if_neg hnd] at hok hcl
  unfold endVerify at hok hcl
  simp only [bootConfigLoad_dev] at hok hcl
  unfold loadedOn
  split_ifs at hok hcl with h₁ h₂ h₃ h₄ h₅
  exact ⟨by simpa using h₃, by simpa using h₅, hcl⟩

/-! ## Between START and END -/

/-- Without another opening, the region of the session stays, and nothing below it
changes. -/
theorem beforeEnd_frame {start : OtaFrame} {events : List FrameStatus} {lo : Nat}
    (h : Along (receive E K) (NoOpening K) (receive E K r (.ok start)) events)
    (hh : Healthy (receive E K r (.ok start)).client.dev)
    (habove : (receive E K r (.ok start)).client.state.Above lo) :
    Healthy (beforeEnd E K r start events).client.dev ∧
      (∃ w q, (beforeEnd E K r start events).client.state =
        { (receive E K r (.ok start)).client.state with written := w, expectedSeq := q }) ∧
      ∀ x < lo, byte (beforeEnd E K r start events).client.dev x =
        byte (receive E K r (.ok start)).client.dev x := by
  unfold beforeEnd
  generalize receive E K r (.ok start) = r₁ at h hh habove ⊢
  refine inv_of_along (I := fun r : Receiver σ ↦ Healthy r.client.dev ∧
      (∃ w q, r.client.state = { r₁.client.state with written := w, expectedSeq := q }) ∧
      ∀ x < lo, byte r.client.dev x = byte r₁.client.dev x) ?_ ⟨hh, ⟨_, _, rfl⟩, fun _ _ ↦ rfl⟩ h
  rintro r s ⟨hr, ⟨w, q, hst⟩, hfr⟩ hno
  unfold receive
  rcases receiveStep_client E K s r with hc | ⟨f, rfl, hrx, hc⟩
  · rw [hc]
    exact ⟨hr, ⟨w, q, hst⟩, hfr⟩
  · have hnone := hno f rfl hrx
    have habove' : r.client.state.Above lo := by rw [hst]; exact habove
    rw [hc]
    refine ⟨healthy_handleFrame E K f hr, ?_, fun x hx ↦ ?_⟩
    · rcases handleFrame_state E K f r.client with ⟨o, ho, -⟩ | ⟨w', q', hst'⟩
      · rw [hnone] at ho
        cases ho
      · exact ⟨w', q', by rw [hst', hst]⟩
    · rw [handleFrame_frame habove' (fun _ ↦ hx) fun o ho ↦ by rw [hnone] at ho; cases ho]
      exact hfr x hx

/-! ## The pass after the reset -/

/-- With slot B verified, its version admitted and the swap requested, a pass that has a
valid record with slot A active, or none, boots slot B. -/
theorem pass_boots_slotB {record : BootConfig} {S : Slots} {b : SharedBootBlock}
    (hv : S.b.verifies = true)
    (hallowed : bootConfigFirmwareAllowed (loadedConfig record S) S.b.version = true)
    (hpending : b.otaPending ≠ 0) (hconfirmed : b.confirmed = false)
    (hactive : bootConfigValidate record = true → record.activeSlot = slotA) :
    (pass Slots.eraseA record S b).pick = .boot slotB := by
  -- a swap from slot A commits, and the choice falls on slot B
  have hswap : ∀ cfg S' ws, S'.b = S.b → cfg.activeSlot = slotA →
      bootConfigFirmwareAllowed cfg S.b.version = true →
      (passPick (passSwap Slots.eraseA b.otaPending ⟨cfg, S', ws⟩).2.slots
        (passSwap Slots.eraseA b.otaPending ⟨cfg, S', ws⟩).2.cfg).1 = .boot slotB := by
    intro cfg S' ws hS hcfg hall
    have hother : S'.slot (memoryMapOtherSlot cfg.activeSlot) = S.b := by
      rw [hcfg, memoryMapOtherSlot_slotA, Slots.slot_slotB, hS]
    have hc : SwapCommits cfg S' b.otaPending := ⟨hpending, by rw [hother]; exact hv, by
      rw [hother]; exact hall⟩
    have hkeep : ((Slots.eraseA S').slot (memoryMapOtherSlot cfg.activeSlot)).verifies = true := by
      rw [hcfg, memoryMapOtherSlot_slotA, Slots.slot_slotB]
      exact hS ▸ hv
    rw [@passSwap_of_commits Slots.eraseA _ ⟨cfg, S', ws⟩ hc hkeep]
    have hb : (swapConfig cfg (S'.slot (memoryMapOtherSlot cfg.activeSlot)).version).activeSlot =
        slotB := by
      rw [swapConfig]
      dsimp only
      rw [hcfg, memoryMapOtherSlot_slotA]
    dsimp only [PassState.save]
    rw [passPick_of_slotB hb, if_pos (hS ▸ hv), if_neg (by simp [swapConfig, maxBootAttempts])]
  unfold pass
  dsimp only
  cases hr : bootConfigValidate record
  · -- no record: the recovered one is saved, which costs slot A
    rw [loadedConfig, hr, if_neg Bool.false_ne_true] at hallowed
    rw [passConfirm_unconfirmed _ _ _ hconfirmed, hr, if_neg Bool.false_ne_true, loadedConfig, hr,
      if_neg Bool.false_ne_true]
    dsimp only [PassState.save]
    rcases recovered_activeSlot_cases S.a.validVersion S.b.validVersion with ha | hb
    · exact hswap _ _ _ rfl ha hallowed
    · -- slot B is active already, and slot A is gone
      have hnc :
          ¬SwapCommits (recovered S.a.validVersion S.b.validVersion) S.eraseA b.otaPending := by
        rintro ⟨-, he, -⟩
        rw [hb, memoryMapOtherSlot_slotB, Slots.slot_slotA] at he
        cases he
      rw [passSwap_of_not_commits hnc]
      dsimp only
      rw [passPick_of_slotB hb, if_pos (show S.eraseA.b.verifies = true from hv),
        recovered_bootAttempts, if_neg (by decide)]
  · rw [loadedConfig, hr, if_pos rfl] at hallowed
    rw [passConfirm_unconfirmed _ _ _ hconfirmed, hr, if_pos rfl]
    exact hswap _ _ _ rfl (hactive hr) hallowed

/-- A pass over a powered device changes only the sector of the record. -/
theorem main_frame (K : KeyStore) {m : Machine σ} (h : Powered m.dev) {x : Nat}
    (hx : ¬InConfigSector x) :
    byte (main (onFlash σ K) m).2.dev x = byte (flashInit m.dev) x := by
  rw [main_eq (onFlash_onSlots K) (m := m) (healthy_flashInit h)]
  exact saveAll_inv (P := onFlash σ K) (I := fun s ↦ byte s x = byte (flashInit m.dev) x)
    (fun cfg s hs ↦ (bootConfigSave_frame cfg s hx).trans hs) rfl _

/-- What is loaded is a function of the record and the slots. -/
theorem loadedOn_eq (K : KeyStore) (s : σ) :
    loadedOn K s = loadedConfig (readConfig s) (.ofMem K (byte s)) := by
  rw [loadedOn, bootConfigLoad_eq (onFlash_sees K) trivial, readConfig_onFlash]

/-- A verified image in slot B that has been requested is delivered. -/
theorem delivers_slotB {m : Machine σ} (hh : Healthy m.dev)
    (hv : cryptoVerifyFirmware K (byte m.dev) slotBAddr = true)
    (hallowed : bootConfigFirmwareAllowed (loadedOn K m.dev)
      (FirmwareHeader.ofMem (byte m.dev) slotBAddr).version = true)
    (hpending : m.shared.otaPending ≠ 0) (hconfirmed : m.shared.confirmed = false)
    (hactive : bootConfigValidate (readConfig m.dev) = true →
      (readConfig m.dev).activeSlot = slotA) : Delivers K m slotBAddr := by
  have hinit := flashInit_of_healthy hh
  have hp := powered_of_healthy hh
  have hkeep : ∀ x, slotBAddr ≤ x → x < slotBAddr + slotSize →
      byte (main (onFlash σ K) m).2.dev x = byte m.dev x := fun x h₁ _ ↦ by
    have hend : bootConfigAddr + 0x10000 ≤ slotBAddr := by decide
    rw [main_frame K hp (fun hc ↦ by have := hc.2; omega), hinit]
  refine ⟨?_, hkeep, ?_⟩
  · rw [loadedOn_eq] at hallowed
    have hpick : (flashPass K m).pick = .boot slotB := by
      unfold flashPass
      rw [hinit]
      exact pass_boots_slotB hv hallowed hpending hconfirmed hactive
    rw [(main_onFlash K hp).1, hpick]
    exact decisionOf_slotB
  · rw [cryptoVerifyFirmware_congr K fun x hx ↦ hkeep x hx.1 hx.2]
    exact hv

/-- Slot A is never delivered. -/
theorem not_delivers_slotA {m : Machine σ} (hp : Powered m.dev) : ¬Delivers K m slotAAddr := by
  rintro ⟨hjump, -, hafter⟩
  exact Bool.false_ne_true ((slotA_not_verifies_of_main_jump K hp hjump).symm.trans hafter)

/-- What a full transfer says about the flash and the shared block at the reset: `o` is
the opening of its START. -/
structure Requested (E : PatchEngine) (K : KeyStore) (r : Receiver σ) (start : OtaFrame)
    (events : List FrameStatus) (stop : OtaFrame) (o : Opening) : Prop where
  addr : o.addr = memoryMapSlotAddr (memoryMapOtherSlot (loadedOn K r.client.dev).activeSlot)
  slotAddr : (beforeEnd E K r start events).client.state.slotAddr = o.addr
  healthy : Healthy (atReset E K r start events stop).dev
  below : ∀ x < o.addr, byte (atReset E K r start events stop).dev x =
    byte (flashEraseRange o.addr o.size r.client.dev).2 x
  verifies : cryptoVerifyFirmware K (byte (atReset E K r start events stop).dev) o.addr = true
  allowed : bootConfigFirmwareAllowed (loadedOn K (atReset E K r start events stop).dev)
    (FirmwareHeader.ofMem (byte (atReset E K r start events stop).dev) o.addr).version = true
  pending : (atReset E K r start events stop).shared.otaPending ≠ 0
  unconfirmed : (atReset E K r start events stop).shared.confirmed = false

theorem FullTransfer.requested {start stop : OtaFrame} {events : List FrameStatus}
    (h : FullTransfer E K r start events stop) (hh : Healthy r.client.dev) :
    ∃ o, Requested E K r start events stop o := by
  obtain ⟨o, ho, hkind, hc₁⟩ := opened_of_acked h.start_op h.opened
  obtain ⟨haddr, -, -, hslot, htail⟩ := opening_region ho
  have hh₁ : Healthy (receive E K r (.ok start)).client.dev := by
    rw [hc₁]; exact healthy_erase _ _ hh
  have habove : (receive E K r (.ok start)).client.state.Above o.addr := by
    rw [hc₁]
    exact fun _ ↦ ⟨Nat.le_of_eq hslot.symm, htail⟩
  obtain ⟨hh₂, ⟨w, q, hst⟩, hfr⟩ := beforeEnd_frame h.same hh₁ habove
  rw [hc₁] at hst hfr
  obtain ⟨hv, hallowed, hc₂⟩ := closed_of_acked h.stop_op (by rw [hst]; exact hkind) h.closed
  have hslot₂ : (beforeEnd E K r start events).client.state.slotAddr = o.addr := by
    rw [hst]; exact hslot
  rw [hslot₂] at hv hallowed
  have hdev :
      (atReset E K r start events stop).dev = (beforeEnd E K r start events).client.dev := by
    rw [atReset, hc₂]
  have hshared : (atReset E K r start events stop).shared =
      { (beforeEnd E K r start events).client.shared with
        magic := sharedBlockMagic, otaPending := 1, bootConfirmed := 0 } := by
    rw [atReset, hc₂]
  refine ⟨o, haddr, hslot₂, ?_, ?_, ?_, ?_, ?_, ?_⟩
  · rw [hdev]; exact hh₂
  · rw [hdev]; exact hfr
  · rw [hdev]; exact hv
  · rw [hdev]; exact hallowed
  · rw [hshared]; exact (by decide : (1 : UInt32) ≠ 0)
  · rw [hshared]; simp [SharedBootBlock.confirmed]

/-- **Delivery.**  A full transfer that is acknowledged at END is delivered by the pass
after the reset exactly when the record in force at its START had slot A active,
whatever the slots held before. -/
theorem delivery_iff (E : PatchEngine) (K : KeyStore) (r : Receiver σ)
    (hh : Healthy r.client.dev) {start stop : OtaFrame} {events : List FrameStatus}
    (h : FullTransfer E K r start events stop) :
    Delivers K (atReset E K r start events stop)
        (beforeEnd E K r start events).client.state.slotAddr ↔
      (loadedOn K r.client.dev).activeSlot = slotA := by
  obtain ⟨o, ho⟩ := h.requested hh
  obtain ⟨haddr, hslot, hh', hbelow, hv, hallowed, hpending, hconfirmed⟩ := ho
  rw [hslot]
  generalize atReset E K r start events stop = m at hh' hbelow hv hallowed hpending hconfirmed ⊢
  constructor
  · intro hd
    by_contra hactive
    rw [haddr, memoryMapOtherSlot_of_ne hactive, memoryMapSlotAddr_slotA] at hd
    exact not_delivers_slotA (powered_of_healthy hh') hd
  · intro hactive
    rw [haddr, hactive, memoryMapOtherSlot_slotA, memoryMapSlotAddr_slotB] at hbelow hv hallowed ⊢
    -- the record is the one of the START
    have hcfg : readConfig m.dev = readConfig r.client.dev := by
      refine BootConfig.ofMem_congr fun x hx ↦ ?_
      have hbefore : bootConfigAddr + bootConfigRecordSize ≤ 0x08080000 := by decide
      have hbefore' : (0x08080000 : Nat) ≤ slotBAddr := by decide
      have hlt := hx.2
      rw [hbelow x (by omega)]
      exact erase_frame _ (not_covered_below_slotB (by omega))
    refine delivers_slotB hh' hv hallowed hpending hconfirmed fun hvalid ↦ ?_
    rw [hcfg] at hvalid ⊢
    rwa [loadedOn_of_valid K hvalid] at hactive

end Transfer

/-! ## Transfers that are acknowledged -/

/-- A DATA frame opens nothing. -/
theorem opening_data {σ : Type} [FlashBackend σ] {K : KeyStore} {f : OtaFrame} {c : OtaClient σ}
    (hop : f.op = otaOpData) : opening K f c = none := by
  unfold opening
  rw [hop, if_neg (by decide), if_neg (by decide)]

section Push

variable {E : PatchEngine} {K : KeyStore} {image : List UInt8} {chunk : ChunkSize}
  {r : Receiver Hw}

/-- A receiver without flash faults takes DATA frames one after the other. -/
theorem Receiver.Ready.hear_all {taken fs rest : List OtaFrame}
    (hfr : pushFrames image chunk = taken ++ (fs ++ rest)) (hop : ∀ f ∈ fs, f.op = otaOpData)
    (hne : taken ≠ []) (h : r.Ready image.length taken 0) :
    Along (receive E K) (NoOpening K) r (fs.map .ok) ∧
      ((fs.map FrameStatus.ok).foldl (receive E K) r).Ready image.length (taken ++ fs) 0 := by
  induction fs generalizing taken r with
  | nil => exact ⟨trivial, by rw [List.append_nil]; exact h⟩
  | cons f fs ih =>
      have hf : f.op = otaOpData := hop f (List.mem_cons_self ..)
      obtain ⟨-, hnext, -⟩ := h.hear_data (E := E) (K := K) hfr hf hne
      obtain ⟨hno, hready⟩ := ih (r := receive E K r (.ok f))
        (show pushFrames image chunk = (taken ++ [f]) ++ (fs ++ rest) by
          rw [hfr, List.append_assoc]; rfl) (fun g hg ↦ hop g (List.mem_cons_of_mem _ hg))
        (List.append_ne_nil_of_right_ne_nil _ (List.cons_ne_nil f [])) hnext
      refine ⟨⟨fun g hg _ ↦ ?_, hno⟩, ?_⟩
      · cases hg
        exact opening_data hf
      · rwa [List.append_assoc] at hready

/-- The frames of a signed image up to END: START is acknowledged, nothing else is
opened, and the image is on flash as a complete session. -/
theorem staged_of_healthy (E : PatchEngine) (img : SignedImage K) (chunk : ChunkSize)
    (hrx : r.status = .receiving) (hh : r.client.dev.Healthy) :
    (receive E K r (.ok (startFrame img.bytes.length))).Ready img.bytes.length
        [startFrame img.bytes.length] 0 ∧
      isAcked (receiveStep E K (.ok (startFrame img.bytes.length)) r).1 = true ∧
      Along (receive E K) (NoOpening K) (receive E K r (.ok (startFrame img.bytes.length)))
        ((imageFrames img.bytes chunk).map .ok) ∧
      (beforeEnd E K r (startFrame img.bytes.length)
        ((imageFrames img.bytes chunk).map .ok)).Ready img.bytes.length
          (transferFrames img.bytes chunk) 0 ∧
      Mem.read (byte (beforeEnd E K r (startFrame img.bytes.length)
          ((imageFrames img.bytes chunk).map .ok)).client.dev)
        (beforeEnd E K r (startFrame img.bytes.length)
          ((imageFrames img.bytes chunk).map .ok)).client.state.slotAddr img.bytes.length =
        img.bytes ∧
      (beforeEnd E K r (startFrame img.bytes.length)
        ((imageFrames img.bytes chunk).map .ok)).client.state.written = img.bytes.length := by
  have hsize := (FirmwareHeader.admissible_iff.1 img.admissible).2
  have hlen := img.length_bytes
  have hstart : r.Ready img.bytes.length [] r.consecErrs :=
    ⟨hrx, rfl, hh, ⟨fun h ↦ absurd rfl h, fun ⟨_, h, _⟩ ↦ (by cases h)⟩, fun h ↦ absurd rfl h⟩
  obtain ⟨hack, hopen⟩ :=
    Receiver.Ready.hear_start (E := E) (K := K) (by omega) (by omega) (.inl hstart)
  have hopen' : (receive E K r (.ok (startFrame img.bytes.length))).Ready img.bytes.length
      [startFrame img.bytes.length] 0 := hopen
  obtain ⟨hno, hready⟩ := hopen'.hear_all (E := E) (K := K)
    (show pushFrames img.bytes chunk = [startFrame img.bytes.length] ++
      (imageFrames img.bytes chunk ++
        [endFrame (UInt16.ofNat (imageFrames img.bytes chunk).length + 2)]) from rfl)
    (fun f hf ↦ (imageFrames_data img.bytes chunk hf).1) (List.cons_ne_nil _ _)
  refine ⟨hopen', by rw [hack]; rfl, hno, hready, ?_⟩
  unfold beforeEnd
  generalize ((imageFrames img.bytes chunk).map FrameStatus.ok).foldl (receive E K)
    (receive E K r (.ok (startFrame img.bytes.length))) = r₂ at hready ⊢
  have htook := hready.took.client (List.append_ne_nil_of_left_ne_nil (List.cons_ne_nil _ _) _)
  have hstaged := htook.holds.staged
  rw [show [startFrame img.bytes.length] ++ imageFrames img.bytes chunk =
    transferFrames img.bytes chunk from rfl, sessionOf_transferFrames, ← List.flatMap_def,
    imageFrames_flatMap] at hstaged
  have hwritten : r₂.client.state.written = img.bytes.length := by
    rw [← hstaged, Mem.length_read]
  exact ⟨by rwa [hwritten] at hstaged, hwritten⟩

/-- END of a complete session with a signed image: the version decides. -/
theorem handleEnd_staged {c : OtaClient Hw} {taken : List OtaFrame} {img : SignedImage K}
    (E : PatchEngine) (h : c.Took img.bytes.length taken)
    (hwritten : c.state.written = img.bytes.length)
    (hstaged : (byte c.dev).read c.state.slotAddr img.bytes.length = img.bytes) :
    (handleEnd E K c).1 =
      bootConfigFirmwareAllowed (loadedOn K c.dev) img.header.version := by
  unfold handleEnd
  rw [h.active, if_neg (by decide), hwritten, h.xferTotal, if_neg (not_not.mpr rfl),
    h.kind, if_neg (by decide)]
  exact (endVerify_signed hstaged).1

/-- An image whose version no record refuses is transferred and acknowledged. -/
theorem fullTransfer_of_allowed (img : SignedImage K)
    (hallowed : ∀ cfg, bootConfigFirmwareAllowed cfg img.header.version = true)
    (hrx : r.status = .receiving) (hh : r.client.dev.Healthy) (chunk : ChunkSize) :
    FullTransfer E K r (startFrame img.bytes.length) ((imageFrames img.bytes chunk).map .ok)
      (endFrame 0) := by
  obtain ⟨-, hack, hno, hready, hstaged, hwritten⟩ := staged_of_healthy E img chunk hrx hh
  refine ⟨rfl, hack, hno, rfl, ?_⟩
  have htook := hready.took.client (List.cons_ne_nil _ _)
  generalize beforeEnd E K r (startFrame img.bytes.length)
    ((imageFrames img.bytes chunk).map FrameStatus.ok) = r₂ at hready hstaged hwritten htook ⊢
  have hok : (handleFrame E K (endFrame 0) r₂.client).1 = true :=
    (handleEnd_staged E htook hwritten hstaged).trans (hallowed _)
  rw [(receiveStep_ok (E := E) (K := K) hready.receiving
    (show (endFrame 0).op ≠ otaOpAbort by decide)).1 hok]
  rfl

/-- The sample image with the largest version. -/
theorem fullTransfer_sample (E : PatchEngine) {r : Receiver Hw} (hrx : r.status = .receiving)
    (hh : r.client.dev.Healthy) :
    FullTransfer E sampleKeys r (startFrame (sampleImage 0xFFFFFFFF).bytes.length)
      ((imageFrames (sampleImage 0xFFFFFFFF).bytes wholeChunk).map .ok) (endFrame 0) := by
  refine fullTransfer_of_allowed (sampleImage 0xFFFFFFFF) (fun cfg ↦ ?_) hrx hh wholeChunk
  rw [bootConfigFirmwareAllowed_iff, header_sampleImage, version_sampleHeader]
  exact Nat.le_of_lt_succ (UInt32.toNat_lt _)

/-- With the default record the sample transfer to slot B is delivered. -/
theorem delivery_sample :
    Delivers sampleKeys
      (atReset refusingEngine sampleKeys (.enter (Hw.reset defaultMem) .zero)
        (startFrame (sampleImage 0xFFFFFFFF).bytes.length)
        ((imageFrames (sampleImage 0xFFFFFFFF).bytes wholeChunk).map .ok) (endFrame 0))
      (beforeEnd refusingEngine sampleKeys (.enter (Hw.reset defaultMem) .zero)
        (startFrame (sampleImage 0xFFFFFFFF).bytes.length)
        ((imageFrames (sampleImage 0xFFFFFFFF).bytes wholeChunk).map
          .ok)).client.state.slotAddr := by
  have hcfg : readConfig (Hw.reset defaultMem) = bootConfigDefault := ofMem_defaultMem
  have hh : (Hw.reset defaultMem).Healthy := Hw.healthy_reset _
  refine (delivery_iff refusingEngine sampleKeys (.enter (Hw.reset defaultMem) .zero) hh
    (fullTransfer_sample refusingEngine rfl hh)).2 ?_
  have hload : loadedOn sampleKeys (Hw.reset defaultMem) = bootConfigDefault := by
    rw [loadedOn_of_valid sampleKeys (hcfg ▸ bootConfigValidate_default), hcfg]
  exact congrArg BootConfig.activeSlot hload

/-- Both slots are erased and slot B is recorded active: the transfer to slot A is
acknowledged and not delivered. -/
theorem delivery_fails_slotA :
    cryptoVerifyFirmware sampleKeys activeBMem slotAAddr = false ∧
      cryptoVerifyFirmware sampleKeys activeBMem slotBAddr = false ∧
      FullTransfer refusingEngine sampleKeys (.enter (Hw.reset activeBMem) .zero)
        (startFrame (sampleImage 0xFFFFFFFF).bytes.length)
        ((imageFrames (sampleImage 0xFFFFFFFF).bytes wholeChunk).map .ok) (endFrame 0) ∧
      ¬Delivers sampleKeys
        (atReset refusingEngine sampleKeys (.enter (Hw.reset activeBMem) .zero)
          (startFrame (sampleImage 0xFFFFFFFF).bytes.length)
          ((imageFrames (sampleImage 0xFFFFFFFF).bytes wholeChunk).map .ok) (endFrame 0))
        (beforeEnd refusingEngine sampleKeys (.enter (Hw.reset activeBMem) .zero)
          (startFrame (sampleImage 0xFFFFFFFF).bytes.length)
          ((imageFrames (sampleImage 0xFFFFFFFF).bytes wholeChunk).map
            .ok)).client.state.slotAddr := by
  have hh : (Hw.reset activeBMem).Healthy := Hw.healthy_reset _
  have herased : ∀ x, slotAAddr ≤ x → activeBMem x = 0xFF := fun x hx ↦
    Mem.write_of_notMem _ _ _ _ (.inr (Nat.le_trans (by decide) hx))
  have hAB := slotA_before_slotB
  refine ⟨cryptoVerifyFirmware_erased _ fun x h _ ↦ herased x h,
    cryptoVerifyFirmware_erased _ fun x h _ ↦ herased x (by omega),
    fullTransfer_sample refusingEngine rfl hh, ?_⟩
  obtain ⟨o, ho⟩ := (fullTransfer_sample refusingEngine
    (r := .enter (Hw.reset activeBMem) .zero) rfl hh).requested hh
  have hcfg : readConfig (Hw.reset activeBMem) =
      bootConfigStampCrc { bootConfigDefault with activeSlot := slotB } :=
    BootConfig.ofMem_of_read (Mem.read_write _ _ _)
  have hload : loadedOn sampleKeys (Hw.reset activeBMem) =
      bootConfigStampCrc { bootConfigDefault with activeSlot := slotB } := by
    rw [loadedOn_of_valid sampleKeys (by rw [hcfg, bootConfigValidate_stampCrc]; rfl), hcfg]
  have haddr : o.addr = slotAAddr := ho.addr.trans (by
    rw [show (Receiver.enter (Hw.reset activeBMem) .zero).client.dev = Hw.reset activeBMem from rfl,
      hload]
    rfl)
  rw [ho.slotAddr, haddr]
  exact not_delivers_slotA (powered_of_healthy ho.healthy)

end Push

end DualBank
