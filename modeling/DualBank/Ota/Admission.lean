import DualBank.Ota.Delivery

/-!
# What START admits

`handle_start` bounds the announced total by the size of a slot, `handle_start_delta` by
`flash_ota_slot_span()`, the part of a slot that the backend can erase and program.  On the
hardware the two are the same.  On QEMU the span is smaller, and a START above it opens a
session whose later frames cannot be stored.
-/

namespace DualBank

open Lib FlashBackend

/-! ## In-sequence frames -/

/-- A DATA frame that the session expects next and that it has room for. -/
structure OtaState.InSequence (st : OtaState) (f : OtaFrame) : Prop where
  op : f.op = otaOpData
  seq : f.seq = st.expectedSeq
  data : f.data ≠ []
  room : st.written + f.data.length ≤ st.xferTotal

section Session

variable {σ : Type} [FlashBackend σ] (E : PatchEngine) (K : KeyStore)

/-- An in-sequence frame is acknowledged, and what the slot holds of the session grows by
its payload. -/
def TakesData (r : Receiver σ) (s : FrameStatus) : Prop :=
  ∀ f, s = .ok f → r.status = .receiving → r.client.state.InSequence f →
    isAcked (receiveStep E K s r).1 = true ∧
      (receive E K r s).client.state.written = r.client.state.written + f.data.length ∧
      (byte (receive E K r s).client.dev).read r.client.state.slotAddr
          (r.client.state.written + f.data.length) =
        (byte r.client.dev).read r.client.state.slotAddr r.client.state.written ++ f.data

/-- Whatever frames and read errors come after the START, as long as nothing else is opened,
every in-sequence frame is taken. -/
def SoundAdmission (r : Receiver σ) (start : OtaFrame) : Prop :=
  ∀ events, Along (receive E K) (NoOpening K) (receive E K r (.ok start)) events →
    Along (receive E K) (TakesData E K) (receive E K r (.ok start)) events

/-! ## Sessions with room -/

/-- An open full transfer to a slot with `total` bytes to come and a flash that can take
all that are left. -/
structure OtaClient.Admits (c : OtaClient σ) (base total : Nat) : Prop where
  active : c.state.active = true
  kind : c.state.kind = .full
  slotAddr : c.state.slotAddr = base
  xferTotal : c.state.xferTotal = total
  healthy : Healthy c.dev
  erased : ∀ i, c.state.written ≤ i → i < total →
    byte c.dev (base + i) = 0xFF ∧ Writable σ (base + i)

variable {E K} {c : OtaClient σ} {f : OtaFrame} {base total : Nat}

omit [FlashBackend σ] in
theorem dataDest_inSequence (ha : c.state.active = true) (hk : c.state.kind = .full)
    (h : c.state.InSequence f) :
    dataDest f c.state = some (c.state.slotAddr + c.state.written) := by
  have hlen : ¬f.data.length = 0 := fun e ↦ h.data (List.length_eq_zero_iff.1 e)
  have hnd : ¬c.state.kind = .delta := by rw [hk]; decide
  unfold dataDest
  rw [ha, if_neg (by decide), if_neg (not_not.2 h.seq), if_neg hlen,
    if_neg (Nat.not_lt.2 h.room), if_neg hnd]

/-- A session with room takes a DATA frame for which it has an address. -/
theorem OtaClient.Admits.handleData (h : c.Admits base total) {dest : Nat}
    (hd : dataDest f c.state = some dest) :
    (handleData f c).1 = true ∧
      (handleData f c).2.state = { c.state with
        written := c.state.written + f.data.length
        expectedSeq := c.state.expectedSeq + 1 } ∧
      (handleData f c).2.Admits base total ∧
      (byte (handleData f c).2.dev).read base (c.state.written + f.data.length) =
        (byte c.dev).read base c.state.written ++ f.data := by
  obtain ⟨rfl, hroom⟩ := dataDest_full hd h.kind
  rw [h.xferTotal] at hroom
  obtain ⟨s', hp, hh, hread, hframe⟩ := exists_programBytes (c.state.slotAddr + c.state.written)
    f.data h.healthy fun i hi ↦ by
      rw [h.slotAddr, Nat.add_assoc]
      exact h.erased _ (Nat.le_add_right _ _) (by omega)
  rw [h.slotAddr] at hp hread hframe
  have he : DualBank.handleData f c = (true, { c with
      dev := s'
      state := { c.state with
        written := c.state.written + f.data.length
        expectedSeq := c.state.expectedSeq + 1 } }) := by
    unfold DualBank.handleData
    rw [hd]
    dsimp only
    rw [h.slotAddr, hp]
    exact if_neg (not_not.2 rfl)
  rw [he]
  refine ⟨rfl, rfl, ⟨h.active, h.kind, h.slotAddr, h.xferTotal, hh, fun i h₁ h₂ ↦ ?_⟩, ?_⟩
  · have hi := h.erased i (by dsimp only at h₁; omega) h₂
    refine ⟨?_, hi.2⟩
    rw [← hi.1]
    exact hframe _ (.inr (by dsimp only at h₁; omega))
  · dsimp only
    rw [Mem.read_add, hread, Mem.read_congr fun x hx ↦ hframe x (.inl hx.2)]

/-- A frame that opens nothing leaves a session with room. -/
theorem OtaClient.Admits.handleFrame (h : c.Admits base total) (hno : opening K f c = none) :
    (handleFrame E K f c).2.Admits base total := by
  by_cases hop : f.op = otaOpStart ∨ f.op = otaOpStartDelta
  · rw [handleFrame_of_opens E K c hop, hno]
    exact h
  by_cases hdata : f.op = otaOpData
  · rw [handleFrame_data E K c hdata]
    cases hd : dataDest f c.state with
    | none =>
        unfold DualBank.handleData
        rw [hd]
        exact h
    | some dest => exact (h.handleData hd).2.2.1
  by_cases hend : f.op = otaOpEnd
  · rw [handleFrame_end E K c hend]
    obtain ⟨hst, hdev⟩ := handleEnd_frame E K c
    have hdev := hdev h.kind
    refine ⟨?_, ?_, ?_, ?_, ?_, fun i h₁ h₂ ↦ ?_⟩
    · rw [hst]; exact h.active
    · rw [hst]; exact h.kind
    · rw [hst]; exact h.slotAddr
    · rw [hst]; exact h.xferTotal
    · rw [hdev]; exact h.healthy
    · rw [hdev]
      rw [hst] at h₁
      exact h.erased i h₁ h₂
  · unfold DualBank.handleFrame
    rw [if_neg fun e ↦ hop (.inl e), if_neg fun e ↦ hop (.inr e), if_neg hdata, if_neg hend]
    exact h

/-- A receiver whose session has room takes every in-sequence frame, and keeps the room. -/
theorem OtaClient.Admits.receive {r : Receiver σ} (h : r.client.Admits base total)
    {s : FrameStatus} (hno : NoOpening K r s) :
    TakesData E K r s ∧ (receive E K r s).client.Admits base total := by
  constructor
  · rintro f rfl hrx hseq
    have hd := dataDest_inSequence h.active h.kind hseq
    obtain ⟨hok, hst, -, hread⟩ := h.handleData hd
    have hop : f.op ≠ otaOpAbort := by rw [hseq.op]; decide
    obtain ⟨hcl, hack, -⟩ := receiveFrame_spec E K (r := r) hop
    rw [handleFrame_data E K r.client hseq.op] at hcl hack
    have hstep : receiveStep E K (.ok f) r = receiveFrame E K f r := by
      unfold receiveStep
      rw [if_neg (not_not.2 hrx)]
    unfold DualBank.receive
    rw [hstep, hack, hcl, h.slotAddr]
    exact ⟨hok, by rw [hst], hread⟩
  · unfold DualBank.receive
    rcases receiveStep_client E K s r with hc | ⟨f, rfl, hrx, hc⟩
    · rw [hc]
      exact h
    · rw [hc]
      exact h.handleFrame (hno f rfl hrx)

/-! ## Opening -/

/-- An acknowledged START has announced a total that fits a slot, and leaves a session with
room if it fits the span. -/
theorem admits_of_acked {r : Receiver σ} {start : OtaFrame} (hh : Healthy r.client.dev)
    (hop : start.op = otaOpStart) (h : isAcked (receiveStep E K (.ok start) r).1 = true) :
    ∃ slot, (receive E K r (.ok start)).client.state.active = true ∧
      (receive E K r (.ok start)).client.state.kind = .full ∧
      (receive E K r (.ok start)).client.state.slotAddr = memoryMapSlotAddr slot ∧
      (receive E K r (.ok start)).client.state.xferTotal = (u32At start.data 0).toNat ∧
      (receive E K r (.ok start)).client.state.written = 0 ∧
      (u32At start.data 0).toNat ≤ slotSize ∧
      ((u32At start.data 0).toNat ≤ flashOtaSlotSpan σ →
        (receive E K r (.ok start)).client.Admits (memoryMapSlotAddr slot)
          (u32At start.data 0).toNat) := by
  obtain ⟨o, ho, -, hcl⟩ := opened_of_acked hop h
  unfold opening at ho
  rw [if_pos hop] at ho
  obtain ⟨-, hmin, hmax, rfl⟩ := startOpens_eq_some.1 ho
  have hfit := image_fits_slot
  have hpos : 0 < firmwareHeaderSize := by decide
  generalize memoryMapOtherSlot (loadedOn K r.client.dev).activeSlot = slot at hcl
  generalize (u32At start.data 0).toNat = n at hcl hmin hmax ⊢
  have hin := slot_in_flash slot
  obtain ⟨s', he, hh', herased, -⟩ := exists_erase (memoryMapSlotAddr slot) n hh (by omega)
    (by omega) (by omega)
  rw [hcl, he]
  refine ⟨slot, rfl, rfl, rfl, rfl, rfl, by omega, fun hspan ↦ ⟨rfl, rfl, rfl, rfl, hh', ?_⟩⟩
  intro i _ hi
  have hw : Writable σ (memoryMapSlotAddr slot + i) := by
    rcases memoryMapSlotAddr_cases slot with hs | hs
    · rw [hs]
      exact writable_slotA i (by omega)
    · rw [hs]
      exact writable_slotB i (by omega)
  exact ⟨herased _ (covered_of_mem (Nat.le_add_right _ _) (by omega)) (by omega) hw, hw⟩

/-- A START within the span is soundly admitted. -/
theorem soundAdmission_of_le {r : Receiver σ} {start : OtaFrame} (hh : Healthy r.client.dev)
    (hop : start.op = otaOpStart) (h : isAcked (receiveStep E K (.ok start) r).1 = true)
    (hspan : (u32At start.data 0).toNat ≤ flashOtaSlotSpan σ) : SoundAdmission E K r start := by
  obtain ⟨slot, -, -, -, -, -, -, hroom⟩ := admits_of_acked hh hop h
  intro events hno
  exact hno.mono_of_inv (I := fun r : Receiver σ ↦ r.client.Admits (memoryMapSlotAddr slot)
    (u32At start.data 0).toNat) (fun _ _ hr hs ↦ hr.receive hs) (hroom hspan)

/-! ## Filling a session byte by byte -/

/-- The DATA frame of one byte that a session expects next. -/
def nextByte (st : OtaState) : OtaFrame := ⟨otaOpData, st.expectedSeq, [0], one_le_otaMaxPayload⟩

theorem inSequence_nextByte {st : OtaState} (h : st.written < st.xferTotal) :
    st.InSequence (nextByte st) := ⟨rfl, rfl, List.cons_ne_nil _ _, h⟩

/-- What is left of a session when DATA frames have been taken. -/
structure Receiver.Continues (r r' : Receiver σ) (n : Nat) : Prop where
  status : r'.status = .receiving
  state : ∃ q, r'.client.state = { r.client.state with written := n, expectedSeq := q }

/-- In a soundly admitted session one byte after the other is taken, up to the total: the
transfer can be completed. -/
theorem SoundAdmission.exists_written {r : Receiver σ} {start : OtaFrame}
    (h : SoundAdmission E K r start) (hrx : (receive E K r (.ok start)).status = .receiving)
    (hw : (receive E K r (.ok start)).client.state.written = 0)
    {n : Nat} (hn : n ≤ (receive E K r (.ok start)).client.state.xferTotal) :
    ∃ events, Along (receive E K) (NoOpening K) (receive E K r (.ok start)) events ∧
      (receive E K r (.ok start)).Continues
        (events.foldl (receive E K) (receive E K r (.ok start))) n := by
  induction n with
  | zero => exact ⟨[], trivial, hrx, _, by rw [← hw]; rfl⟩
  | succ n ih =>
      obtain ⟨events, hno, hst, q, hq⟩ := ih (Nat.le_of_succ_le hn)
      obtain ⟨r₁, hr₁⟩ : ∃ r₁, events.foldl (receive E K) (receive E K r (.ok start)) = r₁ :=
        ⟨_, rfl⟩
      rw [hr₁] at hst hq
      have hseq : r₁.client.state.InSequence (nextByte r₁.client.state) :=
        inSequence_nextByte (by rw [hq]; exact hn)
      have hno' : Along (receive E K) (NoOpening K) (receive E K r (.ok start))
          (events ++ [.ok (nextByte r₁.client.state)]) :=
        (along_append ..).2 ⟨hno, fun f hf _ ↦ by cases hf; exact opening_data rfl, trivial⟩
      have htake := ((along_append ..).1 (h _ hno')).2.1
      rw [hr₁] at htake
      obtain ⟨hack, hwritten, -⟩ := htake _ rfl hst hseq
      refine ⟨_, hno', ?_⟩
      rw [List.foldl_append, hr₁]
      -- the acknowledged frame has changed the counters only
      have hop : (nextByte r₁.client.state).op ≠ otaOpAbort := by
        rw [hseq.op]
        decide
      obtain ⟨hok, hcl⟩ := handleFrame_of_acked hop hack
      rw [handleFrame_data E K _ hseq.op] at hok hcl
      have hstatus : (receive E K r₁ (.ok (nextByte r₁.client.state))).status = .receiving := by
        have hstep := (receiveFrame_spec E K (r := r₁) hop).2.2
        rw [handleFrame_data E K _ hseq.op] at hstep
        unfold receive receiveStep
        rw [if_neg (not_not.2 hst)]
        exact (hstep hok (by rw [hseq.op]; decide)).trans hst
      refine ⟨hstatus,
        (receive E K r₁ (.ok (nextByte r₁.client.state))).client.state.expectedSeq, ?_⟩
      rw [List.foldl_cons, List.foldl_nil, hcl]
      rw [hcl] at hwritten
      unfold handleData at hok hwritten ⊢
      cases hd : dataDest (nextByte r₁.client.state) r₁.client.state with
      | none =>
          rw [hd] at hok
          cases hok
      | some dest =>
          rw [hd] at hok
          dsimp only at hok ⊢
          split_ifs at hok ⊢
          rw [hq]
          rfl

end Session

/-! ## The two backends -/

/-- QEMU refuses to program a byte that has no shadow. -/
theorem Qemu.flashProgramBytes_refused {addr : Nat} (h : shadowBytePtr addr = none) (b : UInt8)
    (s : Qemu) : Qemu.flashProgramBytes addr [b] s = (.errRange, s) := by
  unfold Qemu.flashProgramBytes Qemu.programLoop
  rw [h]

/-- Behind the span of a slot there is no shadow. -/
theorem shadowBytePtr_behind_span (slot : UInt8) :
    shadowBytePtr (memoryMapSlotAddr slot + Qemu.flashOtaSlotSpan) = none := by
  rcases memoryMapSlotAddr_cases slot with h | h
  · rw [h]
    decide
  · rw [h]
    decide

/-- A START above the span of QEMU is not soundly admitted. -/
theorem Qemu.not_soundAdmission {E : PatchEngine} {K : KeyStore} {r : Receiver Qemu}
    {start : OtaFrame} (hh : r.client.dev.Healthy) (hop : start.op = otaOpStart)
    (hack : isAcked (receiveStep E K (.ok start) r).1 = true)
    (hspan : Qemu.flashOtaSlotSpan < (u32At start.data 0).toNat) : ¬SoundAdmission E K r start := by
  intro h
  obtain ⟨slot, hactive, hkind, haddr, htotal, hw, -⟩ :=
    admits_of_acked (E := E) (K := K) hh hop hack
  obtain ⟨hok, -⟩ := handleFrame_of_acked (by rw [hop]; decide) hack
  have hrx : r.status = .receiving := by
    by_contra hne
    unfold receiveStep at hack
    rw [if_pos hne] at hack
    cases hack
  have hrx' : (receive E K r (.ok start)).status = .receiving := by
    unfold receive receiveStep
    rw [if_neg (not_not.2 hrx)]
    exact ((receiveFrame_spec E K (r := r) (by rw [hop]; decide)).2.2 hok
      (by rw [hop]; decide)).trans hrx
  obtain ⟨events, hno, hst, q, hq⟩ := h.exists_written hrx' hw
    (n := Qemu.flashOtaSlotSpan) (by rw [htotal]; exact hspan.le)
  -- the next byte has no shadow
  obtain ⟨r₁, hr₁⟩ : ∃ r₁, events.foldl (receive E K) (receive E K r (.ok start)) = r₁ := ⟨_, rfl⟩
  rw [hr₁] at hst hq
  have hseq : r₁.client.state.InSequence (nextByte r₁.client.state) :=
    inSequence_nextByte (by rw [hq]; exact htotal.symm ▸ hspan)
  have hno' : Along (receive E K) (NoOpening K) (receive E K r (.ok start))
      (events ++ [.ok (nextByte r₁.client.state)]) :=
    (along_append ..).2 ⟨hno, fun f hf _ ↦ by cases hf; exact opening_data rfl, trivial⟩
  have htake := ((along_append ..).1 (h _ hno')).2.1
  rw [hr₁] at htake
  obtain ⟨hok₁, -⟩ := handleFrame_of_acked (by rw [hseq.op]; decide) (htake _ rfl hst hseq).1
  have hd := dataDest_inSequence (c := r₁.client) (by rw [hq]; exact hactive)
    (by rw [hq]; exact hkind) hseq
  have hdest : r₁.client.state.slotAddr + r₁.client.state.written =
      memoryMapSlotAddr slot + Qemu.flashOtaSlotSpan := by
    rw [hq]
    exact congrArg (· + Qemu.flashOtaSlotSpan) haddr
  rw [handleFrame_data E K _ hseq.op, handleData, hd] at hok₁
  dsimp only at hok₁
  rw [hdest] at hok₁
  split_ifs at hok₁ with hne
  have hrefused := Qemu.flashProgramBytes_refused (shadowBytePtr_behind_span slot) 0 r₁.client.dev
  have hstatus : FlashStatus.errRange = .ok :=
    (congrArg Prod.fst hrefused).symm.trans (not_not.1 hne)
  cases hstatus

/-- **START admission.**  On either backend without faults, an acknowledged START is soundly
admitted exactly when its total is within the span of the backend; on the hardware every
total that is acknowledged is. -/
theorem admission_iff (E : PatchEngine) (K : KeyStore) :
    (∀ (r : Receiver Hw) (start : OtaFrame), r.client.dev.Healthy → start.op = otaOpStart →
      isAcked (receiveStep E K (.ok start) r).1 = true →
      (SoundAdmission E K r start ↔ (u32At start.data 0).toNat ≤ Hw.flashOtaSlotSpan)) ∧
    ∀ (r : Receiver Qemu) (start : OtaFrame), r.client.dev.Healthy → start.op = otaOpStart →
      isAcked (receiveStep E K (.ok start) r).1 = true →
      (SoundAdmission E K r start ↔ (u32At start.data 0).toNat ≤ Qemu.flashOtaSlotSpan) := by
  constructor
  · intro r start hh hop hack
    obtain ⟨-, -, -, -, -, -, hle, -⟩ := admits_of_acked (E := E) (K := K) hh hop hack
    exact iff_of_true (soundAdmission_of_le hh hop hack hle) hle
  · intro r start hh hop hack
    refine ⟨fun h ↦ ?_, soundAdmission_of_le hh hop hack⟩
    by_contra hgt
    exact Qemu.not_soundAdmission hh hop hack (Nat.not_le.1 hgt) h

/-- Without faults a receiver acknowledges every START in the range that `handle_start`
checks. -/
theorem start_acked {σ : Type} [FlashBackend σ] (E : PatchEngine) (K : KeyStore) {r : Receiver σ}
    {start : OtaFrame} (hrx : r.status = .receiving) (hh : Healthy r.client.dev)
    (hop : start.op = otaOpStart) (hlen : 4 ≤ start.data.length)
    (hlo : firmwareHeaderSize ≤ (u32At start.data 0).toNat)
    (hhi : (u32At start.data 0).toNat ≤ firmwareHeaderSize + firmwareMaxPayloadSize) :
    isAcked (receiveStep E K (.ok start) r).1 = true := by
  have hfit := image_fits_slot
  have hpos : 0 < firmwareHeaderSize := by decide
  have hin := slot_in_flash (memoryMapOtherSlot (loadedOn K r.client.dev).activeSlot)
  obtain ⟨s', he, -⟩ := exists_erase
    (memoryMapSlotAddr (memoryMapOtherSlot (loadedOn K r.client.dev).activeSlot))
    (u32At start.data 0).toNat hh (by omega) (by omega) (by omega)
  have hok : (handleFrame E K start r.client).1 = true := by
    rw [handleFrame_of_opens E K r.client (.inl hop)]
    unfold opening
    rw [if_pos hop, startOpens_eq_some.2 ⟨hlen, hlo, hhi, rfl⟩]
    unfold openSession
    dsimp only
    rw [he]
    rfl
  have hack := (receiveFrame_spec E K (r := r) (f := start) (by rw [hop]; decide)).2.1
  unfold receiveStep
  rw [if_neg (not_not.2 hrx)]
  exact hack.trans hok

/-- The receiver of the QEMU build after a cold boot with the default record. -/
def qemuReceiver : Receiver Qemu :=
  .enter (Qemu.flashInit ⟨defaultMem, 0, fun _ _ ↦ 0, none⟩) .zero

/-- A START of one byte more than the shadow of a slot is acknowledged, and the transfer
cannot be completed. -/
theorem qemu_start_unsound :
    isAcked (receiveStep refusingEngine sampleKeys (.ok (startFrame 32769)) qemuReceiver).1 =
        true ∧
      ¬SoundAdmission refusingEngine sampleKeys qemuReceiver (startFrame 32769) := by
  have hh : qemuReceiver.client.dev.Healthy := healthy_flashInit (σ := Qemu) rfl
  have htotal : (u32At (startFrame 32769).data 0).toNat = 32769 :=
    congrArg UInt32.toNat (le32_bytes (Nat.toUInt32 32769))
  have hack : isAcked
      (receiveStep refusingEngine sampleKeys (.ok (startFrame 32769)) qemuReceiver).1 = true :=
    start_acked refusingEngine sampleKeys rfl hh rfl (Nat.le_refl 4)
      (by rw [htotal]; decide) (by rw [htotal]; decide)
  exact ⟨hack, Qemu.not_soundAdmission hh rfl hack (by rw [htotal]; decide)⟩

end DualBank
