import DualBank.Flash.Cut
import DualBank.Lib.Run
import DualBank.Ota.Client

/-!
# Transfer sessions

What the transfer state says about the flash.  A session is opened by a START that is
acknowledged and grows by the DATA frames that are acknowledged; in a full transfer
the acknowledged payloads lie on flash one after the other.  Every handler keeps this,
whatever the flash reports, with one exception: a START whose erase fails leaves the
old session open over bytes it has erased.
-/

namespace DualBank

open Lib FlashBackend

/-! ## Sessions -/

/-- The frames that made up the session: the sequence number of the START that opened
it and the payloads acknowledged since. -/
structure Transfer where
  startSeq : UInt16
  acked : List (List UInt8)

/-- The session after a frame, acknowledged or not. -/
def Transfer.note (f : OtaFrame) (ok : Bool) (g : Transfer) : Transfer :=
  if !ok then g
  else if f.op = otaOpStart ∨ f.op = otaOpStartDelta then ⟨f.seq, []⟩
  else if f.op = otaOpData then { g with acked := g.acked ++ [f.data] }
  else g

namespace Transfer

theorem note_opens {f : OtaFrame} (h : f.op = otaOpStart ∨ f.op = otaOpStartDelta) (g : Transfer) :
    g.note f true = ⟨f.seq, []⟩ := by
  rw [note, if_neg (by decide), if_pos h]

theorem note_data {f : OtaFrame} (h : f.op = otaOpData) (g : Transfer) :
    g.note f true = { g with acked := g.acked ++ [f.data] } := by
  have hopen : ¬(f.op = otaOpStart ∨ f.op = otaOpStartDelta) := by
    rw [h]
    decide
  rw [note, if_neg (by decide), if_neg hopen, if_pos h]

/-- The other frames leave the session alone. -/
theorem note_of_ne {f : OtaFrame} (hopen : ¬(f.op = otaOpStart ∨ f.op = otaOpStartDelta))
    (hdata : f.op ≠ otaOpData) (ok : Bool) (g : Transfer) : g.note f ok = g := by
  rw [note, if_neg hopen, if_neg hdata, ite_self]

end Transfer

variable {σ : Type} [FlashBackend σ]

/-- The transfer state and the flash are those of the session. -/
structure OtaClient.Holds (c : OtaClient σ) (g : Transfer) : Prop where
  written_le : c.state.written ≤ c.state.xferTotal
  seq : c.state.expectedSeq = g.startSeq + 1 + UInt16.ofNat g.acked.length
  staged : (byte c.dev).read c.state.slotAddr c.state.written = g.acked.flatten

/-- An open full transfer holds its session. -/
def OtaClient.Inv (c : OtaClient σ) (g : Transfer) : Prop :=
  c.state.active = true → c.state.kind = .full → c.Holds g

/-! ## Openings -/

/-- The opening of a frame, if it is a START or START_DELTA that passes its checks. -/
def opening (K : KeyStore) (f : OtaFrame) (c : OtaClient σ) : Option Opening :=
  if f.op = otaOpStart then startOpens (loadedOn K c.dev) f c.state
  else if f.op = otaOpStartDelta then
    startDeltaOpens (flashOtaSlotSpan σ) (byte c.dev) (loadedOn K c.dev) f
  else none

/-- An opening starts a session at its frame. -/
theorem opening_state {K : KeyStore} {f : OtaFrame} {c : OtaClient σ} {o : Opening}
    (h : opening K f c = some o) :
    o.state.active = true ∧ o.state.written = 0 ∧ o.state.expectedSeq = f.seq + 1 := by
  unfold opening at h
  split_ifs at h
  · obtain ⟨-, -, -, rfl⟩ := startOpens_eq_some.1 h
    exact ⟨rfl, rfl, rfl⟩
  · obtain ⟨-, -, -, rfl⟩ := startDeltaOpens_eq_some h
    exact ⟨rfl, rfl, rfl⟩

/-- The frames that open a session. -/
theorem handleFrame_of_opens (E : PatchEngine) (K : KeyStore) {f : OtaFrame} (c : OtaClient σ)
    (h : f.op = otaOpStart ∨ f.op = otaOpStartDelta) :
    handleFrame E K f c = openSession (opening K f c) c := by
  unfold handleFrame opening
  rcases h with h | h
  · rw [if_pos h, if_pos h, handleStart_eq]
  · have hne : ¬f.op = otaOpStart := by rw [h]; decide
    rw [if_neg hne, if_neg hne, if_pos h, if_pos h, handleStartDelta_eq]

theorem handleFrame_data (E : PatchEngine) (K : KeyStore) {f : OtaFrame} (c : OtaClient σ)
    (h : f.op = otaOpData) : handleFrame E K f c = handleData f c := by
  unfold handleFrame
  rw [h, if_neg (by decide), if_neg (by decide), if_pos rfl]

theorem handleFrame_end (E : PatchEngine) (K : KeyStore) {f : OtaFrame} (c : OtaClient σ)
    (h : f.op = otaOpEnd) : handleFrame E K f c = handleEnd E K c := by
  unfold handleFrame
  rw [h, if_neg (by decide), if_neg (by decide), if_neg (by decide), if_pos rfl]

/-- What a frame does to the client: nothing, the erase of an opening, a write of DATA,
or what END does. -/
theorem handleFrame_cases (E : PatchEngine) (K : KeyStore) (f : OtaFrame) (c : OtaClient σ) :
    (handleFrame E K f c).2 = c ∨
      (∃ o st, opening K f c = some o ∧ (st = c.state ∨ st = o.state) ∧
        (handleFrame E K f c).2 =
          { c with dev := (flashEraseRange o.addr o.size c.dev).2, state := st }) ∨
      (∃ dest w q, dataDest f c.state = some dest ∧
        (handleFrame E K f c).2 =
          { c with
            dev := (flashProgramBytes dest f.data c.dev).2
            state := { c.state with written := w, expectedSeq := q } }) ∨
      (handleFrame E K f c).2 = (handleEnd E K c).2 := by
  by_cases hop : f.op = otaOpStart ∨ f.op = otaOpStartDelta
  · rw [handleFrame_of_opens E K c hop]
    unfold openSession
    cases opening K f c with
    | none => exact .inl rfl
    | some o =>
        refine .inr (.inl ?_)
        dsimp only
        split_ifs
        · exact ⟨o, o.state, rfl, .inr rfl, rfl⟩
        · exact ⟨o, c.state, rfl, .inl rfl, rfl⟩
  by_cases hdata : f.op = otaOpData
  · rw [handleFrame_data E K c hdata]
    unfold handleData
    cases dataDest f c.state with
    | none => exact .inl rfl
    | some dest =>
        refine .inr (.inr (.inl ?_))
        dsimp only
        split_ifs
        · exact ⟨dest, c.state.written, c.state.expectedSeq, rfl, rfl⟩
        · exact ⟨dest, _, _, rfl, rfl⟩
  · by_cases hend : f.op = otaOpEnd
    · rw [handleFrame_end E K c hend]
      exact .inr (.inr (.inr rfl))
    · unfold handleFrame
      rw [if_neg fun e ↦ hop (.inl e), if_neg fun e ↦ hop (.inr e), if_neg hdata, if_neg hend]
      exact .inl rfl

/-! ## Handlers -/

section Handlers

variable {K : KeyStore} {E : PatchEngine} {f : OtaFrame} {c : OtaClient σ} {g : Transfer}

/-- An opening keeps the invariant when its erase succeeds, or when there was nothing
to lose. -/
theorem inv_openSession (h : c.Inv g) (hop : f.op = otaOpStart ∨ f.op = otaOpStartDelta)
    (hheld : ∀ o, opening K f c = some o → c.state.active = true → c.state.kind = .full →
      0 < c.state.written → (flashEraseRange o.addr o.size c.dev).1 = .ok) :
    (openSession (opening K f c) c).2.Inv (g.note f (openSession (opening K f c) c).1) := by
  unfold openSession
  cases ho : opening K f c with
  | none => exact h
  | some o =>
      dsimp only
      obtain ⟨-, hw, hs⟩ := opening_state ho
      split_ifs with hok
      · intro _ _
        rw [Transfer.note_opens hop]
        refine ⟨?_, ?_, ?_⟩
        · dsimp only; rw [hw]; exact Nat.zero_le _
        · dsimp only
          rw [hs, List.length_nil]
          exact (UInt16.add_zero _).symm
        · dsimp only; rw [hw]; rfl
      · intro ha hk
        have hc := h ha hk
        -- the session goes on, so nothing had been acknowledged
        have h0 : c.state.written = 0 :=
          Nat.eq_zero_of_not_pos fun hpos ↦ hok (hheld o ho ha hk hpos)
        refine ⟨hc.written_le, hc.seq, ?_⟩
        have hst := hc.staged
        rw [h0] at hst
        dsimp only
        rw [h0]
        exact hst

omit [FlashBackend σ] in
/-- The address of a DATA frame of a full transfer. -/
theorem dataDest_full {dest : Nat} (hd : dataDest f c.state = some dest)
    (hk : c.state.kind = .full) :
    dest = c.state.slotAddr + c.state.written ∧
      c.state.written + f.data.length ≤ c.state.xferTotal := by
  unfold dataDest at hd
  split_ifs at hd with h₁ h₂ h₃ h₄ h₅
  · rw [hk] at h₅; cases h₅
  · exact ⟨(Option.some.inj hd).symm, Nat.le_of_not_lt h₄⟩

theorem inv_handleData (h : c.Inv g) (hop : f.op = otaOpData) :
    (handleData f c).2.Inv (g.note f (handleData f c).1) := by
  unfold handleData
  cases hd : dataDest f c.state with
  | none => exact h
  | some dest =>
      dsimp only
      split_ifs with hok
      · -- a failed program has at most changed what lies behind the written bytes
        intro ha hk
        have hc := h ha hk
        obtain ⟨rfl, -⟩ := dataDest_full hd hk
        refine ⟨hc.written_le, hc.seq, ?_⟩
        dsimp only
        rw [Mem.read_congr fun x hx ↦ programBytes_frame c.dev (.inl hx.2)]
        exact hc.staged
      · intro ha hk
        have hc := h ha hk
        obtain ⟨rfl, hle⟩ := dataDest_full hd hk
        rw [Transfer.note_data hop]
        refine ⟨hle, ?_, ?_⟩
        · dsimp only
          rw [hc.seq, List.length_append, List.length_singleton, UInt16.ofNat_add]
          ac_rfl
        · dsimp only
          rw [Mem.read_add, programBytes_read (not_not.mp hok),
            Mem.read_congr fun x hx ↦ programBytes_frame c.dev (.inl hx.2), hc.staged,
            List.flatten_append, List.flatten_singleton]

/-- What END does to the client: a delta transfer may have written the new image, and a
verified image leaves the request. -/
theorem handleEnd_cases (E : PatchEngine) (K : KeyStore) (c : OtaClient σ) :
    ∃ dev b, (dev = c.dev ∨ (c.state.active = true ∧ c.state.kind = .delta ∧
        dev = (deltaApplyPatch E c.state.activeSlotBase c.state.slotAddr c.state.xferTotal
          c.state.expectedNewTotal c.dev).2)) ∧
      (b = c.shared ∨
        b = { c.shared with magic := sharedBlockMagic, otaPending := 1, bootConfirmed := 0 }) ∧
      (handleEnd E K c).2 = { c with dev := dev, shared := b } := by
  have hverify : ∀ c : OtaClient σ, ∃ b, (b = c.shared ∨
      b = { c.shared with magic := sharedBlockMagic, otaPending := 1, bootConfirmed := 0 }) ∧
      (endVerify K c).2 = { c with shared := b } := fun c ↦ by
    unfold endVerify
    simp only [bootConfigLoad_dev]
    split_ifs
    · exact ⟨c.shared, .inl rfl, rfl⟩
    · exact ⟨c.shared, .inl rfl, rfl⟩
    · exact ⟨c.shared, .inl rfl, rfl⟩
    · exact ⟨_, .inr rfl, rfl⟩
  unfold handleEnd
  dsimp only
  split_ifs with h₁ h₂ h₃ h₄
  · exact ⟨c.dev, c.shared, .inl rfl, .inl rfl, rfl⟩
  · exact ⟨c.dev, c.shared, .inl rfl, .inl rfl, rfl⟩
  all_goals
    have ha : c.state.active = true := by simpa using h₁
  · exact ⟨_, c.shared, .inr ⟨ha, h₃, rfl⟩, .inl rfl, rfl⟩
  · obtain ⟨b, hb, he⟩ := hverify ⟨c.state, (deltaApplyPatch E c.state.activeSlotBase
      c.state.slotAddr c.state.xferTotal c.state.expectedNewTotal c.dev).2, c.shared⟩
    exact ⟨_, b, .inr ⟨ha, h₃, rfl⟩, hb, he⟩
  · obtain ⟨b, hb, he⟩ := hverify c
    exact ⟨c.dev, b, .inl rfl, hb, he⟩

/-- END keeps the transfer state, and in a full transfer the flash. -/
theorem handleEnd_frame (E : PatchEngine) (K : KeyStore) (c : OtaClient σ) :
    (handleEnd E K c).2.state = c.state ∧
      (c.state.kind = .full → (handleEnd E K c).2.dev = c.dev) := by
  obtain ⟨dev, b, hdev, -, he⟩ := handleEnd_cases E K c
  rw [he]
  refine ⟨rfl, fun hk ↦ ?_⟩
  rcases hdev with rfl | ⟨-, hd, -⟩
  · rfl
  · rw [hk] at hd
    cases hd

theorem inv_handleEnd (h : c.Inv g) : (handleEnd E K c).2.Inv g := by
  obtain ⟨hst, hdev⟩ := handleEnd_frame E K c
  intro ha hk
  rw [hst] at ha hk
  have hc := h ha hk
  refine ⟨?_, ?_, ?_⟩
  · rw [hst]; exact hc.written_le
  · rw [hst]; exact hc.seq
  · rw [hst, hdev hk]; exact hc.staged

/-- Every frame keeps the invariant, an opening under the condition above. -/
theorem inv_handleFrame (h : c.Inv g)
    (hheld : ∀ o, opening K f c = some o → c.state.active = true → c.state.kind = .full →
      0 < c.state.written → (flashEraseRange o.addr o.size c.dev).1 = .ok) :
    (handleFrame E K f c).2.Inv (g.note f (handleFrame E K f c).1) := by
  by_cases hop : f.op = otaOpStart ∨ f.op = otaOpStartDelta
  · rw [handleFrame_of_opens E K c hop]
    exact inv_openSession h hop hheld
  · have h₁ : ¬f.op = otaOpStart := fun e ↦ hop (.inl e)
    have h₂ : ¬f.op = otaOpStartDelta := fun e ↦ hop (.inr e)
    unfold handleFrame
    rw [if_neg h₁, if_neg h₂]
    split_ifs with h₃ h₄
    · exact inv_handleData h h₃
    · rw [Transfer.note_of_ne hop h₃]
      exact inv_handleEnd h
    · exact h

end Handlers

/-! ## Runs of the receiver -/

/-- The response is an acknowledgement. -/
def isAcked (r : Option OtaResponse) : Bool := r.any fun r ↦ r.code == otaRespAck

/-- A turn of the receive loop, with the session. -/
def transferStep (E : PatchEngine) (K : KeyStore) (p : Receiver σ × Transfer) (s : FrameStatus) :
    Receiver σ × Transfer :=
  let r := receiveStep E K s p.1
  (r.2, match s with
    | .ok f => p.2.note f (isAcked r.1)
    | _ => p.2)

/-- No START or START_DELTA that passes its checks has its erase fail while a full
transfer with acknowledged bytes is open. -/
def ErasesOpen (K : KeyStore) (p : Receiver σ × Transfer) (s : FrameStatus) : Prop :=
  ∀ f o, s = .ok f → p.1.status = .receiving → opening K f p.1.client = some o →
    p.1.client.state.active = true → p.1.client.state.kind = .full →
      0 < p.1.client.state.written →
        (flashEraseRange o.addr o.size p.1.client.dev).1 = .ok

/-- A frame goes to its handler, and the response says what the handler returned. -/
theorem receiveFrame_spec (E : PatchEngine) (K : KeyStore) {f : OtaFrame} {r : Receiver σ}
    (hop : f.op ≠ otaOpAbort) :
    (receiveFrame E K f r).2.client = (handleFrame E K f r.client).2 ∧
      isAcked (receiveFrame E K f r).1 = (handleFrame E K f r.client).1 ∧
      ((handleFrame E K f r.client).1 = true → f.op ≠ otaOpEnd →
        (receiveFrame E K f r).2.status = r.status) := by
  unfold receiveFrame
  rw [if_neg hop]
  dsimp only
  by_cases h : (handleFrame E K f r.client).1 = true
  · rw [if_pos h]
    exact ⟨rfl, h.symm, fun _ hend ↦ if_neg hend⟩
  · rw [if_neg h]
    exact ⟨rfl, (Bool.not_eq_true _ ▸ h).symm, fun ht ↦ absurd ht h⟩

/-- A frame is acknowledged or counted as an error, as its handler returns. -/
theorem receiveStep_ok {E : PatchEngine} {K : KeyStore} {f : OtaFrame} {r : Receiver σ}
    (hrx : r.status = .receiving) (hop : f.op ≠ otaOpAbort) :
    ((handleFrame E K f r.client).1 = true →
        receiveStep E K (.ok f) r = (some ⟨otaRespAck, f.seq⟩,
          ⟨(handleFrame E K f r.client).2, 0,
            if f.op = otaOpEnd then .reset else .receiving⟩)) ∧
      ((handleFrame E K f r.client).1 = false →
        receiveStep E K (.ok f) r = (some ⟨otaRespNak, f.seq⟩,
          Receiver.countError { r with client := (handleFrame E K f r.client).2 })) := by
  unfold receiveStep
  dsimp only
  rw [if_neg (not_not.mpr hrx)]
  unfold receiveFrame
  dsimp only
  rw [if_neg hop]
  constructor
  · intro h
    rw [if_pos h, hrx]
  · intro h
    rw [if_neg (by rw [h]; decide)]

/-- A turn of the loop for a frame other than ABORT. -/
theorem transferStep_frame (E : PatchEngine) (K : KeyStore) {p : Receiver σ × Transfer}
    {f : OtaFrame} (hrx : p.1.status = .receiving) (hop : f.op ≠ otaOpAbort) :
    (transferStep E K p (.ok f)).1.client = (handleFrame E K f p.1.client).2 ∧
      (transferStep E K p (.ok f)).2 = p.2.note f (handleFrame E K f p.1.client).1 ∧
      ((handleFrame E K f p.1.client).1 = true → f.op ≠ otaOpEnd →
        (transferStep E K p (.ok f)).1.status = .receiving) := by
  obtain ⟨hcl, hack, hst⟩ := receiveFrame_spec E K (r := p.1) hop
  unfold transferStep receiveStep
  dsimp only
  rw [if_neg (not_not.mpr hrx), hcl, hack]
  exact ⟨rfl, rfl, fun h hend ↦ (hst h hend).trans hrx⟩

theorem inv_transferStep {E : PatchEngine} {K : KeyStore} {p : Receiver σ × Transfer}
    {s : FrameStatus} (h : p.1.client.Inv p.2) (hc : ErasesOpen K p s) :
    (transferStep E K p s).1.client.Inv (transferStep E K p s).2 := by
  by_cases hrx : p.1.status = .receiving
  · cases s with
    | ok f =>
        by_cases hop : f.op = otaOpAbort
        · -- ABORT changes only the status
          have h₁ : ¬(f.op = otaOpStart ∨ f.op = otaOpStartDelta) := by rw [hop]; decide
          have h₂ : ¬f.op = otaOpData := by rw [hop]; decide
          unfold transferStep receiveStep receiveFrame
          dsimp only
          rw [if_neg (not_not.mpr hrx), if_pos hop, Transfer.note_of_ne h₁ h₂]
          exact h
        · obtain ⟨hcl, hnote, -⟩ := transferStep_frame E K hrx hop
          rw [hcl, hnote]
          exact inv_handleFrame h fun o ho ↦ hc f o rfl hrx ho
    | _ =>
        unfold transferStep receiveStep
        dsimp only
        rw [if_neg (not_not.mpr hrx)]
        exact h
  · unfold transferStep receiveStep
    dsimp only
    rw [if_pos hrx]
    cases s with
    | ok f => exact h
    | _ => exact h

/-- **Sessions.**  In every run of the receiver in which no opening has its erase fail
over acknowledged bytes, an open full transfer holds its session: the counters are
those of the acknowledged frames, and their payloads lie on flash in order. -/
theorem session_inv (E : PatchEngine) (K : KeyStore) (dev : σ) (shared : SharedBootBlock)
    (g : Transfer) {events : List FrameStatus}
    (h : Along (transferStep E K) (ErasesOpen K) (.enter dev shared, g) events) :
    (events.foldl (transferStep E K) (.enter dev shared, g)).1.client.Inv
      (events.foldl (transferStep E K) (.enter dev shared, g)).2 :=
  inv_of_along (I := fun p : Receiver σ × Transfer ↦ p.1.client.Inv p.2)
    (fun _ _ hp hc ↦ inv_transferStep hp hc) (fun ha _ ↦ by cases ha) h

/-! ## A failing erase -/

/-- START of a transfer of 512 bytes. -/
def sampleStart : OtaFrame := ⟨otaOpStart, 1, bytes32 512, by decide⟩

/-- The first word of it. -/
def sampleData : OtaFrame := ⟨otaOpData, 2, bytes32 0x04030201, by decide⟩

/-- Patch libraries that refuse every patch. -/
def refusingEngine : PatchEngine where
  headBuf := []
  TuzStream := Unit
  tuzTStreamReadDictSize := .ret 0
  tuzTStreamOpen _ := .ret none
  hpatchLitePatch _ _ := .ret false

/-- An erased flash with the default record. -/
def defaultMem : Mem := Mem.write (fun _ ↦ 0xFF) bootConfigAddr BootConfig.bootConfigDefault.toBytes

theorem ofMem_defaultMem : BootConfig.ofMem defaultMem = BootConfig.bootConfigDefault :=
  BootConfig.ofMem_of_read (Mem.read_write _ _ _)

theorem loadedOn_of_valid (K : KeyStore) {s : σ}
    (h : BootConfig.bootConfigValidate (readConfig s) = true) : loadedOn K s = readConfig s := by
  unfold loadedOn bootConfigLoad
  rw [readConfig_onFlash]
  dsimp only
  rw [if_pos h]

/-- Where a signed image lies, the version decides. -/
theorem endVerify_signed {K : KeyStore} {c : OtaClient σ} {img : SignedImage K}
    (h : (byte c.dev).read c.state.slotAddr img.bytes.length = img.bytes) :
    (endVerify K c).1 =
        BootConfig.bootConfigFirmwareAllowed (loadedOn K c.dev) img.header.version ∧
      (endVerify K c).2.dev = c.dev ∧
      ((endVerify K c).1 = true → (endVerify K c).2.shared =
        { c.shared with magic := sharedBlockMagic, otaPending := 1, bootConfirmed := 0 }) := by
  have hmagic : ¬img.header.magic ≠ firmwareMagic :=
    not_not.mpr (FirmwareHeader.admissible_iff.1 img.admissible).1
  have hdev := bootConfigLoad_dev K c.dev
  unfold endVerify loadedOn
  rw [SignedImage.verifies h, if_neg (by decide)]
  dsimp only
  rw [SignedImage.ofMem_eq h, if_neg hmagic]
  generalize bootConfigLoad (onFlash σ K) c.dev = r at hdev ⊢
  cases hallowed : BootConfig.bootConfigFirmwareAllowed r.2.1 img.header.version with
  | false => exact ⟨rfl, hdev, nofun⟩
  | true => exact ⟨rfl, hdev, fun _ ↦ rfl⟩

/-- With slot A active the sample START opens slot B. -/
theorem opening_sampleStart {K : KeyStore} {c : OtaClient σ}
    (h : (loadedOn K c.dev).activeSlot = slotA) :
    opening K sampleStart c = some ⟨slotBAddr, 512,
      { c.state with
        active := true
        kind := .full
        slotAddr := slotBAddr
        xferTotal := 512
        written := 0
        expectedSeq := 2 }⟩ := by
  unfold opening startOpens
  rw [h]
  rfl

/-- The erase of the sample transfer: the sector of slot B, with the status of the
second busy wait. -/
theorem erase_sampleStart (m : Mem) (cr : FlashCr) (o : BusyOutcome) (rest : List BusyOutcome) :
    ∃ cr', flashEraseRange slotBAddr 512 (⟨m, cr, .idle :: o :: rest, none⟩ : Hw) =
      (Hw.statusOf o,
        ⟨m.fill (kSectorStart 8) (kSectorStart 8 + kSectorSize 8) 0xFF, cr', rest, none⟩) := by
  obtain ⟨cr', he⟩ := Hw.flashEraseSector_reported (i := 8) (by decide) m cr o rest
  have h₁ : kSectorStart 8 ≤ slotBAddr := by decide
  have h₂ : slotBAddr + 512 ≤ kSectorStart 8 + kSectorSize 8 := by decide
  exact ⟨cr', (eraseRangeWith_sector (by decide) h₁ h₂ (by decide) _).trans he⟩

/-- The record lies outside that sector. -/
theorem ofMem_fill_slotB (m : Mem) :
    BootConfig.ofMem (m.fill (kSectorStart 8) (kSectorStart 8 + kSectorSize 8) 0xFF) =
      BootConfig.ofMem m :=
  BootConfig.ofMem_congr fun _ hx ↦
    Mem.fill_of_notMem _ _ (.inl (Nat.lt_of_lt_of_le hx.2 (by decide)))

/-- The sample START on the default record. -/
theorem handleFrame_sampleStart (E : PatchEngine) (K : KeyStore) {c : OtaClient Hw} {m : Mem}
    {cr : FlashCr} {o : BusyOutcome} {rest : List BusyOutcome}
    (hd : c.dev = ⟨m, cr, .idle :: o :: rest, none⟩)
    (hm : BootConfig.ofMem m = BootConfig.bootConfigDefault) :
    ∃ cr', (handleFrame E K sampleStart c).2.dev =
        ⟨m.fill (kSectorStart 8) (kSectorStart 8 + kSectorSize 8) 0xFF, cr', rest, none⟩ ∧
      (o = .idle → (handleFrame E K sampleStart c).1 = true ∧
        (handleFrame E K sampleStart c).2.state =
          { c.state with
            active := true
            kind := .full
            slotAddr := slotBAddr
            xferTotal := 512
            written := 0
            expectedSeq := 2 }) ∧
      (o ≠ .idle → (handleFrame E K sampleStart c).1 = false ∧
        (handleFrame E K sampleStart c).2.state = c.state) := by
  have hread : readConfig c.dev = BootConfig.bootConfigDefault := by rw [hd]; exact hm
  have hload : loadedOn K c.dev = BootConfig.bootConfigDefault := by
    rw [loadedOn_of_valid K (by rw [hread]; exact BootConfig.bootConfigValidate_default), hread]
  obtain ⟨cr', he⟩ := erase_sampleStart m cr o rest
  refine ⟨cr', ?_⟩
  rw [handleFrame_of_opens E K c (.inl rfl),
    opening_sampleStart (congrArg BootConfig.activeSlot hload), openSession]
  dsimp only
  rw [hd, he]
  cases o with
  | idle =>
      rw [if_pos (show Hw.statusOf .idle = .ok from rfl)]
      exact ⟨rfl, fun _ ↦ ⟨rfl, rfl⟩, fun h ↦ absurd rfl h⟩
  | error =>
      rw [if_neg (show ¬Hw.statusOf .error = .ok by decide)]
      exact ⟨rfl, fun h ↦ (by cases h), fun _ ↦ ⟨rfl, rfl⟩⟩
  | timeout =>
      rw [if_neg (show ¬Hw.statusOf .timeout = .ok by decide)]
      exact ⟨rfl, fun h ↦ (by cases h), fun _ ↦ ⟨rfl, rfl⟩⟩

/-- The sample START with a busy wait that reports success. -/
theorem transferStep_sampleStart (E : PatchEngine) (K : KeyStore) {p : Receiver Hw × Transfer}
    (hrx : p.1.status = .receiving) {m : Mem} {cr : FlashCr} {rest : List BusyOutcome}
    (hd : p.1.client.dev = ⟨m, cr, .idle :: .idle :: rest, none⟩)
    (hm : BootConfig.ofMem m = BootConfig.bootConfigDefault) :
    ∃ cr', (transferStep E K p (.ok sampleStart)).1.status = .receiving ∧
      (transferStep E K p (.ok sampleStart)).1.client.state =
        { p.1.client.state with
          active := true
          kind := .full
          slotAddr := slotBAddr
          xferTotal := 512
          written := 0
          expectedSeq := 2 } ∧
      (transferStep E K p (.ok sampleStart)).1.client.dev =
        ⟨m.fill (kSectorStart 8) (kSectorStart 8 + kSectorSize 8) 0xFF, cr', rest, none⟩ ∧
      (transferStep E K p (.ok sampleStart)).2 = ⟨1, []⟩ := by
  obtain ⟨hcl, hnote, hst⟩ := transferStep_frame E K (f := sampleStart) hrx (by decide)
  obtain ⟨cr', hdev, hok, -⟩ := handleFrame_sampleStart E K hd hm
  obtain ⟨hack, hstate⟩ := hok rfl
  refine ⟨cr', hst hack (by decide), ?_, ?_, ?_⟩
  · rw [hcl, hstate]
  · rw [hcl, hdev]
  · rw [hnote, hack]; rfl

/-- The sample word over erased flash. -/
theorem clears_sampleData {m : Mem} (he : ∀ i < 4, m (slotBAddr + i) = 0xFF) :
    m.Clears slotBAddr sampleData.data :=
  Mem.clears_of_erased he

/-- The word of the sample transfer, stored. -/
theorem transferStep_sampleData (E : PatchEngine) (K : KeyStore) {p : Receiver Hw × Transfer}
    (hrx : p.1.status = .receiving) {m : Mem} {cr : FlashCr} {rest : List BusyOutcome}
    (hd : p.1.client.dev = ⟨m, cr, .idle :: .idle :: rest, none⟩)
    (hdest : dataDest sampleData p.1.client.state = some slotBAddr)
    (he : ∀ i < 4, m (slotBAddr + i) = 0xFF) :
    ∃ cr', (transferStep E K p (.ok sampleData)).1.status = .receiving ∧
      (transferStep E K p (.ok sampleData)).1.client.state =
        { p.1.client.state with
          written := p.1.client.state.written + 4
          expectedSeq := p.1.client.state.expectedSeq + 1 } ∧
      (transferStep E K p (.ok sampleData)).1.client.dev =
        ⟨m.program slotBAddr sampleData.data, cr', rest, none⟩ ∧
      (transferStep E K p (.ok sampleData)).2 =
        { p.2 with acked := p.2.acked ++ [sampleData.data] } := by
  obtain ⟨hcl, hnote, hst⟩ := transferStep_frame E K (f := sampleData) hrx (by decide)
  have halign : slotBAddr % 4 = 0 := by decide
  obtain ⟨cr', hprog⟩ := Hw.flashProgramBytes_reported m cr 0x04030201 rest halign
    (clears_sampleData he)
  have hframe : handleFrame E K sampleData p.1.client = handleData sampleData p.1.client := rfl
  have hprog' : flashProgramBytes slotBAddr sampleData.data p.1.client.dev =
      (.ok, (⟨m.program slotBAddr sampleData.data, cr', rest, none⟩ : Hw)) := by
    rw [hd]; exact hprog
  have hdata : handleData sampleData p.1.client =
      (true,
        { p.1.client with
          dev := ⟨m.program slotBAddr sampleData.data, cr', rest, none⟩
          state :=
            { p.1.client.state with
              written := p.1.client.state.written + 4
              expectedSeq := p.1.client.state.expectedSeq + 1 } }) := by
    unfold handleData
    rw [hdest]
    dsimp only
    rw [hprog', if_neg (not_not.mpr rfl)]
    rfl
  rw [hframe, hdata] at hcl hnote hst
  exact ⟨cr', hst rfl (by decide), by rw [hcl], by rw [hcl], hnote⟩

/-- The record lies below the word of the sample transfer. -/
theorem ofMem_program_sampleData (m : Mem) :
    BootConfig.ofMem (m.program slotBAddr sampleData.data) = BootConfig.ofMem m :=
  BootConfig.ofMem_congr fun _ hx ↦
    Mem.program_of_notMem _ _ _ _ (.inl (Nat.lt_of_lt_of_le hx.2 (by decide)))

/-- START and the word. -/
def wordRun : List FrameStatus := [.ok sampleStart, .ok sampleData]

/-- After it the session is open, and the word is on flash. -/
theorem transferStep_sampleOpened (E : PatchEngine) (K : KeyStore) {p : Receiver Hw × Transfer}
    (hrx : p.1.status = .receiving) {m : Mem} {cr : FlashCr} {rest : List BusyOutcome}
    (hd : p.1.client.dev = ⟨m, cr, .idle :: .idle :: .idle :: .idle :: rest, none⟩)
    (hm : BootConfig.ofMem m = BootConfig.bootConfigDefault) :
    ∃ m' cr', (wordRun.foldl (transferStep E K) p).1.status = .receiving ∧
      (wordRun.foldl (transferStep E K) p).1.client.state =
        { p.1.client.state with
          active := true
          kind := .full
          slotAddr := slotBAddr
          xferTotal := 512
          written := 4
          expectedSeq := 3 } ∧
      (wordRun.foldl (transferStep E K) p).1.client.dev =
        ⟨m', cr', rest, none⟩ ∧
      BootConfig.ofMem m' = BootConfig.bootConfigDefault ∧
      (wordRun.foldl (transferStep E K) p).2 = ⟨1, [sampleData.data]⟩ := by
  rw [wordRun, List.foldl_cons, List.foldl_cons, List.foldl_nil]
  obtain ⟨cr₁, hrx₁, hst₁, hd₁, hg₁⟩ := transferStep_sampleStart E K hrx hd hm
  generalize transferStep E K p (.ok sampleStart) = p₁ at *
  have hm₁ := (ofMem_fill_slotB m).trans hm
  have he₁ : ∀ i < 4, m.fill (kSectorStart 8) (kSectorStart 8 + kSectorSize 8) 0xFF
      (slotBAddr + i) = 0xFF := fun i hi ↦
    Mem.fill_of_mem _ _ (Nat.le_trans (by decide) (Nat.le_add_right _ i))
      (Nat.lt_of_lt_of_le (Nat.add_lt_add_left hi _) (by decide))
  generalize m.fill (kSectorStart 8) (kSectorStart 8 + kSectorSize 8) 0xFF = m₁ at *
  obtain ⟨cr₂, hrx₂, hst₂, hd₂, hg₂⟩ := transferStep_sampleData E K hrx₁ hd₁
    (by rw [hst₁]; rfl) he₁
  refine ⟨_, cr₂, hrx₂, ?_, hd₂, (ofMem_program_sampleData m₁).trans hm₁, ?_⟩
  · rw [hst₂, hst₁]
    rfl
  · rw [hg₂, hg₁]
    rfl

/-- A device whose sixth busy wait, the second one of the second START, reports an
error. -/
def faultyDev (m : Mem) : Hw :=
  ⟨m, ⟨false, false, 0, 0, true⟩, [.idle, .idle, .idle, .idle, .idle, .error], none⟩

/-- START, a word, and START again: the second erase fails after it has erased the
word, and the session goes on with a word that is no longer there. -/
theorem not_inv_faultyDev (E : PatchEngine) (K : KeyStore) {p : Receiver Hw × Transfer} {m : Mem}
    (hrx : p.1.status = .receiving) (hd : p.1.client.dev = faultyDev m)
    (hm : BootConfig.ofMem m = BootConfig.bootConfigDefault) :
    ¬([.ok sampleStart, .ok sampleData, .ok sampleStart].foldl (transferStep E K) p).1.client.Inv
      ([.ok sampleStart, .ok sampleData, .ok sampleStart].foldl (transferStep E K) p).2 := by
  have hsplit : [.ok sampleStart, .ok sampleData, .ok sampleStart].foldl (transferStep E K) p =
      transferStep E K (wordRun.foldl (transferStep E K) p)
        (.ok sampleStart) := rfl
  rw [hsplit]
  obtain ⟨m₂, cr₂, hrx₂, hst₂, hd₂, hm₂, hg₂⟩ := transferStep_sampleOpened E K hrx hd hm
  generalize wordRun.foldl (transferStep E K) p = p₂ at *
  -- the second START erases the word and fails
  obtain ⟨hc₃, hg₃, -⟩ := transferStep_frame E K (f := sampleStart) hrx₂ (by decide)
  obtain ⟨cr₃, hd₃, -, hfail⟩ := handleFrame_sampleStart E K hd₂ hm₂
  obtain ⟨hack₃, hst₃⟩ := hfail (by decide)
  rw [hack₃] at hg₃
  rw [hc₃, hg₃]
  intro hinv
  have hstate := hst₃.trans hst₂
  have hstaged := (hinv (by rw [hstate]) (by rw [hstate])).staged
  rw [hstate, hd₃] at hstaged
  have hnote : (p₂.2.note sampleStart false).acked = [sampleData.data] := by
    have h : p₂.2.note sampleStart false = p₂.2 := rfl
    rw [h, hg₂]
  rw [hnote] at hstaged
  have hbyte : (0xFF : UInt8) = 0x01 := by
    have hfill : Mem.fill m₂ (kSectorStart 8) (kSectorStart 8 + kSectorSize 8) 0xFF slotBAddr =
        0xFF := Mem.fill_of_mem _ _ (by decide) (by decide)
    exact hfill.symm.trans (List.cons.inj hstaged).1
  exact absurd hbyte (by decide)

/-- The device above loses the word of its open session. -/
theorem transfer_overwritten :
    ¬([.ok sampleStart, .ok sampleData, .ok sampleStart].foldl
        (transferStep refusingEngine sampleKeys)
        (.enter (faultyDev defaultMem) .zero, ⟨0, []⟩)).1.client.Inv
      ([.ok sampleStart, .ok sampleData, .ok sampleStart].foldl
        (transferStep refusingEngine sampleKeys)
        (.enter (faultyDev defaultMem) .zero, ⟨0, []⟩)).2 :=
  not_inv_faultyDev refusingEngine sampleKeys rfl rfl ofMem_defaultMem

/-! ## A restarted transfer -/

/-- A device whose second busy wait, of the first START, reports an error, and none of
the eight after it. -/
def restartDev : Hw :=
  ⟨defaultMem, ⟨false, false, 0, 0, true⟩,
    [.idle, .error, .idle, .idle, .idle, .idle, .idle, .idle, .idle, .idle], none⟩

/-- A START that is refused, a transfer that has stored a word, and the transfer again
from its START. -/
def restartRun : List FrameStatus := .ok sampleStart :: (wordRun ++ wordRun)

/-- The first START, whose erase fails: nothing is open. -/
theorem transferStep_restartDev (E : PatchEngine) (K : KeyStore) :
    ∃ m cr, (transferStep E K (.enter restartDev .zero, ⟨0, []⟩) (.ok sampleStart)).1.status =
          .receiving ∧
      (transferStep E K (.enter restartDev .zero, ⟨0, []⟩) (.ok sampleStart)).1.client.state =
        .cleared ∧
      (transferStep E K (.enter restartDev .zero, ⟨0, []⟩) (.ok sampleStart)).1.client.dev =
        ⟨m, cr, [.idle, .idle, .idle, .idle, .idle, .idle, .idle, .idle], none⟩ ∧
      BootConfig.ofMem m = BootConfig.bootConfigDefault := by
  obtain ⟨hcl, -, -⟩ := transferStep_frame E K (p := (.enter restartDev .zero, ⟨0, []⟩))
    (f := sampleStart) rfl (by decide)
  obtain ⟨cr, hdev, -, hfail⟩ := handleFrame_sampleStart E K
    (c := (Receiver.enter restartDev .zero).client) rfl ofMem_defaultMem
  obtain ⟨hnak, hstate⟩ := hfail (by decide)
  refine ⟨_, cr, ?_, ?_, ?_, (ofMem_fill_slotB _).trans ofMem_defaultMem⟩
  · have h := (receiveStep_ok (E := E) (K := K) (f := sampleStart)
      (r := .enter restartDev .zero) rfl (by decide)).2 hnak
    unfold transferStep
    dsimp only
    rw [h]
    rfl
  · rw [hcl, hstate]
    rfl
  · rw [hcl, hdev]

/-- The sample START on a device whose next erase succeeds. -/
theorem erasesOpen_sampleStart {K : KeyStore} {p : Receiver Hw × Transfer} {m : Mem} {cr : FlashCr}
    {rest : List BusyOutcome} (hd : p.1.client.dev = ⟨m, cr, .idle :: .idle :: rest, none⟩)
    (hm : BootConfig.ofMem m = BootConfig.bootConfigDefault) :
    ErasesOpen K p (.ok sampleStart) := by
  intro f o hf _ ho _ _ _
  cases hf
  have hread : readConfig p.1.client.dev = BootConfig.bootConfigDefault := by rw [hd]; exact hm
  have hload : loadedOn K p.1.client.dev = BootConfig.bootConfigDefault := by
    rw [loadedOn_of_valid K (by rw [hread]; exact BootConfig.bootConfigValidate_default), hread]
  rw [opening_sampleStart (congrArg BootConfig.activeSlot hload)] at ho
  cases ho
  obtain ⟨cr', he⟩ := erase_sampleStart m cr .idle rest
  rw [hd, he]
  rfl

/-- DATA erases nothing. -/
theorem erasesOpen_sampleData (K : KeyStore) (p : Receiver σ × Transfer) :
    ErasesOpen K p (.ok sampleData) := by
  intro f o hf _ ho
  cases hf
  cases ho

/-- The last START of that run erases an acknowledged word, and the session it opens
is held with the word that came after. -/
theorem session_inv_restart :
    Along (transferStep refusingEngine sampleKeys) (ErasesOpen sampleKeys)
        (.enter restartDev .zero, ⟨0, []⟩) restartRun ∧
      (restartRun.foldl (transferStep refusingEngine sampleKeys)
        (.enter restartDev .zero, ⟨0, []⟩)).1.client.state.written = 4 ∧
      (restartRun.foldl (transferStep refusingEngine sampleKeys)
        (.enter restartDev .zero, ⟨0, []⟩)).1.client.Holds ⟨1, [sampleData.data]⟩ := by
  have hfirst : ErasesOpen sampleKeys (.enter restartDev .zero, ⟨0, []⟩) (.ok sampleStart) :=
    fun _ _ _ _ _ ha ↦ absurd ha Bool.false_ne_true
  have hinv (h : Along _ _ _ restartRun) :=
    session_inv refusingEngine sampleKeys restartDev .zero ⟨0, []⟩ h
  obtain ⟨m₁, cr₁, hrx₁, hst₁, hd₁, hm₁⟩ := transferStep_restartDev refusingEngine sampleKeys
  rw [restartRun, along_cons, along_append, List.foldl_cons, List.foldl_append] at hinv ⊢
  generalize transferStep refusingEngine sampleKeys (.enter restartDev .zero, ⟨0, []⟩)
    (.ok sampleStart) = p₁ at *
  have halong₁ : Along (transferStep refusingEngine sampleKeys) (ErasesOpen sampleKeys) p₁
      wordRun :=
    ⟨erasesOpen_sampleStart hd₁ hm₁, erasesOpen_sampleData _ _, trivial⟩
  obtain ⟨m₂, cr₂, hrx₂, -, hd₂, hm₂, -⟩ :=
    transferStep_sampleOpened refusingEngine sampleKeys hrx₁ hd₁ hm₁
  generalize wordRun.foldl (transferStep refusingEngine sampleKeys) p₁ = p₂ at *
  -- the word is stored a second time, after the START that erases it
  have halong₂ : Along (transferStep refusingEngine sampleKeys) (ErasesOpen sampleKeys) p₂
      wordRun :=
    ⟨erasesOpen_sampleStart hd₂ hm₂, erasesOpen_sampleData _ _, trivial⟩
  obtain ⟨m₃, cr₃, -, hst₃, -, -, hg₃⟩ :=
    transferStep_sampleOpened refusingEngine sampleKeys hrx₂ hd₂ hm₂
  have halong := And.intro hfirst (And.intro halong₁ halong₂)
  have hend := hinv halong
  rw [hg₃] at hend
  exact ⟨halong, by rw [hst₃], hend (by rw [hst₃]) (by rw [hst₃])⟩

end DualBank
