import DualBank.Ota.Delta
import DualBank.Ota.Frame

/-!
# The OTA receiver

`bootloader/src/ota_client.c` over a flash backend: the four handlers on the transfer
state, and the loop of `ota_client_receive` as a step on what `read_frame` returns.

START and START_DELTA go the same way once they have passed their checks, so both are
also given as an `Opening`: what they erase, and the session they open if that works.
-/

namespace DualBank

open Lib FlashBackend

/-! ## State -/

/-- `ota_kind_t`. -/
inductive OtaKind where
  | full
  | delta
deriving DecidableEq, Repr

/-- `ota_state_t`. -/
structure OtaState where
  active : Bool
  kind : OtaKind
  slotAddr : Nat
  xferTotal : Nat
  written : Nat
  expectedSeq : UInt16
  patchTailBase : Nat
  expectedNewTotal : Nat
  activeSlotBase : Nat
deriving DecidableEq, Repr

/-- `g_state` after the `memset` at the entry of the receiver. -/
def OtaState.cleared : OtaState := ⟨false, .full, 0, 0, 0, 0, 0, 0, 0⟩

/-- What the handlers work on. -/
structure OtaClient (σ : Type) where
  state : OtaState
  dev : σ
  shared : SharedBootBlock

/-- `send_response`. -/
structure OtaResponse where
  code : UInt8
  seq : UInt16
deriving DecidableEq, Repr

/-! ## Handlers -/

section Handlers

variable {σ : Type} [FlashBackend σ] (E : PatchEngine) (K : KeyStore)

def handleStart (f : OtaFrame) (c : OtaClient σ) : Bool × OtaClient σ :=
  if f.data.length < 4 then (false, c)
  else
    let r := bootConfigLoad (onFlash σ K) c.dev
    let c := { c with dev := r.2.2 }
    let target := memoryMapOtherSlot r.2.1.activeSlot
    let slotAddr := memoryMapSlotAddr target
    let total := (u32At f.data 0).toNat
    if total < firmwareHeaderSize ∨ total > firmwareHeaderSize + firmwareMaxPayloadSize then
      (false, c)
    else
      let e := flashEraseRange slotAddr total c.dev
      let c := { c with dev := e.2 }
      if e.1 ≠ .ok then (false, c)
      else
        (true,
          { c with state :=
            { c.state with
              active := true
              kind := .full
              slotAddr := slotAddr
              xferTotal := total
              written := 0
              expectedSeq := f.seq + 1 } })

def otaStartDeltaPayload : Nat := 4 + 4 + 32

def handleStartDelta (f : OtaFrame) (c : OtaClient σ) : Bool × OtaClient σ :=
  if f.data.length < otaStartDeltaPayload then (false, c)
  else
    let r := bootConfigLoad (onFlash σ K) c.dev
    let c := { c with dev := r.2.2 }
    let target := memoryMapOtherSlot r.2.1.activeSlot
    let slotAddr := memoryMapSlotAddr target
    let patchTotal := (u32At f.data 0).toNat
    let expectedNew := (u32At f.data 4).toNat
    let digest := (f.data.drop 8).take 32
    let slotSpan := flashOtaSlotSpan σ
    if patchTotal = 0 ∨ patchTotal > slotSpan then (false, c)
    else if expectedNew < firmwareHeaderSize ∨
        expectedNew > firmwareHeaderSize + firmwareMaxPayloadSize then (false, c)
    else if expectedNew + patchTotal > slotSpan then (false, c)
    else
      let activeBase := memoryMapSlotAddr r.2.1.activeSlot
      if !deltaVerifyActiveBaseSha256 activeBase digest (byte c.dev) then (false, c)
      else
        let e := flashEraseRange slotAddr slotSpan c.dev
        let c := { c with dev := e.2 }
        if e.1 ≠ .ok then (false, c)
        else
          (true,
            { c with state :=
              { active := true
                kind := .delta
                slotAddr := slotAddr
                xferTotal := patchTotal
                expectedNewTotal := expectedNew
                activeSlotBase := activeBase
                patchTailBase := slotAddr + slotSpan - patchTotal
                written := 0
                expectedSeq := f.seq + 1 } })

/-- The address `handle_data` programs, or `none` when it refuses the frame. -/
def dataDest (f : OtaFrame) (st : OtaState) : Option Nat :=
  if !st.active then none
  else if f.seq ≠ st.expectedSeq then none
  else if f.data.length = 0 then none
  else if st.written + f.data.length > st.xferTotal then none
  else if st.kind = .delta then some (st.patchTailBase + st.written)
  else some (st.slotAddr + st.written)

def handleData (f : OtaFrame) (c : OtaClient σ) : Bool × OtaClient σ :=
  match dataDest f c.state with
  | none => (false, c)
  | some dest =>
    let r := flashProgramBytes dest f.data c.dev
    let c := { c with dev := r.2 }
    if r.1 ≠ .ok then (false, c)
    else
      (true,
        { c with state :=
          { c.state with
            written := c.state.written + f.data.length
            expectedSeq := c.state.expectedSeq + 1 } })

/-- `handle_end` from the check of the image on. -/
def endVerify (c : OtaClient σ) : Bool × OtaClient σ :=
  if !cryptoVerifyFirmware K (byte c.dev) c.state.slotAddr then (false, c)
  else
    let hdr := FirmwareHeader.ofMem (byte c.dev) c.state.slotAddr
    if hdr.magic ≠ firmwareMagic then (false, c)
    else
      let r := bootConfigLoad (onFlash σ K) c.dev
      let c := { c with dev := r.2.2 }
      if !BootConfig.bootConfigFirmwareAllowed r.2.1 hdr.version then (false, c)
      else
        (true,
          { c with shared :=
            { c.shared with magic := sharedBlockMagic, otaPending := 1, bootConfirmed := 0 } })

def handleEnd (c : OtaClient σ) : Bool × OtaClient σ :=
  if !c.state.active then (false, c)
  else if c.state.written ≠ c.state.xferTotal then (false, c)
  else if c.state.kind = .delta then
    let r := deltaApplyPatch E c.state.activeSlotBase c.state.slotAddr c.state.xferTotal
      c.state.expectedNewTotal c.dev
    let c := { c with dev := r.2 }
    if !r.1 then (false, c) else endVerify K c
  else endVerify K c

/-- The `switch` of `ota_client_receive`, ABORT apart. -/
def handleFrame (f : OtaFrame) (c : OtaClient σ) : Bool × OtaClient σ :=
  if f.op = otaOpStart then handleStart K f c
  else if f.op = otaOpStartDelta then handleStartDelta K f c
  else if f.op = otaOpData then handleData f c
  else if f.op = otaOpEnd then handleEnd E K c
  else (false, c)

end Handlers

/-! ## The receive loop -/

/-- Whether `ota_client_receive` is still running, and how it ended. -/
inductive RxStatus where
  | receiving
  /-- It has returned `false`. -/
  | returned
  /-- It has reset the system. -/
  | reset
deriving DecidableEq, Repr

/-- `ota_client_receive` between two calls of `read_frame`. -/
structure Receiver (σ : Type) where
  client : OtaClient σ
  consecErrs : Nat
  status : RxStatus

def maxConsecErrs : Nat := 16

/-- The entry of `ota_client_receive`. -/
def Receiver.enter {σ : Type} (dev : σ) (shared : SharedBootBlock) : Receiver σ :=
  ⟨⟨.cleared, dev, shared⟩, 0, .receiving⟩

/-- One more error, after which the loop goes on or ends. -/
def Receiver.countError {σ : Type} (r : Receiver σ) : Receiver σ :=
  { r with
    consecErrs := r.consecErrs + 1
    status := if r.consecErrs + 1 < maxConsecErrs then r.status else .returned }

section Receive

variable {σ : Type} [FlashBackend σ] (E : PatchEngine) (K : KeyStore)

/-- A turn of the loop for a frame. -/
def receiveFrame (f : OtaFrame) (r : Receiver σ) : Option OtaResponse × Receiver σ :=
  if f.op = otaOpAbort then (some ⟨otaRespAck, f.seq⟩, { r with status := .returned })
  else
    let h := handleFrame E K f r.client
    let r := { r with client := h.2 }
    if h.1 then
      (some ⟨otaRespAck, f.seq⟩,
        { r with
          consecErrs := 0
          status := if f.op = otaOpEnd then .reset else r.status })
    else (some ⟨otaRespNak, f.seq⟩, r.countError)

/-- A turn of the loop: the response that is sent, and the receiver after it. -/
def receiveStep (s : FrameStatus) (r : Receiver σ) : Option OtaResponse × Receiver σ :=
  if r.status ≠ .receiving then (none, r)
  else
    match s with
    | .ok f => receiveFrame E K f r
    | .timeout => (none, r.countError)
    | .crcBad => (some ⟨otaRespNak, 0⟩, r.countError)
    | .tooBig => (some ⟨otaRespNak, 0⟩, r.countError)
    | .badSoh => (none, r.countError)

end Receive

/-! ## Openings -/

/-- What a START or START_DELTA that has passed its checks erases, and the session it
opens when the erase succeeds. -/
structure Opening where
  addr : Nat
  size : Nat
  state : OtaState

/-- The checks of `handle_start`. -/
def startOpens (cfg : BootConfig) (f : OtaFrame) (st : OtaState) : Option Opening :=
  let slotAddr := memoryMapSlotAddr (memoryMapOtherSlot cfg.activeSlot)
  let total := (u32At f.data 0).toNat
  if f.data.length < 4 then none
  else if total < firmwareHeaderSize ∨ total > firmwareHeaderSize + firmwareMaxPayloadSize then none
  else
    some ⟨slotAddr, total,
      { st with
        active := true
        kind := .full
        slotAddr := slotAddr
        xferTotal := total
        written := 0
        expectedSeq := f.seq + 1 }⟩

/-- The checks of `handle_start_delta`, on a slot span and a flash content. -/
def startDeltaOpens (slotSpan : Nat) (m : Mem) (cfg : BootConfig) (f : OtaFrame) : Option Opening :=
  let slotAddr := memoryMapSlotAddr (memoryMapOtherSlot cfg.activeSlot)
  let activeBase := memoryMapSlotAddr cfg.activeSlot
  let patchTotal := (u32At f.data 0).toNat
  let expectedNew := (u32At f.data 4).toNat
  if f.data.length < otaStartDeltaPayload then none
  else if patchTotal = 0 ∨ patchTotal > slotSpan then none
  else if expectedNew < firmwareHeaderSize ∨
      expectedNew > firmwareHeaderSize + firmwareMaxPayloadSize then none
  else if expectedNew + patchTotal > slotSpan then none
  else if !deltaVerifyActiveBaseSha256 activeBase ((f.data.drop 8).take 32) m then none
  else
    some ⟨slotAddr, slotSpan,
      { active := true
        kind := .delta
        slotAddr := slotAddr
        xferTotal := patchTotal
        expectedNewTotal := expectedNew
        activeSlotBase := activeBase
        patchTailBase := slotAddr + slotSpan - patchTotal
        written := 0
        expectedSeq := f.seq + 1 }⟩

/-- What the checks of `handle_start` let through, and the opening it is. -/
theorem startOpens_eq_some {cfg : BootConfig} {f : OtaFrame} {st : OtaState} {o : Opening} :
    startOpens cfg f st = some o ↔
      4 ≤ f.data.length ∧ firmwareHeaderSize ≤ (u32At f.data 0).toNat ∧
        (u32At f.data 0).toNat ≤ firmwareHeaderSize + firmwareMaxPayloadSize ∧
        o = ⟨memoryMapSlotAddr (memoryMapOtherSlot cfg.activeSlot), (u32At f.data 0).toNat,
          { st with
            active := true
            kind := .full
            slotAddr := memoryMapSlotAddr (memoryMapOtherSlot cfg.activeSlot)
            xferTotal := (u32At f.data 0).toNat
            written := 0
            expectedSeq := f.seq + 1 }⟩ := by
  unfold startOpens
  dsimp only
  by_cases hlen : f.data.length < 4
  · rw [if_pos hlen]
    exact ⟨nofun, fun h ↦ absurd hlen (Nat.not_lt.2 h.1)⟩
  rw [if_neg hlen]
  by_cases htotal : (u32At f.data 0).toNat < firmwareHeaderSize ∨
      (u32At f.data 0).toNat > firmwareHeaderSize + firmwareMaxPayloadSize
  · rw [if_pos htotal]
    exact ⟨nofun, fun h ↦ absurd htotal (not_or.2 ⟨Nat.not_lt.2 h.2.1, Nat.not_lt.2 h.2.2.1⟩)⟩
  rw [if_neg htotal, Option.some.injEq]
  push Not at htotal
  exact ⟨fun h ↦ ⟨Nat.not_lt.1 hlen, htotal.1, htotal.2, h.symm⟩, fun h ↦ h.2.2.2.symm⟩

/-- What the checks of `handle_start_delta` let through, and the opening it is. -/
theorem startDeltaOpens_eq_some {slotSpan : Nat} {m : Mem} {cfg : BootConfig} {f : OtaFrame}
    {o : Opening} (h : startDeltaOpens slotSpan m cfg f = some o) :
    0 < (u32At f.data 0).toNat ∧ (u32At f.data 0).toNat ≤ slotSpan ∧
      (u32At f.data 4).toNat + (u32At f.data 0).toNat ≤ slotSpan ∧
      o = ⟨memoryMapSlotAddr (memoryMapOtherSlot cfg.activeSlot), slotSpan,
        { active := true
          kind := .delta
          slotAddr := memoryMapSlotAddr (memoryMapOtherSlot cfg.activeSlot)
          xferTotal := (u32At f.data 0).toNat
          expectedNewTotal := (u32At f.data 4).toNat
          activeSlotBase := memoryMapSlotAddr cfg.activeSlot
          patchTailBase := memoryMapSlotAddr (memoryMapOtherSlot cfg.activeSlot) + slotSpan -
            (u32At f.data 0).toNat
          written := 0
          expectedSeq := f.seq + 1 }⟩ := by
  unfold startDeltaOpens at h
  dsimp only at h
  split_ifs at h with hlen hpatch hnew hfit hbase
  rw [Option.some.injEq] at h
  push Not at hpatch
  exact ⟨Nat.pos_of_ne_zero hpatch.1, hpatch.2, Nat.not_lt.1 hfit, h.symm⟩

section Opening

variable {σ : Type} [FlashBackend σ]

/-- The erase of an opening, and the session if it succeeds. -/
def openSession (o : Option Opening) (c : OtaClient σ) : Bool × OtaClient σ :=
  match o with
  | none => (false, c)
  | some o =>
    let e := flashEraseRange o.addr o.size c.dev
    if e.1 = .ok then (true, { c with dev := e.2, state := o.state })
    else (false, { c with dev := e.2 })

/-- A check in front of an opening. -/
theorem openSession_ite {p : Prop} [Decidable p] (o : Option Opening) (c : OtaClient σ) :
    openSession (if p then none else o) c = if p then (false, c) else openSession o c := by
  split_ifs <;> rfl

theorem openSession_some (o : Opening) (c : OtaClient σ) :
    openSession (some o) c =
      if (flashEraseRange o.addr o.size c.dev).1 ≠ .ok then
        (false, { c with dev := (flashEraseRange o.addr o.size c.dev).2 })
      else (true, { c with dev := (flashEraseRange o.addr o.size c.dev).2, state := o.state }) :=
  (ite_not _ _ _).symm

/-- The record `boot_config_load` returns on a flash device. -/
def loadedOn (K : KeyStore) (s : σ) : BootConfig := (bootConfigLoad (onFlash σ K) s).2.1

/-- Loading the record leaves the device alone. -/
theorem bootConfigLoad_dev (K : KeyStore) (s : σ) : (bootConfigLoad (onFlash σ K) s).2.2 = s := by
  have hv : ∀ slotAddr (t : σ), (recoverVersion (onFlash σ K) slotAddr t).2 = t := fun _ _ ↦ by
    unfold recoverVersion
    dsimp only
    split <;> rfl
  unfold bootConfigLoad
  dsimp only
  split_ifs
  · rfl
  · unfold bootConfigRecoverFromSlots
    dsimp only
    rw [hv, hv]

theorem handleStart_eq (K : KeyStore) (f : OtaFrame) (c : OtaClient σ) :
    handleStart K f c = openSession (startOpens (loadedOn K c.dev) f c.state) c := by
  have hdev := bootConfigLoad_dev K c.dev
  unfold handleStart startOpens loadedOn
  generalize bootConfigLoad (onFlash σ K) c.dev = r at hdev ⊢
  dsimp only
  rw [hdev, openSession_ite, openSession_ite, openSession_some]

theorem handleStartDelta_eq (K : KeyStore) (f : OtaFrame) (c : OtaClient σ) :
    handleStartDelta K f c =
      openSession (startDeltaOpens (flashOtaSlotSpan σ) (byte c.dev) (loadedOn K c.dev) f) c := by
  have hdev := bootConfigLoad_dev K c.dev
  unfold handleStartDelta startDeltaOpens loadedOn
  generalize bootConfigLoad (onFlash σ K) c.dev = r at hdev ⊢
  dsimp only
  rw [hdev, openSession_ite, openSession_ite, openSession_ite, openSession_ite, openSession_ite,
    openSession_some]

end Opening

end DualBank
