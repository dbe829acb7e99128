import DualBank.Boot.Slots
import DualBank.Lib.Calls

/-!
# Delta patches

`bootloader/src/delta_patch.c`.  The patch blob sits at the tail of the inactive
slot, and the reconstructed image is written from the base of the slot on.

HPatchLite and tinyuz see the flash through the three callbacks of this file only.
The head of the patch format is read here as `hpatch_lite_open` reads it; the rest
of the two libraries is a parameter, a `PatchEngine` of programs over the callbacks.
-/

namespace DualBank

open Lib FlashBackend

/-! ## Callbacks -/

/-- `delta_listener_t`. -/
structure DeltaListener where
  activeBase : Nat
  inactiveBase : Nat
  newWritten : Nat
  newExpected : Nat
  activeLogicalTotal : Nat

/-- `flash_diff_stream_t`. -/
structure FlashDiffStream where
  base : Nat
  pos : Nat
  len : Nat

/-- What the callbacks work on. -/
structure DeltaState (σ : Type) where
  listener : DeltaListener
  stream : FlashDiffStream
  dev : σ

/-- The callbacks, with the arguments the library passes. -/
inductive PatchOp where
  | readDiff (dataSize : Nat)
  | readOld (readFromPos dataSize : Nat)
  | writeNew (data : List UInt8)

/-- What a callback returns: the bytes of a read, or `none` for `hpi_FALSE`. -/
def PatchOp.Res : PatchOp → Type
  | .readDiff _ => Option (List UInt8)
  | .readOld _ _ => Option (List UInt8)
  | .writeNew _ => Bool

section Callbacks

variable {σ : Type} [FlashBackend σ]

/-- `diff_stream_read`; the size it reports back is the length of what it read. -/
def diffStreamRead (dataSize : Nat) (st : DeltaState σ) : Option (List UInt8) × DeltaState σ :=
  if dataSize = 0 then (some [], st)
  else
    let rem := st.stream.len - st.stream.pos
    let want := if dataSize > rem then rem else dataSize
    if want = 0 then (none, st)
    else
      (some ((byte st.dev).read (st.stream.base + st.stream.pos) want),
        { st with stream := { st.stream with pos := st.stream.pos + want } })

def readOldCb (readFromPos dataSize : Nat) (st : DeltaState σ) : Option (List UInt8) :=
  if readFromPos > st.listener.activeLogicalTotal then none
  else if dataSize > st.listener.activeLogicalTotal - readFromPos then none
  else some ((byte st.dev).read (st.listener.activeBase + readFromPos) dataSize)

def writeNewCb (data : List UInt8) (st : DeltaState σ) : Bool × DeltaState σ :=
  if data.length > st.listener.newExpected - st.listener.newWritten then (false, st)
  else
    let r := flashProgramBytes (st.listener.inactiveBase + st.listener.newWritten) data st.dev
    if r.1 ≠ .ok then (false, { st with dev := r.2 })
    else
      (true,
        { st with
          listener := { st.listener with newWritten := st.listener.newWritten + data.length }
          dev := r.2 })

/-- The answer to a call of the library. -/
def patchAnswer : (op : PatchOp) → DeltaState σ → op.Res × DeltaState σ
  | .readDiff n, st => diffStreamRead n st
  | .readOld pos n, st => (readOldCb pos n st, st)
  | .writeNew data, st => writeNewCb data st

end Callbacks

/-! ## The patch libraries -/

/-- A program of a patch library. -/
abbrev PatchProgram (α : Type) : Type := Calls PatchOp PatchOp.Res α

/-- A call of `read_diff`. -/
def askDiff (dataSize : Nat) : PatchProgram (Option (List UInt8)) :=
  Calls.ask (PatchOp.readDiff dataSize)

/-- The parts of HPatchLite and tinyuz that the model does not spell out. -/
structure PatchEngine where
  /-- What the header buffer of `hpatch_lite_open` holds before the first read. -/
  headBuf : List UInt8
  /-- `tuz_TStream`. -/
  TuzStream : Type
  tuzTStreamReadDictSize : PatchProgram UInt32
  /-- `tuz_TStream_open` on a dictionary of this size; `none` unless `tuz_OK`. -/
  tuzTStreamOpen : UInt32 → PatchProgram (Option TuzStream)
  /-- `hpatch_lite_patch` to this size, on the raw stream or through tinyuz. -/
  hpatchLitePatch : Option TuzStream → UInt32 → PatchProgram Bool

def hpiCompressTypeNo : UInt8 := 0
def hpiCompressTypeTuz : UInt8 := 1

/-- `_hpi_readSize`. -/
def hpiReadSize (buf : List UInt8) (len : Nat) : UInt32 :=
  (buf.take len).foldr (fun b v ↦ (v <<< 8) ||| b.toUInt32) 0

/-- A read into a buffer. -/
def readInto (buf data : List UInt8) : List UInt8 := data ++ buf.drop data.length

/-- `hpatch_lite_open`, built without `_IS_RUN_MEM_SAFE_CHECK`: the compress type and
the new size, or `none` when a read fails. -/
def hpatchLiteOpen (headBuf : List UInt8) : PatchProgram (Option (UInt8 × UInt32)) :=
  (askDiff 4).bind fun
    | none => .ret none
    | some data =>
      let buf := readInto headBuf data
      let compressType := buf.getD 2 0
      let lenn := ((buf.getD 3 0) &&& 7).toNat
      let lenu := ((buf.getD 3 0 >>> 3) &&& 7).toNat
      (askDiff lenn).bind fun
        | none => .ret none
        | some data =>
          let newSize := hpiReadSize (readInto buf data) data.length
          (askDiff lenu).bind fun
            | none => .ret none
            | some _ => .ret (some (compressType, newSize))

def tuzKMaxOfDictSize : UInt32 := 8192
def deltaTuzDictMax : UInt32 := 8 * 1024

/-- `hpatch_tuz_reserved_mem_size`. -/
def hpatchTuzReservedMemSize (E : PatchEngine) : PatchProgram UInt32 :=
  E.tuzTStreamReadDictSize.bind fun dictSize ↦
    .ret (if dictSize - 1 ≥ tuzKMaxOfDictSize then 0 else dictSize)

/-- `delta_run_patch` up to the comparison of the sizes at its end. -/
def deltaRunPatch (E : PatchEngine) (ct : UInt8) (newSize : UInt32) : PatchProgram Bool :=
  if ct = hpiCompressTypeTuz then
    (hpatchTuzReservedMemSize E).bind fun dictSize ↦
      if dictSize = 0 ∨ dictSize > deltaTuzDictMax then .ret false
      else
        (E.tuzTStreamOpen dictSize).bind fun
          | none => .ret false
          | some tuz => E.hpatchLitePatch (some tuz) newSize
  else if ct ≠ hpiCompressTypeNo then .ret false
  else E.hpatchLitePatch none newSize

section Apply

variable {σ : Type} [FlashBackend σ]

/-- The chunk buffer of the digest. -/
def deltaDigestBytes : Nat := 512

instance : NeZero deltaDigestBytes := ⟨by decide⟩

/-- `FIRMWARE_HEADER_SIZE + hdr.image_size`, on 32 bits. -/
def FirmwareHeader.logicalTotal (hdr : FirmwareHeader) : Nat :=
  (firmwareHeaderSize + hdr.imageSize.toNat) % 2 ^ 32

def deltaVerifyActiveBaseSha256 (activeSlotBase : Nat) (expectedDigest : List UInt8) (m : Mem) :
    Bool :=
  let hdr := FirmwareHeader.ofMem m activeSlotBase
  if hdr.magic ≠ firmwareMagic then false
  else if hdr.logicalTotal > slotSize then false
  else
    let ctx := chunkLoop sha256Update deltaDigestBytes m sha256Init activeSlotBase hdr.logicalTotal
    cryptoConstantTimeEqual (sha256Final ctx) expectedDigest 32

def deltaApplyPatch (E : PatchEngine) (activeSlotBase inactiveSlotBase patchTotal
    expectedNewTotal : Nat) (s : σ) : Bool × σ :=
  if patchTotal = 0 ∨ expectedNewTotal = 0 then (false, s)
  else
    let slotSpan := flashOtaSlotSpan σ
    if expectedNewTotal + patchTotal > slotSpan then (false, s)
    else
      let activeHdr := FirmwareHeader.ofMem (byte s) activeSlotBase
      if activeHdr.magic ≠ firmwareMagic ∨ activeHdr.imageSize = 0 then (false, s)
      else if activeHdr.logicalTotal > slotSize then (false, s)
      else
        let st : DeltaState σ :=
          { listener := ⟨activeSlotBase, inactiveSlotBase, 0, expectedNewTotal,
              activeHdr.logicalTotal⟩
            stream := ⟨inactiveSlotBase + slotSpan - patchTotal, 0, patchTotal⟩
            dev := s }
        let r := (hpatchLiteOpen E.headBuf).run patchAnswer st
        match r.1 with
        | none => (false, r.2.dev)
        | some (ct, newSize) =>
          if newSize.toNat ≠ expectedNewTotal then (false, r.2.dev)
          else
            let r := (deltaRunPatch E ct newSize).run patchAnswer r.2
            (r.1 && (r.2.listener.newWritten == r.2.listener.newExpected &&
              newSize.toNat == r.2.listener.newWritten), r.2.dev)

/-- The checks of `delta_apply_patch` before it opens the patch. -/
def DeltaChecks (activeSlotBase patchTotal expectedNewTotal : Nat) (s : σ) : Prop :=
  patchTotal ≠ 0 ∧ expectedNewTotal ≠ 0 ∧ expectedNewTotal + patchTotal ≤ flashOtaSlotSpan σ ∧
    (FirmwareHeader.ofMem (byte s) activeSlotBase).magic = firmwareMagic ∧
    (FirmwareHeader.ofMem (byte s) activeSlotBase).imageSize ≠ 0 ∧
    (FirmwareHeader.ofMem (byte s) activeSlotBase).logicalTotal ≤ slotSize

/-- What it does when they have passed. -/
def deltaOpened (E : PatchEngine) (expectedNewTotal : Nat) (st : DeltaState σ) : Bool × σ :=
  let r := (hpatchLiteOpen E.headBuf).run patchAnswer st
  match r.1 with
  | none => (false, r.2.dev)
  | some (ct, newSize) =>
    if newSize.toNat ≠ expectedNewTotal then (false, r.2.dev)
    else
      let r := (deltaRunPatch E ct newSize).run patchAnswer r.2
      (r.1 && (r.2.listener.newWritten == r.2.listener.newExpected &&
        newSize.toNat == r.2.listener.newWritten), r.2.dev)

variable (E : PatchEngine) {activeSlotBase : Nat} (inactiveSlotBase : Nat)
  {patchTotal expectedNewTotal : Nat} {s : σ}

theorem deltaApplyPatch_of_checks (h : DeltaChecks activeSlotBase patchTotal expectedNewTotal s) :
    deltaApplyPatch E activeSlotBase inactiveSlotBase patchTotal expectedNewTotal s =
      deltaOpened E expectedNewTotal
        ⟨⟨activeSlotBase, inactiveSlotBase, 0, expectedNewTotal,
            (FirmwareHeader.ofMem (byte s) activeSlotBase).logicalTotal⟩,
          ⟨inactiveSlotBase + flashOtaSlotSpan σ - patchTotal, 0, patchTotal⟩, s⟩ := by
  obtain ⟨hpatch, hnew, hfits, hmagic, hsize, hactive⟩ := h
  have hsizes : ¬(patchTotal = 0 ∨ expectedNewTotal = 0) := fun h ↦ h.elim hpatch hnew
  have hheader : ¬((FirmwareHeader.ofMem (byte s) activeSlotBase).magic ≠ firmwareMagic ∨
      (FirmwareHeader.ofMem (byte s) activeSlotBase).imageSize = 0) :=
    fun h ↦ h.elim (fun h ↦ h hmagic) hsize
  unfold deltaApplyPatch
  dsimp only
  rw [if_neg hsizes, if_neg (Nat.not_lt.2 hfits), if_neg hheader, if_neg (Nat.not_lt.2 hactive)]
  rfl

theorem deltaApplyPatch_of_not_checks
    (h : ¬DeltaChecks activeSlotBase patchTotal expectedNewTotal s) :
    deltaApplyPatch E activeSlotBase inactiveSlotBase patchTotal expectedNewTotal s =
      (false, s) := by
  unfold deltaApplyPatch
  dsimp only
  by_cases hsizes : patchTotal = 0 ∨ expectedNewTotal = 0
  · rw [if_pos hsizes]
  rw [if_neg hsizes]
  by_cases hfits : expectedNewTotal + patchTotal > flashOtaSlotSpan σ
  · rw [if_pos hfits]
  rw [if_neg hfits]
  by_cases hheader : (FirmwareHeader.ofMem (byte s) activeSlotBase).magic ≠ firmwareMagic ∨
      (FirmwareHeader.ofMem (byte s) activeSlotBase).imageSize = 0
  · rw [if_pos hheader]
  rw [if_neg hheader]
  by_cases hactive : (FirmwareHeader.ofMem (byte s) activeSlotBase).logicalTotal > slotSize
  · rw [if_pos hactive]
  rw [not_or] at hsizes hheader
  exact absurd ⟨hsizes.1, hsizes.2, Nat.not_lt.1 hfits, not_not.1 hheader.1, hheader.2,
    Nat.not_lt.1 hactive⟩ h

end Apply

end DualBank
