import DualBank.Crypto.Crc32
import DualBank.Lib.Bytes

/-!
# Frames

The wire format of the OTA protocol: the encoder of `tools/ota_protocol.py` and the
decoder `read_frame` of `bootloader/src/ota_client.c`.  The decoder reads from the
bytes that are still to come; when they run out a read times out.
-/

namespace DualBank

open Lib

def otaFrameSoh : UInt8 := 0x01
def otaRespAck : UInt8 := 0x06
def otaRespNak : UInt8 := 0x15

def otaOpStart : UInt8 := 0x21
def otaOpData : UInt8 := 0x22
def otaOpEnd : UInt8 := 0x23
def otaOpStartDelta : UInt8 := 0x24
def otaOpAbort : UInt8 := 0x2F

def otaMaxPayload : Nat := 1024

theorem one_le_otaMaxPayload : 1 ≤ otaMaxPayload := by decide

/-- `ota_frame_t`; `len` is the length of `data`. -/
structure OtaFrame where
  op : UInt8
  seq : UInt16
  data : List UInt8
  length_le : data.length ≤ otaMaxPayload

/-! ## The encoder -/

/-- What the CRC of a frame covers. -/
def frameBody (op : UInt8) (seq : UInt16) (data : List UInt8) : List UInt8 :=
  op :: (bytes16 seq ++ bytes16 data.length.toUInt16) ++ data

/-- `build_frame`; a payload that is too large raises. -/
def buildFrame (op : UInt8) (seq : UInt16) (data : List UInt8) : Option (List UInt8) :=
  if data.length > otaMaxPayload then none
  else some (otaFrameSoh :: frameBody op seq data ++ bytes32 (crc32 (frameBody op seq data)))

namespace OtaFrame

/-- The frame on the wire. -/
def wire (f : OtaFrame) : List UInt8 := (buildFrame f.op f.seq f.data).getD []

theorem buildFrame_eq (f : OtaFrame) : buildFrame f.op f.seq f.data = some f.wire := by
  have h : ¬f.data.length > otaMaxPayload := Nat.not_lt.2 f.length_le
  rw [wire, buildFrame, if_neg h, Option.getD_some]

theorem wire_eq (f : OtaFrame) : f.wire =
    otaFrameSoh :: frameBody f.op f.seq f.data ++
      bytes32 (crc32 (frameBody f.op f.seq f.data)) := by
  have h : ¬f.data.length > otaMaxPayload := Nat.not_lt.2 f.length_le
  rw [wire, buildFrame, if_neg h, Option.getD_some]

end OtaFrame

/-! ## The decoder -/

/-- The outcome of `read_frame`, with the frame if there is one. -/
inductive FrameStatus where
  | ok (frame : OtaFrame)
  | timeout
  | crcBad
  | tooBig
  | badSoh

/-- The resync loop: the bytes after the next SOH. -/
def resync : List UInt8 → Option (List UInt8)
  | [] => none
  | b :: stream => if b = otaFrameSoh then some stream else resync stream

/-- `uart_ota_read` of `n` bytes: what arrived before the timeout, and the rest. -/
def uartOtaRead (n : Nat) (stream : List UInt8) : List UInt8 × List UInt8 :=
  (stream.take n, stream.drop n)

theorem length_uartOtaRead_le (n : Nat) (stream : List UInt8) :
    (uartOtaRead n stream).1.length ≤ n := by
  rw [uartOtaRead, List.length_take]
  exact Nat.min_le_left _ _

theorem uartOtaRead_append {n : Nat} {bs : List UInt8} (h : bs.length = n) (rest : List UInt8) :
    uartOtaRead n (bs ++ rest) = (bs, rest) := by
  rw [uartOtaRead, List.take_left' h, List.drop_left' h]

/-- The end of `read_frame`, once the payload is there. -/
def readCrc (hdr : List UInt8) (frame : OtaFrame) (stream : List UInt8) :
    FrameStatus × List UInt8 :=
  let crcBuf := uartOtaRead 4 stream
  if crcBuf.1.length ≠ 4 then (.timeout, crcBuf.2)
  else
    let crcRx := le32 (crcBuf.1.getD 0 0) (crcBuf.1.getD 1 0) (crcBuf.1.getD 2 0)
      (crcBuf.1.getD 3 0)
    let crc := crc32Update crc32Init hdr
    let crc := crc32Update crc frame.data
    if crc32Finalize crc ≠ crcRx then (.crcBad, crcBuf.2) else (.ok frame, crcBuf.2)

/-- `read_frame` from the bound on the length on, with the fields of the header. -/
def readPayload (hdr : List UInt8) (op : UInt8) (seq : UInt16) (len : Nat) (stream : List UInt8) :
    FrameStatus × List UInt8 :=
  if hlen : len > otaMaxPayload then (.tooBig, stream)
  else
    let data := uartOtaRead len stream
    if data.1.length ≠ len then (.timeout, data.2)
    else
      readCrc hdr
        ⟨op, seq, data.1, Nat.le_trans (length_uartOtaRead_le _ _) (Nat.le_of_not_lt hlen)⟩ data.2

/-- `read_frame`. -/
def readFrame (stream : List UInt8) : FrameStatus × List UInt8 :=
  match resync stream with
  | none => (.timeout, [])
  | some stream =>
    let hdr := uartOtaRead 5 stream
    if hdr.1.length ≠ 5 then (.timeout, hdr.2)
    else
      let op := hdr.1.getD 0 0
      let seq := le16 (hdr.1.getD 1 0) (hdr.1.getD 2 0)
      let len := (le16 (hdr.1.getD 3 0) (hdr.1.getD 4 0)).toNat
      readPayload hdr.1 op seq len hdr.2

/-! ## Round trip -/

theorem resync_append {junk : List UInt8} (h : otaFrameSoh ∉ junk) (stream : List UInt8) :
    resync (junk ++ stream) = resync stream := by
  induction junk with
  | nil => rfl
  | cons b junk ih =>
      simp only [List.mem_cons, not_or] at h
      rw [List.cons_append, resync, if_neg (Ne.symm h.1), ih h.2]

theorem resync_of_notMem {junk : List UInt8} (h : otaFrameSoh ∉ junk) : resync junk = none := by
  have hr := resync_append h []
  rwa [List.append_nil] at hr

/-- The header the decoder takes off the wire. -/
def frameHeader (op : UInt8) (seq : UInt16) (data : List UInt8) : List UInt8 :=
  op :: (bytes16 seq ++ bytes16 data.length.toUInt16)

theorem frameBody_eq (op : UInt8) (seq : UInt16) (data : List UInt8) :
    frameBody op seq data = frameHeader op seq data ++ data := rfl

/-- The length field holds the length. -/
theorem toNat_length (f : OtaFrame) : f.data.length.toUInt16.toNat = f.data.length := by
  have h := f.length_le
  simp only [otaMaxPayload] at h
  rw [Nat.toUInt16, UInt16.toNat_ofNat']
  exact Nat.mod_eq_of_lt (by omega)

/-- The CRC check of a frame that arrives with some CRC. -/
theorem readCrc_bytes32 (f : OtaFrame) (crc : UInt32) (rest : List UInt8) :
    readCrc (frameHeader f.op f.seq f.data) f (bytes32 crc ++ rest) =
      if crc32 (frameBody f.op f.seq f.data) ≠ crc then (.crcBad, rest) else (.ok f, rest) := by
  unfold readCrc
  rw [uartOtaRead_append (length_bytes32 _)]
  dsimp only
  rw [if_neg (by rw [length_bytes32]; decide)]
  have hrx : le32 ((bytes32 crc).getD 0 0) ((bytes32 crc).getD 1 0) ((bytes32 crc).getD 2 0)
      ((bytes32 crc).getD 3 0) = crc := le32_bytes crc
  rw [hrx, ← crc32Update_append, ← frameBody_eq]
  rfl

/-- The payload of a frame that arrives as it was sent. -/
theorem readPayload_wire (hdr : List UInt8) (f : OtaFrame) (stream : List UInt8) :
    readPayload hdr f.op f.seq f.data.length (f.data ++ stream) = readCrc hdr f stream := by
  have hlen : ¬f.data.length > otaMaxPayload := Nat.not_lt.2 f.length_le
  unfold readPayload
  rw [dif_neg hlen]
  simp only [uartOtaRead_append rfl stream, ne_eq, not_true_eq_false, if_false]

/-- After any junk and before any other bytes, the body of a frame is decoded, and the CRC
behind it decides. -/
theorem readFrame_body {junk : List UInt8} (hjunk : otaFrameSoh ∉ junk) (f : OtaFrame)
    (crc : UInt32) (rest : List UInt8) :
    readFrame (junk ++ (otaFrameSoh :: frameBody f.op f.seq f.data ++ bytes32 crc ++ rest)) =
      if crc32 (frameBody f.op f.seq f.data) ≠ crc then (.crcBad, rest) else (.ok f, rest) := by
  have hstream : otaFrameSoh :: frameBody f.op f.seq f.data ++ bytes32 crc ++ rest =
      otaFrameSoh :: (frameHeader f.op f.seq f.data ++ (f.data ++ (bytes32 crc ++ rest))) := by
    rw [frameBody_eq]
    simp only [List.append_assoc, List.cons_append]
  have hhdr : (frameHeader f.op f.seq f.data).length = 5 := rfl
  have hop : (frameHeader f.op f.seq f.data).getD 0 0 = f.op := rfl
  have hseq : le16 ((frameHeader f.op f.seq f.data).getD 1 0)
      ((frameHeader f.op f.seq f.data).getD 2 0) = f.seq := le16_bytes f.seq
  have hlen : (le16 ((frameHeader f.op f.seq f.data).getD 3 0)
      ((frameHeader f.op f.seq f.data).getD 4 0)).toNat = f.data.length :=
    (congrArg UInt16.toNat (le16_bytes _)).trans (toNat_length f)
  unfold readFrame
  rw [hstream, resync_append hjunk, resync, if_pos rfl]
  dsimp only
  rw [uartOtaRead_append hhdr, if_neg (not_not.mpr hhdr), hop, hseq, hlen, readPayload_wire,
    readCrc_bytes32]

/-- A frame is decoded from the wire, after any junk and before any other bytes. -/
theorem readFrame_wire {junk : List UInt8} (hjunk : otaFrameSoh ∉ junk) (f : OtaFrame)
    (rest : List UInt8) : readFrame (junk ++ (f.wire ++ rest)) = (.ok f, rest) := by
  rw [OtaFrame.wire_eq, readFrame_body hjunk, if_neg (not_not.mpr rfl)]

/-! ## Streams -/

/-- The outcomes of `n` calls of `read_frame`, and the bytes they leave. -/
def readFrames : Nat → List UInt8 → List FrameStatus × List UInt8
  | 0, stream => ([], stream)
  | n + 1, stream =>
    let r := readFrame stream
    let rs := readFrames n r.2
    (r.1 :: rs.1, rs.2)

/-- Frames on the wire, each after some junk. -/
def encodeStream (items : List (List UInt8 × OtaFrame)) (trailing : List UInt8) : List UInt8 :=
  items.foldr (fun item stream ↦ item.1 ++ (item.2.wire ++ stream)) trailing

/-- **Round trip.**  From frames encoded one after the other, with bytes other than SOH
before, between and after them, the calls of `read_frame` return the frames in order;
each call consumes what was sent up to the end of its frame and nothing behind it, and
after the last frame the next call times out. -/
theorem readFrames_encodeStream (items : List (List UInt8 × OtaFrame)) (trailing : List UInt8)
    (hjunk : ∀ item ∈ items, otaFrameSoh ∉ item.1) (htrailing : otaFrameSoh ∉ trailing) :
    (∀ item ∈ items, buildFrame item.2.op item.2.seq item.2.data = some item.2.wire) ∧
    (∀ k ≤ items.length, readFrames k (encodeStream items trailing) =
      ((items.take k).map fun item ↦ .ok item.2, encodeStream (items.drop k) trailing)) ∧
    readFrame (readFrames items.length (encodeStream items trailing)).2 = (.timeout, []) := by
  have hrun : ∀ k ≤ items.length, readFrames k (encodeStream items trailing) =
      ((items.take k).map fun item ↦ .ok item.2, encodeStream (items.drop k) trailing) := by
    intro k
    induction items generalizing k with
    | nil => intro hk; rw [Nat.le_zero.1 hk]; rfl
    | cons item items ih =>
        intro hk
        cases k with
        | zero => rfl
        | succ k =>
            have hfirst : readFrame (encodeStream (item :: items) trailing) =
                (.ok item.2, encodeStream items trailing) :=
              readFrame_wire (hjunk item (List.mem_cons_self ..)) item.2 _
            rw [readFrames, hfirst]
            dsimp only
            rw [ih (fun i hi ↦ hjunk i (List.mem_cons_of_mem _ hi)) k (Nat.le_of_succ_le_succ hk)]
            rfl
  refine ⟨fun item _ ↦ item.2.buildFrame_eq, hrun, ?_⟩
  rw [hrun _ (Nat.le_refl _), List.drop_length]
  have hend : resync (encodeStream [] trailing) = none := resync_of_notMem htrailing
  rw [readFrame, hend]

/-- A data frame whose payload starts with SOH. -/
def sampleFrame : OtaFrame := ⟨otaOpData, 7, [otaFrameSoh, 0xAB], by decide⟩

/-- It and an END, each after stray bytes. -/
def sampleItems : List (List UInt8 × OtaFrame) :=
  [([0x55], sampleFrame), ([0x00, 0xFF], ⟨otaOpEnd, 8, [], by decide⟩)]

theorem readFrames_sample :
    readFrames 2 (encodeStream sampleItems [0x00]) =
        (sampleItems.map fun item ↦ .ok item.2, [0x00]) ∧
      readFrame (readFrames 2 (encodeStream sampleItems [0x00])).2 = (.timeout, []) := by
  have h := readFrames_encodeStream sampleItems [0x00] (by decide) (by decide)
  exact ⟨h.2.1 2 (Nat.le_refl 2), h.2.2⟩

end DualBank
