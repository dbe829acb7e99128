import DualBank.Config.Record
import DualBank.Crypto.Burst
import DualBank.Ota.Uart

/-!
# Integrity

What the CRC of the configuration record and the CRC of a frame are worth: after a burst in
the bytes that the CRC covers, the record is rejected and the frame is not accepted.
-/

namespace DualBank

open Lib BootConfig

/-! ## Records -/

/-- A valid record holds the CRC of its body. -/
theorem crc32_body {cfg : BootConfig} (h : bootConfigValidate cfg = true) :
    DualBank.crc32 cfg.body = cfg.crc32 :=
  congrArg BootConfig.crc32 (bootConfigValidate_iff.1 h).2

theorem bootConfigValidate_burst {cfg cfg' : BootConfig} (h : bootConfigValidate cfg = true)
    (hburst : Burst cfg.body cfg'.body) (hcrc : cfg'.crc32 = cfg.crc32) :
    bootConfigValidate cfg' = false := by
  by_contra hvalid
  rw [Bool.not_eq_false] at hvalid
  refine hburst.crc32_ne ?_
  rw [crc32_body h, crc32_body hvalid, hcrc]

/-! ## Frames -/

theorem length_frameBody (op : UInt8) (seq : UInt16) (data : List UInt8) :
    (frameBody op seq data).length = data.length + 5 := by
  rw [frameBody, List.length_append]
  exact Nat.add_comm _ _

/-- What a change of OP, SEQ and DATA makes of the body of a frame is the body of a frame. -/
theorem exists_frameBody (f : OtaFrame) {body : List UInt8}
    (hlen : (frameBody f.op f.seq f.data).length = body.length)
    (hfield : (body.drop 3).take 2 = bytes16 f.data.length.toUInt16) :
    ∃ f' : OtaFrame, frameBody f'.op f'.seq f'.data = body := by
  rw [length_frameBody] at hlen
  match body, hlen, hfield with
  | op :: s₀ :: s₁ :: l₀ :: l₁ :: data, hlen, hfield =>
      have hdata : f.data.length = data.length := Nat.add_right_cancel hlen
      refine ⟨⟨op, le16 s₀ s₁, data, hdata ▸ f.length_le⟩, ?_⟩
      have hl : bytes16 data.length.toUInt16 = [l₀, l₁] := by
        rw [← hdata, ← hfield]
        rfl
      rw [frameBody, bytes16_le16, hl]
      rfl

/-- The stream with a frame whose body has become `body` on the way. -/
def corrupted (f : OtaFrame) (junk body rest : List UInt8) : List UInt8 :=
  junk ++ (otaFrameSoh :: body ++ bytes32 (crc32 (frameBody f.op f.seq f.data)) ++ rest)

theorem readFrame_burst (f : OtaFrame) {junk body : List UInt8} (hjunk : otaFrameSoh ∉ junk)
    (hburst : Burst (frameBody f.op f.seq f.data) body)
    (hfield : (body.drop 3).take 2 = bytes16 f.data.length.toUInt16) (rest : List UInt8) :
    readFrame (corrupted f junk body rest) = (.crcBad, rest) := by
  obtain ⟨f', rfl⟩ := exists_frameBody f hburst.length_eq hfield
  rw [corrupted, readFrame_body hjunk, if_pos hburst.crc32_ne.symm]

/-- **Bursts.**  The CRC of a message changes with every burst.  So a valid record with a
burst in the bytes in front of its CRC is rejected, and a frame with one in OP, SEQ or DATA
is reported as bad where all of it arrives, and with no timing of the bytes accepted. -/
theorem burst_detected :
    (∀ m m', Burst m m' → crc32 m ≠ crc32 m') ∧
    (∀ cfg cfg' : BootConfig, bootConfigValidate cfg = true → Burst cfg.body cfg'.body →
      cfg'.crc32 = cfg.crc32 → bootConfigValidate cfg' = false) ∧
    ∀ (f : OtaFrame) (junk body rest : List UInt8), otaFrameSoh ∉ junk →
      Burst (frameBody f.op f.seq f.data) body →
      (body.drop 3).take 2 = bytes16 f.data.length.toUInt16 →
        readFrame (corrupted f junk body rest) = (.crcBad, rest) ∧
        ∀ polls, received polls = corrupted f junk body rest →
          ∀ g, (readFramePolls polls).1 ≠ .ok g := by
  refine ⟨?_, ?_, ?_⟩
  · intro m m' hburst
    exact hburst.crc32_ne
  · intro cfg cfg' hvalid hburst hcrc
    exact bootConfigValidate_burst hvalid hburst hcrc
  · intro f junk body rest hjunk hburst hfield
    have hread := readFrame_burst f hjunk hburst hfield rest
    constructor
    · exact hread
    · -- with pauses between its bytes the stream is read as without them, or not at all
      intro polls hpolls g hok
      have hbytes := readFrame_received hok
      rw [hpolls, hread] at hbytes
      cases hbytes

/-- A byte of a message, the attempts of the default record and the opcode of a frame, each
changed. -/
theorem burst_detected_byte :
    crc32 [0x31, 0x32, 0x33] ≠ crc32 [0x31, 0xFF, 0x33] ∧
    bootConfigValidate { bootConfigDefault with bootAttempts := 1 } = false ∧
    (readFrame (corrupted sampleFrame [0x55]
      (frameBody otaOpEnd sampleFrame.seq sampleFrame.data) [])).1 = .crcBad := by
  obtain ⟨hcrc, hvalid, hframe⟩ := burst_detected
  have hmessage : Burst ([0x31] ++ [0x32] ++ [0x33]) ([0x31] ++ [0xFF] ++ [0x33]) :=
    burst_of_bytes rfl (by decide) (by decide)
  have hrecord : Burst bootConfigDefault.body { bootConfigDefault with bootAttempts := 1 }.body :=
    @burst_of_bytes (bootConfigDefault.body.take 9) [0] [1] (bootConfigDefault.body.drop 10) rfl
      (by decide) (by decide)
  have hbody : Burst (frameBody sampleFrame.op sampleFrame.seq sampleFrame.data)
      (frameBody otaOpEnd sampleFrame.seq sampleFrame.data) :=
    @burst_of_bytes [] [otaOpData] [otaOpEnd] _ rfl (by decide) (by decide)
  refine ⟨hcrc _ _ hmessage, hvalid _ _ bootConfigValidate_default hrecord rfl, ?_⟩
  exact congrArg Prod.fst (hframe sampleFrame [0x55] _ [] (by decide) hbody rfl).1

end DualBank
