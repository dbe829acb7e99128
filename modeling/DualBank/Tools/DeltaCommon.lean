import DualBank.Crypto.Digest
import DualBank.Ota.Delta

/-!
# The digest of the base image

Host and device name the image that a delta patch applies to by a digest: the host computes
it from an image file (`tools/delta_common.py`), and `delta_verify_active_base_sha256`
compares it with the active slot.  The host adds with unbounded integers, the device on 32
bits.
-/

namespace DualBank

open Lib

/-! ## Host -/

/-- The errors of `logical_signed_bytes`, with what their texts tell. -/
inductive LogicalSpanError where
  /-- "smaller than header". -/
  | smallerThanHeader (len : Nat)
  /-- "bad magic". -/
  | badMagic (magic : UInt32)
  /-- "need … B for header+payload, have …". -/
  | truncated (total len : Nat)
deriving DecidableEq

/-- `logical_signed_bytes`, on the content of the file. -/
def logicalSignedBytes (data : List UInt8) : Except LogicalSpanError (List UInt8) :=
  if data.length < firmwareHeaderSize then .error (.smallerThanHeader data.length)
  else
    let magic := u32At data 0
    let imageSize := (u32At data 8).toNat
    if magic ≠ firmwareMagic then .error (.badMagic magic)
    else
      let total := firmwareHeaderSize + imageSize
      if data.length < total then .error (.truncated total data.length)
      else .ok (data.take total)

def logicalSignedSha256 (data : List UInt8) : Except LogicalSpanError (List UInt8) :=
  (logicalSignedBytes data).map Sha2.digest

/-- The number of bytes that the header of a slot announces. -/
def FirmwareHeader.announced (hdr : FirmwareHeader) : Nat :=
  firmwareHeaderSize + hdr.imageSize.toNat

/-- On a file that starts with the announced bytes of a slot the host takes their digest. -/
theorem logicalSignedSha256_read {m : Mem} {base : Nat}
    (hm : (FirmwareHeader.ofMem m base).magic = firmwareMagic) (tail : List UInt8) :
    logicalSignedSha256 (m.read base (FirmwareHeader.ofMem m base).announced ++ tail) =
      .ok (Sha2.digest (m.read base (FirmwareHeader.ofMem m base).announced)) := by
  have hword : ∀ off, off + 3 < firmwareHeaderSize →
      u32At (m.read base (FirmwareHeader.ofMem m base).announced ++ tail) off =
        u32At (FirmwareHeader.ofMem m base).bytes off := fun off hoff ↦ by
    have hget : ∀ i < firmwareHeaderSize,
        (m.read base (FirmwareHeader.ofMem m base).announced ++ tail).getD i 0 =
          (FirmwareHeader.ofMem m base).bytes.getD i 0 := fun i hi ↦ by
      rw [FirmwareHeader.announced, Mem.read_add, List.append_assoc, List.getD_append _ _ _ _
        (by rw [Mem.length_read]; exact hi), FirmwareHeader.bytes_ofMem]
    unfold u32At
    rw [hget _ (by omega), hget _ (by omega), hget _ (by omega), hget _ (by omega)]
  have hlen : (m.read base (FirmwareHeader.ofMem m base).announced ++ tail).length =
      (FirmwareHeader.ofMem m base).announced + tail.length := by
    rw [List.length_append, Mem.length_read]
  have hmagic : u32At (m.read base (FirmwareHeader.ofMem m base).announced ++ tail) 0 =
      firmwareMagic := (hword 0 (by decide)).trans hm
  have hsize : firmwareHeaderSize +
      (u32At (m.read base (FirmwareHeader.ofMem m base).announced ++ tail) 8).toNat =
        (FirmwareHeader.ofMem m base).announced := by
    rw [hword 8 (by decide)]
    rfl
  have hle : firmwareHeaderSize ≤ (FirmwareHeader.ofMem m base).announced := Nat.le_add_right ..
  unfold logicalSignedSha256 logicalSignedBytes
  dsimp only
  rw [if_neg (by omega), if_neg (not_not.2 hmagic), hsize, if_neg (by omega),
    List.take_left' (Mem.length_read ..)]
  rfl

/-! ## Device -/

/-- The device compares with the digest of as many bytes as the sum on 32 bits comes to. -/
theorem deltaVerifyActiveBaseSha256_iff {m : Mem} {base : Nat} {d : List UInt8}
    (hd : d.length = 32) :
    deltaVerifyActiveBaseSha256 base d m = true ↔
      (FirmwareHeader.ofMem m base).magic = firmwareMagic ∧
        (FirmwareHeader.ofMem m base).logicalTotal ≤ slotSize ∧
        d = Sha2.digest (m.read base (FirmwareHeader.ofMem m base).logicalTotal) := by
  have hlen :
      (Sha2.digest (m.read base (FirmwareHeader.ofMem m base).logicalTotal)).length = 32 := by
    rw [← sha256_eq_digest, length_sha256]
  unfold deltaVerifyActiveBaseSha256
  dsimp only
  rw [chunkLoop_eq m (fun _ ↦ rfl) sha256Update_append, ← sha256, sha256_eq_digest]
  split_ifs with hmagic hfit
  · exact ⟨fun h ↦ (by cases h), fun h ↦ absurd h.1 hmagic⟩
  · exact ⟨fun h ↦ (by cases h), fun h ↦ absurd h.2.1 (by omega)⟩
  · rw [cryptoConstantTimeEqual_iff_eq hlen hd]
    exact ⟨fun h ↦ ⟨not_not.1 hmagic, by omega, h.symm⟩, fun h ↦ h.2.2.symm⟩

/-! ## Agreement -/

/-- The digest `d` names the image in a slot: what the two sides are to agree on. -/
structure NamesBase (m : Mem) (base : Nat) (d : List UInt8) : Prop where
  magic : (FirmwareHeader.ofMem m base).magic = firmwareMagic
  fits : (FirmwareHeader.ofMem m base).announced ≤ slotSize
  digest : d = Sha2.digest (m.read base (FirmwareHeader.ofMem m base).announced)

theorem logicalTotal_of_lt {hdr : FirmwareHeader} (h : hdr.announced < 2 ^ 32) :
    hdr.logicalTotal = hdr.announced := Nat.mod_eq_of_lt h

/-- A sum that wraps comes out smaller than the header. -/
theorem logicalTotal_of_ge {hdr : FirmwareHeader} (h : 2 ^ 32 ≤ hdr.announced) :
    hdr.logicalTotal < firmwareHeaderSize := by
  have hs := hdr.imageSize.toNat_lt
  have he : hdr.logicalTotal = hdr.announced % 2 ^ 32 := rfl
  rw [he]
  simp only [FirmwareHeader.announced, firmwareHeaderSize] at h ⊢
  omega

/-- A wrapped sum makes the device accept the digest of a part of the header. -/
theorem accepts_wrapped {m : Mem} {base : Nat}
    (hm : (FirmwareHeader.ofMem m base).magic = firmwareMagic)
    (hw : 2 ^ 32 ≤ (FirmwareHeader.ofMem m base).announced) {d : List UInt8}
    (hd : d = Sha2.digest (m.read base (FirmwareHeader.ofMem m base).logicalTotal)) :
    d.length = 32 ∧ deltaVerifyActiveBaseSha256 base d m = true ∧ ¬NamesBase m base d := by
  have hlen : d.length = 32 := by rw [hd, ← sha256_eq_digest, length_sha256]
  have hlt := logicalTotal_of_ge hw
  refine ⟨hlen, (deltaVerifyActiveBaseSha256_iff hlen).2 ⟨hm, ?_, hd⟩, fun h ↦ ?_⟩
  · exact Nat.le_trans (Nat.le_of_lt hlt) (by decide)
  · have hfits := h.fits
    simp only [slotSize] at hfits
    omega

/-- **Base digest.**  Device and host agree on the digest of a base image, whatever digest
is presented, exactly when the header does not announce a length that wraps. -/
theorem baseDigest_iff (m : Mem) (base : Nat) :
    ((∀ d : List UInt8, d.length = 32 →
        (deltaVerifyActiveBaseSha256 base d m = true ↔ NamesBase m base d)) ∧
      ((FirmwareHeader.ofMem m base).magic = firmwareMagic → ∀ tail : List UInt8,
        logicalSignedSha256 (m.read base (FirmwareHeader.ofMem m base).announced ++ tail) =
          .ok (Sha2.digest (m.read base (FirmwareHeader.ofMem m base).announced)))) ↔
      ((FirmwareHeader.ofMem m base).magic = firmwareMagic →
        (FirmwareHeader.ofMem m base).imageSize.toNat < 2 ^ 32 - firmwareHeaderSize) := by
  constructor
  · rintro ⟨hagree, -⟩ hm
    by_contra hge
    have hw : 2 ^ 32 ≤ (FirmwareHeader.ofMem m base).announced := by
      simp only [FirmwareHeader.announced, firmwareHeaderSize] at hge ⊢
      omega
    obtain ⟨hlen, hv, hn⟩ := accepts_wrapped hm hw rfl
    exact hn ((hagree _ hlen).1 hv)
  · intro hsmall
    refine ⟨fun d hd ↦ ?_, fun hm ↦ logicalSignedSha256_read hm⟩
    rw [deltaVerifyActiveBaseSha256_iff hd]
    have htotal : (FirmwareHeader.ofMem m base).magic = firmwareMagic →
        (FirmwareHeader.ofMem m base).logicalTotal = (FirmwareHeader.ofMem m base).announced :=
      fun hm ↦ logicalTotal_of_lt (by
        have := hsmall hm
        simp only [FirmwareHeader.announced, firmwareHeaderSize] at this ⊢
        omega)
    constructor
    · rintro ⟨hm, hfit, hdig⟩
      rw [htotal hm] at hfit hdig
      exact ⟨hm, hfit, hdig⟩
    · intro h
      rw [htotal h.magic]
      exact ⟨h.magic, h.fits, h.digest⟩

/-- An erased flash with the firmware magic at slot A: the announced size is `2 ^ 32 - 1`. -/
def oversizedBase : Mem := fun x ↦
  if x = slotAAddr then 0xEF else if x = slotAAddr + 1 then 0xBE
  else if x = slotAAddr + 2 then 0xAD else if x = slotAAddr + 3 then 0xDE else 0xFF

/-- On it the device accepts the digest of 511 bytes, which is no slot's announced image. -/
theorem oversizedBase_accepted :
    (Sha2.digest (oversizedBase.read slotAAddr 511)).length = 32 ∧
      deltaVerifyActiveBaseSha256 slotAAddr (Sha2.digest (oversizedBase.read slotAAddr 511))
        oversizedBase = true ∧
      ¬NamesBase oversizedBase slotAAddr (Sha2.digest (oversizedBase.read slotAAddr 511)) := by
  have htotal : (FirmwareHeader.ofMem oversizedBase slotAAddr).logicalTotal = 511 := by decide
  exact accepts_wrapped (by decide) (by decide) (by rw [htotal])

end DualBank
