import DualBank.Crypto.Digest
import DualBank.Crypto.LowS

/-!
# Signing

The way of a payload through `tools/create_image.py` and `tools/sign_firmware.py`, both
over `tools/firmware_image.py`, and of a key through `tools/embed_pubkey.py`.  Where a
script raises or exits, the model returns `none`.  `hashlib.sha256` is the digest of the
standard and `zlib.crc32` the CRC of the bootloader; the ECDSA package and the library of
the bootloader are parameters.
-/

namespace DualBank

open Lib

/-! ## The image file -/

def reservedSize : Nat := firmwareHeaderSize - 4 - 4 - 4 - 4 - 4 - firmwareSignatureSize

/-- `struct.pack` of a format of `I` only. -/
def structPack : List Nat → Option (List UInt8)
  | [] => some []
  | n :: ns => if n < 2 ^ 32 then (structPack ns).map (bytes32 n.toUInt32 ++ ·) else none

/-- `b"\x00" * SIGNATURE_SIZE`. -/
def zeroSignature : List UInt8 := List.replicate firmwareSignatureSize 0

theorem length_zeroSignature : zeroSignature.length = firmwareSignatureSize := List.length_replicate

structure FirmwareImage where
  version : Nat
  timestamp : Nat
  payload : List UInt8
  signature : List UInt8 := zeroSignature

namespace FirmwareImage

variable (img : FirmwareImage)

def imageSize : Nat := img.payload.length

def payloadCrc32 : Nat := (crc32 img.payload).toNat

def headerBytes (signature : Option (List UInt8)) : Option (List UInt8) :=
  let sig := signature.getD img.signature
  if sig.length ≠ firmwareSignatureSize then none
  else
    (structPack [firmwareMagic.toNat, img.version, img.imageSize, img.timestamp,
      img.payloadCrc32]).map fun body ↦ body ++ sig ++ List.replicate reservedSize 0

def signingBytes : Option (List UInt8) :=
  (img.headerBytes (some zeroSignature)).map (· ++ img.payload)

def signedImage : Option (List UInt8) := (img.headerBytes none).map (· ++ img.payload)

end FirmwareImage

/-- `create_image.py` on a payload. -/
def createImage (version timestamp : Nat) (payload : List UInt8) : Option (List UInt8) :=
  if payload = [] then none
  else FirmwareImage.signedImage { version := version, timestamp := timestamp, payload := payload }

def parseUnsigned (blob : List UInt8) : Option FirmwareImage :=
  if blob.length ≤ firmwareHeaderSize then none
  else
    let magic := u32At blob 0
    let version := u32At blob 4
    let imageSize := (u32At blob 8).toNat
    let timestamp := u32At blob 12
    let crc := u32At blob 16
    if magic ≠ firmwareMagic then none
    else
      let payload := (blob.drop firmwareHeaderSize).take imageSize
      if payload.length ≠ imageSize then none
      else
        let img : FirmwareImage :=
          { version := version.toNat, timestamp := timestamp.toNat, payload := payload }
        if img.payloadCrc32 ≠ crc.toNat then none else some img

/-! ## Keys and signatures -/

/-- A `SigningKey` of the ECDSA package. -/
structure SigningKey where
  /-- The verifying key as a string. -/
  verifyingKey : List UInt8
  /-- The numbers `r` and `s` that `sign_digest` hands to its encoder. -/
  signDigest : List UInt8 → Nat × Nat

/-- `n.to_bytes(len, "big")`. -/
def toBytesBig (n len : Nat) : Option (List UInt8) :=
  if n < 256 ^ len then some (beBytes len n) else none

def sigencodeCanonical (r s order : Nat) : Option (List UInt8) :=
  let s := if s > order / 2 then order - s else s
  match toBytesBig r 32, toBytesBig s 32 with
  | some r, some s => some (r ++ s)
  | _, _ => none

def sign (sk : SigningKey) (signingBytes : List UInt8) : Option (List UInt8) :=
  let digest := Sha2.digest signingBytes
  let rs := sk.signDigest digest
  sigencodeCanonical rs.1 rs.2 curveOrder

/-- `sign_firmware.py` on an unsigned image. -/
def signFirmware (sk : SigningKey) (blob : List UInt8) : Option (List UInt8) :=
  (parseUnsigned blob).bind fun img ↦
    (img.signingBytes.bind (sign sk)).bind fun sig ↦
      if sig.length ≠ firmwareSignatureSize then none
      else FirmwareImage.signedImage { img with signature := sig }

/-- The key material that `embed_pubkey.py` compiles into the bootloader, over the library
that goes with it. -/
def embedPubkey (raw : List UInt8) (uECCValidPublicKey : List UInt8 → Int)
    (uECCVerify : List UInt8 → List UInt8 → List UInt8 → Int) : Option KeyStore :=
  if raw.length ≠ 64 then none else some ⟨raw, Sha2.digest raw, uECCValidPublicKey, uECCVerify⟩

/-- A signature as `uECC_verify` takes it. -/
def rawSignature (r s : Nat) : List UInt8 := beBytes 32 r ++ beBytes 32 s

theorem length_rawSignature (r s : Nat) : (rawSignature r s).length = firmwareSignatureSize := by
  rw [rawSignature, List.length_append, length_beBytes, length_beBytes]
  rfl

theorem take_rawSignature (r s : Nat) : (rawSignature r s).take 32 = beBytes 32 r :=
  List.take_left' (length_beBytes 32 r)

theorem drop_rawSignature (r s : Nat) : (rawSignature r s).drop 32 = beBytes 32 s :=
  List.drop_left' (length_beBytes 32 r)

/-- What the two ECDSA libraries promise each other about a key and the signature of a digest. -/
structure SigningKey.Agrees (sk : SigningKey) (uECCValidPublicKey : List UInt8 → Int)
    (uECCVerify : List UInt8 → List UInt8 → List UInt8 → Int) (digest : List UInt8) : Prop where
  length : sk.verifyingKey.length = 64
  valid : uECCValidPublicKey sk.verifyingKey = 1
  range : (0 < (sk.signDigest digest).1 ∧ (sk.signDigest digest).1 < curveOrder) ∧
    0 < (sk.signDigest digest).2 ∧ (sk.signDigest digest).2 < curveOrder
  verifies : uECCVerify sk.verifyingKey digest
    (rawSignature (sk.signDigest digest).1 (sk.signDigest digest).2) = 1
  negates : uECCVerify sk.verifyingKey digest
    (rawSignature (sk.signDigest digest).1 (curveOrder - (sk.signDigest digest).2)) = 1

/-! ## Headers -/

/-- The header of an image, given its fields. -/
def imageHeader (version timestamp : UInt32) (payload sig : List UInt8) : List UInt8 :=
  bytes32 firmwareMagic ++ bytes32 version ++ bytes32 payload.length.toUInt32 ++
    bytes32 timestamp ++ bytes32 (crc32 payload) ++ sig ++ List.replicate reservedSize 0

section Header

variable {version timestamp : UInt32} {payload sig : List UInt8}

theorem length_imageHeader (h : sig.length = firmwareSignatureSize) :
    (imageHeader version timestamp payload sig).length = firmwareHeaderSize := by
  simp only [imageHeader, List.length_append, length_bytes32, h, List.length_replicate]
  rfl

theorem structPack_of_lt {ns : List Nat} (h : ∀ n ∈ ns, n < 2 ^ 32) :
    structPack ns = some (ns.flatMap fun n ↦ bytes32 n.toUInt32) := by
  induction ns with
  | nil => rfl
  | cons n ns ih =>
      rw [structPack, if_pos (h n (List.mem_cons_self ..)),
        ih fun m hm ↦ h m (List.mem_cons_of_mem _ hm)]
      rfl

/-- Packing the fields of an image gives its header. -/
theorem headerBytes_eq (version timestamp : UInt32) (stored sig : List UInt8)
    (hlen : payload.length < 2 ^ 32) (signature : Option (List UInt8))
    (hsig : signature.getD stored = sig) (hs : sig.length = firmwareSignatureSize) :
    FirmwareImage.headerBytes ⟨version.toNat, timestamp.toNat, payload, stored⟩ signature =
      some (imageHeader version timestamp payload sig) := by
  unfold FirmwareImage.headerBytes FirmwareImage.imageSize FirmwareImage.payloadCrc32
  dsimp only
  rw [hsig, if_neg (not_not.mpr hs), structPack_of_lt]
  · have hback : ∀ w : UInt32, w.toNat.toUInt32 = w := fun w ↦ UInt32.ofNat_toNat
    simp only [List.flatMap_cons, List.flatMap_nil, hback, Option.map_some, imageHeader,
      List.append_assoc, List.nil_append]
  · intro n hn
    simp only [List.mem_cons, List.not_mem_nil, or_false] at hn
    rcases hn with rfl | rfl | rfl | rfl | rfl
    · exact firmwareMagic.toNat_lt
    · exact version.toNat_lt
    · exact hlen
    · exact timestamp.toNat_lt
    · exact (crc32 payload).toNat_lt

/-- The header as the bootloader reads it. -/
def signedHeader (version timestamp : UInt32) (payload sig : List UInt8)
    (h : sig.length = firmwareSignatureSize) : FirmwareHeader :=
  ⟨imageHeader version timestamp payload sig, length_imageHeader h⟩

theorem magic_signedHeader (h : sig.length = firmwareSignatureSize) :
    (signedHeader version timestamp payload sig h).magic = firmwareMagic :=
  le32_bytes firmwareMagic

theorem imageSize_signedHeader (h : sig.length = firmwareSignatureSize) :
    (signedHeader version timestamp payload sig h).imageSize = payload.length.toUInt32 :=
  le32_bytes _

theorem crc32_signedHeader (h : sig.length = firmwareSignatureSize) :
    (signedHeader version timestamp payload sig h).crc32 = crc32 payload :=
  le32_bytes _

theorem signature_signedHeader (h : sig.length = firmwareSignatureSize) :
    (signedHeader version timestamp payload sig h).signature = sig := by
  have hdrop : (imageHeader version timestamp payload sig).drop 20 =
      sig ++ List.replicate reservedSize 0 := by
    unfold imageHeader
    rw [List.append_assoc]
    exact List.drop_left' rfl
  unfold FirmwareHeader.signature signedHeader
  dsimp only
  rw [hdrop, ← h, List.take_left]

/-- Zeroing the signature field gives the header with the zero signature. -/
theorem unsignedBytes_signedHeader (h : sig.length = firmwareSignatureSize) :
    (signedHeader version timestamp payload sig h).unsignedBytes =
      imageHeader version timestamp payload zeroSignature := by
  have htake : (imageHeader version timestamp payload sig).take 20 =
      bytes32 firmwareMagic ++ bytes32 version ++ bytes32 payload.length.toUInt32 ++
        bytes32 timestamp ++ bytes32 (crc32 payload) := by
    unfold imageHeader
    rw [List.append_assoc]
    exact List.take_left' rfl
  have hdrop : (imageHeader version timestamp payload sig).drop (20 + firmwareSignatureSize) =
      List.replicate reservedSize 0 := by
    unfold imageHeader
    exact List.drop_left' (by simp only [List.length_append, length_bytes32, h])
  have hzero : (List.replicate reservedSize (0 : UInt8)).take
      (firmwareHeaderSize - 20 - firmwareSignatureSize) = List.replicate reservedSize 0 :=
    List.take_of_length_le (by rw [List.length_replicate]; decide)
  unfold FirmwareHeader.unsignedBytes signedHeader
  dsimp only
  rw [htake, hdrop, hzero, imageHeader, zeroSignature]

/-- Taking an image file apart again. -/
theorem parseUnsigned_eq (h : sig.length = firmwareSignatureSize) (hpos : 0 < payload.length)
    (hlen : payload.length < 2 ^ 32) :
    parseUnsigned (imageHeader version timestamp payload sig ++ payload) =
      some { version := version.toNat, timestamp := timestamp.toNat, payload := payload } := by
  have hhead : (imageHeader version timestamp payload sig).length = firmwareHeaderSize :=
    length_imageHeader h
  have hfields : imageHeader version timestamp payload sig ++ payload =
      bytes32 firmwareMagic ++ (bytes32 version ++ (bytes32 payload.length.toUInt32 ++
        (bytes32 timestamp ++ (bytes32 (crc32 payload) ++
          (sig ++ List.replicate reservedSize 0 ++ payload))))) := by
    simp only [imageHeader, List.append_assoc]
  have hmagic : u32At (imageHeader version timestamp payload sig ++ payload) 0 = firmwareMagic := by
    rw [hfields, u32At_bytes32]
  have hversion : u32At (imageHeader version timestamp payload sig ++ payload) 4 = version := by
    rw [hfields, u32At_bytes32_append, u32At_bytes32]
  have hsize : u32At (imageHeader version timestamp payload sig ++ payload) 8 =
      payload.length.toUInt32 := by
    rw [hfields, u32At_bytes32_append, u32At_bytes32_append, u32At_bytes32]
  have htime : u32At (imageHeader version timestamp payload sig ++ payload) 12 = timestamp := by
    rw [hfields, u32At_bytes32_append, u32At_bytes32_append, u32At_bytes32_append, u32At_bytes32]
  have hcrc : u32At (imageHeader version timestamp payload sig ++ payload) 16 =
      crc32 payload := by
    rw [hfields, u32At_bytes32_append, u32At_bytes32_append, u32At_bytes32_append,
      u32At_bytes32_append, u32At_bytes32]
  have hnat : payload.length.toUInt32.toNat = payload.length := Nat.mod_eq_of_lt hlen
  have hdata : ((imageHeader version timestamp payload sig ++ payload).drop firmwareHeaderSize).take
      payload.length = payload := by
    rw [List.drop_left' hhead, List.take_of_length_le (Nat.le_refl _)]
  have hlong : ¬(imageHeader version timestamp payload sig ++ payload).length ≤
      firmwareHeaderSize := by
    rw [List.length_append, hhead]
    omega
  unfold parseUnsigned
  dsimp only
  rw [hmagic, hversion, hsize, htime, hcrc, hnat, hdata, if_neg hlong, if_neg (not_not.mpr rfl),
    if_neg (not_not.mpr rfl)]
  exact if_neg (not_not.mpr rfl)

/-! ## Low signatures -/

/-- The check, on the two numbers of a signature. -/
theorem isCanonicalLowS_iff {sig : List UInt8} (h : sig.length = firmwareSignatureSize) :
    isCanonicalLowS sig = true ↔ beNat (sig.take 32) ≠ 0 ∧ 0 < beNat (sig.drop 32) ∧
      beNat (sig.drop 32) ≤ (curveOrder - 1) / 2 := by
  have hdrop : (sig.drop 32).take 32 = sig.drop 32 := by
    refine List.take_of_length_le (Nat.le_of_eq ?_)
    rw [List.length_drop, h]
    rfl
  have hhalf : (curveOrder - 1) / 2 = curveOrder / 2 := by decide
  rw [isCanonicalLowS_halves h, hdrop, hhalf, Nat.pos_iff_ne_zero]

theorem isCanonicalLowS_rawSignature {r s : Nat} (hr : r ≠ 0) (hr' : r < 256 ^ 32) (hs : 0 < s)
    (hs' : s < 256 ^ 32) :
    isCanonicalLowS (rawSignature r s) = true ↔ s ≤ (curveOrder - 1) / 2 := by
  rw [isCanonicalLowS_iff (length_rawSignature r s), take_rawSignature, drop_rawSignature,
    beNat_beBytes_of_lt hr', beNat_beBytes_of_lt hs']
  exact ⟨fun h ↦ h.2.2, fun h ↦ ⟨hr, hs, h⟩⟩

/-- The canonical signature is in range, and verifies where the original one does. -/
theorem sigencodeCanonical_spec {sk : SigningKey} {valid : List UInt8 → Int}
    {verify : List UInt8 → List UInt8 → List UInt8 → Int} {digest : List UInt8}
    (hk : sk.Agrees valid verify digest) :
    ∃ sig, sigencodeCanonical (sk.signDigest digest).1 (sk.signDigest digest).2 curveOrder =
        some sig ∧
      sig.length = firmwareSignatureSize ∧ isCanonicalLowS sig = true ∧
      verify sk.verifyingKey digest sig = 1 := by
  obtain ⟨hr, hs⟩ := hk.range
  have hver := hk.verifies
  have hneg := hk.negates
  generalize (sk.signDigest digest).1 = r at *
  generalize (sk.signDigest digest).2 = s at *
  -- the `s` that is encoded
  obtain ⟨s', hs', hpos, hle, hver'⟩ :
      ∃ s', (if s > curveOrder / 2 then curveOrder - s else s) = s' ∧ 0 < s' ∧ s' ≤ curveOrder / 2 ∧
        verify sk.verifyingKey digest (rawSignature r s') = 1 := by
    have hodd := curveOrder_odd
    split_ifs with hgt
    · exact ⟨_, rfl, by omega, by omega, hneg⟩
    · exact ⟨_, rfl, hs.1, by omega, hver⟩
  have horder := curveOrder_lt
  have hhalf : curveOrder / 2 < 256 ^ 32 := by decide
  have hr32 : r < 256 ^ 32 := Nat.lt_trans hr.2 horder
  have hs32 : s' < 256 ^ 32 := Nat.lt_of_le_of_lt hle hhalf
  refine ⟨rawSignature r s', ?_, length_rawSignature r s',
    (isCanonicalLowS_rawSignature (Nat.ne_of_gt hr.1) hr32 hpos hs32).2 ?_, hver'⟩
  · unfold sigencodeCanonical toBytesBig
    dsimp only
    rw [hs', if_pos hr32, if_pos hs32]
    rfl
  · have hodd := curveOrder_odd
    omega

end Header

/-! ## From the payload to the verdict -/

/-- The image the signer makes, as one that the verifier accepts. -/
def signedImageOf (K : KeyStore) (version timestamp : UInt32) {payload sig : List UInt8}
    (hkey : cryptoValidatePublicKey K = true) (hpos : 0 < payload.length)
    (hmax : payload.length ≤ firmwareMaxPayloadSize) (hlen : sig.length = firmwareSignatureSize)
    (hlow : isCanonicalLowS sig = true)
    (hver : K.uECCVerify K.publicKeyXy
      (sha256 (imageHeader version timestamp payload zeroSignature ++ payload)) sig = 1) :
    SignedImage K where
  header := signedHeader version timestamp payload sig hlen
  payload := payload
  length_payload := by
    have h32 : firmwareMaxPayloadSize < 2 ^ 32 := by decide
    rw [imageSize_signedHeader]
    exact (Nat.mod_eq_of_lt (by omega)).symm
  accepted := by
    have h32 : firmwareMaxPayloadSize < 2 ^ 32 := by decide
    have hsize : payload.length.toUInt32.toNat = payload.length := Nat.mod_eq_of_lt (by omega)
    have hadm : (signedHeader version timestamp payload sig hlen).admissible = true :=
      FirmwareHeader.admissible_iff.2 ⟨magic_signedHeader hlen, by
        rw [imageSize_signedHeader, hsize]
        exact ⟨hpos, hmax⟩⟩
    unfold acceptsImage
    rw [hkey, hadm, crc32_signedHeader, signature_signedHeader, hlow, unsignedBytes_signedHeader,
      hver, beq_self_eq_true, beq_self_eq_true]
    rfl

section Image

variable {version timestamp : UInt32} {payload sig : List UInt8}

/-- The file that `create_image.py` writes. -/
theorem createImage_eq (hpos : 0 < payload.length) (hlen : payload.length < 2 ^ 32) :
    createImage version.toNat timestamp.toNat payload =
      some (imageHeader version timestamp payload zeroSignature ++ payload) := by
  unfold createImage FirmwareImage.signedImage
  rw [if_neg (List.ne_nil_of_length_pos hpos), headerBytes_eq version timestamp zeroSignature
    zeroSignature hlen none rfl length_zeroSignature]
  rfl

/-- The file that `sign_firmware.py` makes of it. -/
theorem signFirmware_eq {sk : SigningKey} (hpos : 0 < payload.length)
    (hlen : payload.length < 2 ^ 32) (hs : sig.length = firmwareSignatureSize)
    (hsig : sign sk (imageHeader version timestamp payload zeroSignature ++ payload) = some sig) :
    signFirmware sk (imageHeader version timestamp payload zeroSignature ++ payload) =
      some (imageHeader version timestamp payload sig ++ payload) := by
  unfold signFirmware
  rw [parseUnsigned_eq length_zeroSignature hpos hlen, Option.bind_some]
  unfold FirmwareImage.signingBytes
  rw [headerBytes_eq version timestamp zeroSignature zeroSignature hlen (some zeroSignature) rfl
    length_zeroSignature, Option.map_some, Option.bind_some, hsig, Option.bind_some,
    if_neg (not_not.mpr hs)]
  unfold FirmwareImage.signedImage
  rw [headerBytes_eq version timestamp sig sig hlen none rfl hs]
  rfl

end Image

/-- The key that is embedded passes the check of the bootloader. -/
theorem embedPubkey_validates {sk : SigningKey} {valid : List UInt8 → Int}
    {verify : List UInt8 → List UInt8 → List UInt8 → Int} {digest : List UInt8}
    (hk : sk.Agrees valid verify digest) :
    ∃ K, embedPubkey sk.verifyingKey valid verify = some K ∧
      cryptoValidatePublicKey K = true ∧ K.publicKeyXy = sk.verifyingKey ∧
      K.uECCVerify = verify := by
  refine ⟨⟨sk.verifyingKey, Sha2.digest sk.verifyingKey, valid, verify⟩,
    if_neg (not_not.mpr hk.length), ?_, rfl, rfl⟩
  unfold cryptoValidatePublicKey
  rw [if_neg (not_not.mpr hk.valid), sha256_eq_digest]
  exact cryptoConstantTimeEqual_iff.2 fun _ _ ↦ rfl

/-- **Signer and verifier.**  What the scripts make of a payload is accepted by the verifier
with the key they embed, wherever it is placed. -/
theorem signed_image_verifies {sk : SigningKey} {valid : List UInt8 → Int}
    {verify : List UInt8 → List UInt8 → List UInt8 → Int} {version timestamp : Nat}
    {payload : List UInt8}
    (hk : ∀ blob, createImage version timestamp payload = some blob →
      sk.Agrees valid verify (Sha2.digest blob))
    (hpos : 0 < payload.length) (hmax : payload.length ≤ firmwareMaxPayloadSize)
    (hv : version < 2 ^ 32) (ht : timestamp < 2 ^ 32) :
    ∃ K blob signed, embedPubkey sk.verifyingKey valid verify = some K ∧
      createImage version timestamp payload = some blob ∧ signFirmware sk blob = some signed ∧
      ∀ (m : Mem) (slotAddr : Nat), m.read slotAddr signed.length = signed →
        cryptoVerifyFirmware K m slotAddr = true := by
  have h32 : firmwareMaxPayloadSize < 2 ^ 32 := by decide
  have hlen : payload.length < 2 ^ 32 := by omega
  obtain ⟨v, rfl⟩ : ∃ v : UInt32, v.toNat = version :=
    ⟨version.toUInt32, Nat.mod_eq_of_lt hv⟩
  obtain ⟨t, rfl⟩ : ∃ t : UInt32, t.toNat = timestamp :=
    ⟨timestamp.toUInt32, Nat.mod_eq_of_lt ht⟩
  have hcreate : createImage v.toNat t.toNat payload =
      some (imageHeader v t payload zeroSignature ++ payload) := createImage_eq hpos hlen
  have hagrees := hk _ hcreate
  obtain ⟨K, hembed, hvalid, hxy, hverify⟩ := embedPubkey_validates hagrees
  obtain ⟨sig, hsig, hsiglen, hlow, hver⟩ := sigencodeCanonical_spec hagrees
  refine ⟨K, _, _, hembed, hcreate, signFirmware_eq hpos hlen hsiglen hsig, fun m slotAddr hm ↦ ?_⟩
  have hver' : K.uECCVerify K.publicKeyXy (sha256 (imageHeader v t payload zeroSignature ++
      payload)) sig = 1 := by rw [hverify, hxy, sha256_eq_digest]; exact hver
  exact @SignedImage.verifies K (signedImageOf K v t hvalid hpos hmax hsiglen hlow hver') m slotAddr
    hm

end DualBank
