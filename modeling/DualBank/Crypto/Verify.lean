import Mathlib.Data.List.GetD
import Mathlib.Tactic.SplitIfs
import DualBank.Common.Firmware
import DualBank.Crypto.Crc32
import DualBank.Crypto.Sha256
import DualBank.Lib.BigEndian

/-!
# Firmware verification

`bootloader/src/crypto.c`.  The elliptic-curve library and the embedded key are not
part of the repository's own code: they are the fields of a `KeyStore`.

The verifier streams the image in chunks.  `cryptoVerifyFirmware_eq` says what it
computes over the image as a whole, and everything that other modules use of it
follows from that.
-/

namespace DualBank

open Lib

/-! ## Streaming -/

/-- A loop that feeds `remaining` bytes of a memory to `f`, at most `size` at a time. -/
def chunkLoop {α : Type} (f : α → List UInt8 → α) (size : Nat) [NeZero size] (m : Mem)
    (acc : α) (addr remaining : Nat) : α :=
  if 0 < remaining then
    let chunk := if remaining > size then size else remaining
    chunkLoop f size m (f acc (m.read addr chunk)) (addr + chunk) (remaining - chunk)
  else acc
termination_by remaining
decreasing_by
  have := Nat.pos_of_ne_zero (NeZero.ne size)
  split <;> omega

/-- Where feeding two pieces is feeding their concatenation, the loop feeds the
whole range. -/
theorem chunkLoop_eq {α : Type} {f : α → List UInt8 → α} {size : Nat} [NeZero size] (m : Mem)
    (hnil : ∀ acc, f acc [] = acc) (happ : ∀ acc xs ys, f acc (xs ++ ys) = f (f acc xs) ys)
    (acc : α) (addr remaining : Nat) :
    chunkLoop f size m acc addr remaining = f acc (m.read addr remaining) := by
  fun_induction chunkLoop f size m acc addr remaining with
  | case1 acc addr remaining h chunk ih =>
      have hle : chunk ≤ remaining := by dsimp only [chunk]; split <;> omega
      rw [ih, ← happ, ← Mem.read_add, Nat.add_sub_cancel' hle]
  | case2 acc addr remaining h =>
      rw [show remaining = 0 by omega, Mem.read_zero, hnil]

/-! ## The verifier -/

/-- The embedded key (`public_key.h`) and the two library calls of the verifier. -/
structure KeyStore where
  publicKeyXy : List UInt8
  publicKeySha256 : List UInt8
  uECCValidPublicKey : List UInt8 → Int
  /-- `uECC_verify` over the public key, the digest and the signature. -/
  uECCVerify : List UInt8 → List UInt8 → List UInt8 → Int

def verifyChunkBytes : Nat := 1024

instance : NeZero verifyChunkBytes := ⟨by decide⟩

/-- The header with its signature field zeroed. -/
def FirmwareHeader.unsignedBytes (hdr : FirmwareHeader) : List UInt8 :=
  hdr.bytes.take 20 ++ List.replicate firmwareSignatureSize 0 ++
    (hdr.bytes.drop (20 + firmwareSignatureSize)).take
      (firmwareHeaderSize - 20 - firmwareSignatureSize)

def hashSignedRegion (m : Mem) (slotAddr : Nat) (hdr : FirmwareHeader) : List UInt8 :=
  let ctx := sha256Init
  let ctx := sha256Update ctx (hdr.bytes.take 20)
  let ctx := sha256Update ctx (List.replicate firmwareSignatureSize 0)
  let ctx := sha256Update ctx ((hdr.bytes.drop (20 + firmwareSignatureSize)).take
    (firmwareHeaderSize - 20 - firmwareSignatureSize))
  sha256Final
    (chunkLoop sha256Update verifyChunkBytes m ctx (slotAddr + firmwareHeaderSize)
      hdr.imageSize.toNat)

/-- Half the group order, big-endian. -/
def kSecp256r1HalfOrder : List UInt8 := [
  0x7F, 0xFF, 0xFF, 0xFF, 0x80, 0x00, 0x00, 0x00, 0x7F, 0xFF, 0xFF, 0xFF, 0xFF, 0xFF, 0xFF, 0xFF,
  0xDE, 0x73, 0x7D, 0x56, 0xD3, 0x8B, 0xCF, 0x42, 0x79, 0xDC, 0xE5, 0x61, 0x7E, 0x31, 0x92, 0xA8]

/-- The borrow of the subtraction of `s` from half the order, last byte first. -/
def halfOrderBorrow (s : List UInt8) : Int :=
  (kSecp256r1HalfOrder.zip s).foldr
    (fun hs borrow ↦ if (hs.1.toNat : Int) - hs.2.toNat - borrow < 0 then 1 else 0) 0

def isCanonicalLowS (sig : List UInt8) : Bool :=
  let r := sig.take 32
  let s := (sig.drop 32).take 32
  if r.foldl (· ||| ·) 0 = 0 ∨ s.foldl (· ||| ·) 0 = 0 then false
  else halfOrderBorrow s == 0

def cryptoConstantTimeEqual (a b : List UInt8) (len : Nat) : Bool :=
  (List.range len).foldl (fun diff i ↦ diff ||| (a.getD i 0 ^^^ b.getD i 0)) 0 == 0

/-- The comparison looks at every byte. -/
theorem cryptoConstantTimeEqual_iff {a b : List UInt8} {len : Nat} :
    cryptoConstantTimeEqual a b len = true ↔ ∀ i < len, a.getD i 0 = b.getD i 0 := by
  unfold cryptoConstantTimeEqual
  rw [beq_iff_eq, ← List.foldl_map, foldl_or_eq_zero_iff]
  constructor
  · rintro ⟨-, h⟩ i hi
    exact UInt8.xor_eq_zero_iff.1 (h _ (List.mem_map_of_mem (List.mem_range.2 hi)))
  · intro h
    refine ⟨rfl, fun x hx ↦ ?_⟩
    obtain ⟨i, hi, rfl⟩ := List.mem_map.1 hx
    exact UInt8.xor_eq_zero_iff.2 (h i (List.mem_range.1 hi))

/-- On arrays of the compared length it is equality. -/
theorem cryptoConstantTimeEqual_iff_eq {a b : List UInt8} {len : Nat} (ha : a.length = len)
    (hb : b.length = len) : cryptoConstantTimeEqual a b len = true ↔ a = b := by
  rw [cryptoConstantTimeEqual_iff]
  constructor
  · intro h
    refine List.ext_getElem (ha.trans hb.symm) fun i h₁ h₂ ↦ ?_
    have hi := h i (by omega)
    rwa [List.getD_eq_getElem _ _ h₁, List.getD_eq_getElem _ _ h₂] at hi
  · rintro rfl i -
    rfl

def cryptoValidatePublicKey (K : KeyStore) : Bool :=
  if K.uECCValidPublicKey K.publicKeyXy ≠ 1 then false
  else cryptoConstantTimeEqual (sha256 K.publicKeyXy) K.publicKeySha256 32

def cryptoVerifyFirmware (K : KeyStore) (m : Mem) (slotAddr : Nat) : Bool :=
  if !cryptoValidatePublicKey K then false
  else
    let hdr := FirmwareHeader.ofMem m slotAddr
    if hdr.magic ≠ firmwareMagic then false
    else if hdr.imageSize = 0 then false
    else if hdr.imageSize.toNat > firmwareMaxPayloadSize then false
    else
      let crc := chunkLoop crc32Update verifyChunkBytes m crc32Init
        (slotAddr + firmwareHeaderSize) hdr.imageSize.toNat
      if crc32Finalize crc ≠ hdr.crc32 then false
      else
        let hash := hashSignedRegion m slotAddr hdr
        if !isCanonicalLowS hdr.signature then false
        else K.uECCVerify K.publicKeyXy hash hdr.signature == 1

/-! ## What the verifier computes -/

/-- The verdict on a header and the payload its size field announces. -/
def acceptsImage (K : KeyStore) (hdr : FirmwareHeader) (payload : List UInt8) : Bool :=
  cryptoValidatePublicKey K && hdr.admissible && crc32 payload == hdr.crc32 &&
    isCanonicalLowS hdr.signature &&
    K.uECCVerify K.publicKeyXy (sha256 (hdr.unsignedBytes ++ payload)) hdr.signature == 1

theorem hashSignedRegion_eq (m : Mem) (slotAddr : Nat) (hdr : FirmwareHeader) :
    hashSignedRegion m slotAddr hdr =
      sha256 (hdr.unsignedBytes ++ m.read (slotAddr + firmwareHeaderSize) hdr.imageSize.toNat) := by
  rw [hashSignedRegion, chunkLoop_eq m (fun _ ↦ rfl) sha256Update_append, sha256,
    FirmwareHeader.unsignedBytes, sha256Update_append, sha256Update_append, sha256Update_append]

/-- The streamed verification is the verification of the image as a whole. -/
theorem cryptoVerifyFirmware_eq (K : KeyStore) (m : Mem) (slotAddr : Nat) :
    cryptoVerifyFirmware K m slotAddr =
      acceptsImage K (.ofMem m slotAddr)
        (m.read (slotAddr + firmwareHeaderSize)
          (FirmwareHeader.ofMem m slotAddr).imageSize.toNat) := by
  have hz : ∀ h : FirmwareHeader, h.imageSize = 0 ↔ h.imageSize.toNat = 0 := fun h ↦
    ⟨fun e ↦ by rw [e]; rfl, fun e ↦ UInt32.toNat_inj.mp e⟩
  unfold cryptoVerifyFirmware acceptsImage FirmwareHeader.admissible
  simp only [hashSignedRegion_eq, chunkLoop_eq m (fun _ ↦ rfl) crc32Update_append, hz]
  rw [← crc32]
  generalize FirmwareHeader.ofMem m slotAddr = hdr
  split_ifs with h₁ h₂ h₃ h₄ h₅ h₆
  · simp_all
  · simp [h₂]
  · simp [h₃]
  · have : ¬hdr.imageSize.toNat ≤ firmwareMaxPayloadSize := by omega
    simp [this]
  · simp [h₅]
  · simp_all
  · have h₃' : 0 < hdr.imageSize.toNat := by omega
    have h₄' : hdr.imageSize.toNat ≤ firmwareMaxPayloadSize := by omega
    simp_all

/-- A slot that verifies has the header magic and a payload size that fits. -/
theorem admissible_of_verify {K : KeyStore} {m : Mem} {slotAddr : Nat}
    (h : cryptoVerifyFirmware K m slotAddr = true) :
    (FirmwareHeader.ofMem m slotAddr).admissible = true := by
  rw [cryptoVerifyFirmware_eq, acceptsImage] at h
  simp only [Bool.and_eq_true] at h
  exact h.1.1.1.2

/-- The verdict on a slot depends on the bytes of the slot only. -/
theorem cryptoVerifyFirmware_congr (K : KeyStore) {m m' : Mem} {slotAddr : Nat}
    (h : Set.EqOn m m' (Set.Ico slotAddr (slotAddr + slotSize))) :
    cryptoVerifyFirmware K m slotAddr = cryptoVerifyFirmware K m' slotAddr := by
  have hh : FirmwareHeader.ofMem m slotAddr = .ofMem m' slotAddr :=
    FirmwareHeader.ofMem_congr fun x hx ↦ h ⟨hx.1, Nat.lt_of_lt_of_le hx.2 (by
      simp [firmwareHeaderSize, slotSize])⟩
  rw [cryptoVerifyFirmware_eq, cryptoVerifyFirmware_eq, ← hh]
  by_cases hp : (FirmwareHeader.ofMem m slotAddr).admissible = true
  · -- the announced payload lies inside the slot
    have hsize := (FirmwareHeader.admissible_iff.1 hp).2.2
    have hfit := image_fits_slot
    rw [Mem.read_congr fun x hx ↦ h ⟨by have := hx.1; omega, by have := hx.2; omega⟩]
  · simp [acceptsImage, hp]

/-- A slot whose header is erased does not verify. -/
theorem cryptoVerifyFirmware_erased (K : KeyStore) {m : Mem} {slotAddr : Nat}
    (h : ∀ x, slotAddr ≤ x → x < slotAddr + firmwareHeaderSize → m x = 0xFF) :
    cryptoVerifyFirmware K m slotAddr = false := by
  rw [Bool.eq_false_iff]
  intro hv
  have := admissible_of_verify hv
  rw [FirmwareHeader.ofMem_eq_erased h, FirmwareHeader.admissible_erased] at this
  cases this

/-! ## Signed images -/

/-- An image file that the verifier accepts: a header and its payload. -/
structure SignedImage (K : KeyStore) where
  header : FirmwareHeader
  payload : List UInt8
  length_payload : payload.length = header.imageSize.toNat
  accepted : acceptsImage K header payload = true

namespace SignedImage

variable {K : KeyStore} (img : SignedImage K)

def bytes : List UInt8 := img.header.bytes ++ img.payload

theorem length_bytes : img.bytes.length = firmwareHeaderSize + img.header.imageSize.toNat := by
  rw [bytes, List.length_append, img.header.length_bytes, img.length_payload]

theorem admissible : img.header.admissible = true := by
  have h := img.accepted
  simp only [acceptsImage, Bool.and_eq_true] at h
  exact h.1.1.1.2

theorem length_bytes_le : img.bytes.length ≤ slotSize := by
  have h := (FirmwareHeader.admissible_iff.1 img.admissible).2.2
  have hfit := image_fits_slot
  rw [length_bytes]
  omega

variable {img} {m : Mem} {slotAddr : Nat}

theorem read_split (h : m.read slotAddr img.bytes.length = img.bytes) :
    m.read slotAddr firmwareHeaderSize = img.header.bytes ∧
      m.read (slotAddr + firmwareHeaderSize) img.header.imageSize.toNat = img.payload := by
  rw [length_bytes, Mem.read_add, bytes] at h
  exact List.append_inj h (by rw [Mem.length_read, img.header.length_bytes])

theorem ofMem_eq (h : m.read slotAddr img.bytes.length = img.bytes) :
    FirmwareHeader.ofMem m slotAddr = img.header := FirmwareHeader.ext (read_split h).1

/-- A slot that holds a signed image verifies, wherever the slot is. -/
theorem verifies (h : m.read slotAddr img.bytes.length = img.bytes) :
    cryptoVerifyFirmware K m slotAddr = true := by
  rw [cryptoVerifyFirmware_eq, ofMem_eq h, (read_split h).2]
  exact img.accepted

end SignedImage

/-! ## Sample images

A key store whose signature check accepts everything, and under it an image of every
version and payload. -/

def sampleKeys : KeyStore where
  publicKeyXy := []
  publicKeySha256 := sha256 []
  uECCValidPublicKey _ := 1
  uECCVerify _ _ _ := 1

/-- A header with the signature `r = s = 1`. -/
def sampleHeaderOf (version : UInt32) (payload : List UInt8) : FirmwareHeader where
  bytes := bytes32 firmwareMagic ++ bytes32 version ++ bytes32 payload.length.toUInt32 ++
    bytes32 0 ++ bytes32 (crc32 payload) ++
    (List.replicate 31 0 ++ [1] ++ List.replicate 31 0 ++ [1]) ++ List.replicate 428 0
  length_bytes := by
    simp only [List.length_append, length_bytes32, List.length_replicate, List.length_singleton,
      firmwareHeaderSize]

section SampleHeader

variable (version : UInt32) (payload : List UInt8)

@[simp] theorem magic_sampleHeaderOf : (sampleHeaderOf version payload).magic = firmwareMagic :=
  le32_bytes firmwareMagic

@[simp] theorem version_sampleHeaderOf : (sampleHeaderOf version payload).version = version :=
  le32_bytes version

@[simp] theorem imageSize_sampleHeaderOf :
    (sampleHeaderOf version payload).imageSize = payload.length.toUInt32 := le32_bytes _

@[simp] theorem crc32_sampleHeaderOf : (sampleHeaderOf version payload).crc32 = crc32 payload :=
  le32_bytes _

theorem signature_sampleHeaderOf : (sampleHeaderOf version payload).signature =
    List.replicate 31 0 ++ [1] ++ List.replicate 31 0 ++ [1] := rfl

variable {payload} in
theorem toNat_imageSize_sampleHeaderOf (h : payload.length ≤ firmwareMaxPayloadSize) :
    (sampleHeaderOf version payload).imageSize.toNat = payload.length := by
  rw [imageSize_sampleHeaderOf]
  exact Nat.mod_eq_of_lt (Nat.lt_of_le_of_lt h (by decide))

end SampleHeader

/-- A payload that fits a slot, under its header. -/
def sampleImageOf (version : UInt32) (payload : List UInt8)
    (h : 0 < payload.length ∧ payload.length ≤ firmwareMaxPayloadSize) :
    SignedImage sampleKeys where
  header := sampleHeaderOf version payload
  payload := payload
  length_payload := (toNat_imageSize_sampleHeaderOf version h.2).symm
  accepted := by
    have hk : cryptoValidatePublicKey sampleKeys = true := by
      rw [cryptoValidatePublicKey, if_neg (by decide)]
      exact cryptoConstantTimeEqual_iff.2 fun _ _ ↦ rfl
    have hp : (sampleHeaderOf version payload).admissible = true :=
      FirmwareHeader.admissible_iff.2 ⟨magic_sampleHeaderOf .., by
        rw [toNat_imageSize_sampleHeaderOf version h.2]; exact h⟩
    have hs : isCanonicalLowS (sampleHeaderOf version payload).signature = true := by
      rw [signature_sampleHeaderOf]; decide +kernel
    have hu : ∀ pk hash sig, sampleKeys.uECCVerify pk hash sig = 1 := fun _ _ _ ↦ rfl
    simp [acceptsImage, hk, hp, hs, hu]

def samplePayload : List UInt8 := bytes32 0

def sampleHeader (version : UInt32) : FirmwareHeader := sampleHeaderOf version samplePayload

@[simp] theorem magic_sampleHeader (version : UInt32) :
    (sampleHeader version).magic = firmwareMagic := magic_sampleHeaderOf ..

@[simp] theorem version_sampleHeader (version : UInt32) :
    (sampleHeader version).version = version := version_sampleHeaderOf ..

@[simp] theorem imageSize_sampleHeader (version : UInt32) :
    (sampleHeader version).imageSize = 4 := imageSize_sampleHeaderOf ..

/-- An image with a payload of one word. -/
def sampleImage (version : UInt32) : SignedImage sampleKeys :=
  sampleImageOf version samplePayload (by decide)

@[simp] theorem header_sampleImage (version : UInt32) :
    (sampleImage version).header = sampleHeader version := rfl

theorem length_sampleImage (version : UInt32) : (sampleImage version).bytes.length = 516 := by
  rw [SignedImage.length_bytes, header_sampleImage, imageSize_sampleHeader]
  rfl

end DualBank
