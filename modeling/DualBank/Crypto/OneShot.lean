import DualBank.Crypto.Digest
import DualBank.Crypto.LowS

/-!
# Verification in one piece

What `crypto_verify_firmware` is to decide, said of the content of a slot as a whole: no
chunks, no running states, and the signature as two numbers.  The streaming verifier decides
exactly this, and it looks at the announced image only.
-/

namespace DualBank

open Lib

/-! ## The embedded key -/

/-- The embedded key is a point of the curve, and its digest is the embedded one. -/
structure KeyStore.Valid (K : KeyStore) : Prop where
  point : K.uECCValidPublicKey K.publicKeyXy = 1
  pinned : ∀ i < 32, (Sha2.digest K.publicKeyXy).getD i 0 = K.publicKeySha256.getD i 0

theorem cryptoValidatePublicKey_iff {K : KeyStore} :
    cryptoValidatePublicKey K = true ↔ K.Valid := by
  unfold cryptoValidatePublicKey
  rw [sha256_eq_digest]
  split_ifs with h
  · exact ⟨fun hf ↦ (by cases hf), fun hv ↦ absurd hv.point h⟩
  · rw [cryptoConstantTimeEqual_iff]
    exact ⟨fun hp ↦ ⟨not_not.1 h, hp⟩, KeyStore.Valid.pinned⟩

/-! ## The signed region -/

/-- What the signature of an image of `size` payload bytes is over: the bytes of the slot,
with zeros for the signature itself. -/
def signedRegion (m : Mem) (slotAddr size : Nat) : List UInt8 :=
  (List.range (firmwareHeaderSize + size)).map fun i ↦
    if 20 ≤ i ∧ i < 20 + firmwareSignatureSize then 0 else m (slotAddr + i)

theorem signedRegion_eq (m : Mem) (slotAddr size : Nat) :
    signedRegion m slotAddr size =
      (FirmwareHeader.ofMem m slotAddr).unsignedBytes ++
        m.read (slotAddr + firmwareHeaderSize) size := by
  have hbytes : m.read slotAddr firmwareHeaderSize =
      m.read slotAddr 20 ++ m.read (slotAddr + 20) 64 ++ m.read (slotAddr + 84) 428 := by
    rw [show firmwareHeaderSize = 20 + 64 + 428 from rfl, Mem.read_add, Mem.read_add]
  have hparts : (FirmwareHeader.ofMem m slotAddr).unsignedBytes =
      m.read slotAddr 20 ++ List.replicate 64 0 ++ m.read (slotAddr + 84) 428 := by
    have hsig : (m.read slotAddr 20 ++ m.read (slotAddr + 20) 64).length =
        20 + firmwareSignatureSize := by
      rw [List.length_append, Mem.length_read, Mem.length_read, firmwareSignatureSize]
    unfold FirmwareHeader.unsignedBytes
    rw [FirmwareHeader.bytes_ofMem, hbytes, List.drop_left' hsig,
      List.append_assoc (m.read slotAddr 20), List.take_left' (Mem.length_read m slotAddr 20),
      List.take_of_length_le (by rw [Mem.length_read]; decide)]
    rw [firmwareSignatureSize]
  rw [hparts]
  refine List.ext_getElem ?_ fun i h₁ h₂ ↦ ?_
  · simp only [signedRegion, List.length_map, List.length_range, List.length_append,
      Mem.length_read, List.length_replicate, firmwareHeaderSize]
  · have hi : i < firmwareHeaderSize + size := by simpa [signedRegion] using h₁
    simp only [signedRegion, List.getElem_map, List.getElem_range, List.getElem_append,
      Mem.getElem_read, List.getElem_replicate, List.length_append, Mem.length_read,
      List.length_replicate, firmwareSignatureSize, firmwareHeaderSize] at hi ⊢
    split_ifs <;> first | omega | exact congrArg m (by omega) | rfl

/-! ## The verifier -/

/-- What makes a slot acceptable under a key. -/
structure OneShotAccepts (K : KeyStore) (m : Mem) (slotAddr : Nat) : Prop where
  key : K.Valid
  magic : (FirmwareHeader.ofMem m slotAddr).magic = firmwareMagic
  size_pos : 0 < (FirmwareHeader.ofMem m slotAddr).imageSize.toNat
  size_le : (FirmwareHeader.ofMem m slotAddr).imageSize.toNat ≤ firmwareMaxPayloadSize
  crc : crc32 (m.read (slotAddr + firmwareHeaderSize)
      (FirmwareHeader.ofMem m slotAddr).imageSize.toNat) = (FirmwareHeader.ofMem m slotAddr).crc32
  r_ne : beNat (m.read (slotAddr + 20) 32) ≠ 0
  s_pos : 0 < beNat (m.read (slotAddr + 52) 32)
  s_le : beNat (m.read (slotAddr + 52) 32) ≤ curveOrder / 2
  signature : K.uECCVerify K.publicKeyXy
      (Sha2.digest (signedRegion m slotAddr (FirmwareHeader.ofMem m slotAddr).imageSize.toNat))
      (m.read (slotAddr + 20) firmwareSignatureSize) = 1

/-- The signature field of a slot, and its two numbers. -/
theorem signature_ofMem (m : Mem) (slotAddr : Nat) :
    (FirmwareHeader.ofMem m slotAddr).signature =
      m.read (slotAddr + 20) 32 ++ m.read (slotAddr + 52) 32 := by
  have hsplit : m.read slotAddr firmwareHeaderSize = m.read slotAddr 20 ++
      (m.read (slotAddr + 20) 32 ++ m.read (slotAddr + 52) 32 ++ m.read (slotAddr + 84) 428) := by
    rw [show firmwareHeaderSize = 20 + (32 + 32 + 428) from rfl, Mem.read_add, Mem.read_add,
      Mem.read_add]
  unfold FirmwareHeader.signature
  rw [FirmwareHeader.bytes_ofMem, hsplit, List.drop_left' (Mem.length_read m slotAddr 20)]
  refine List.take_left' ?_
  rw [List.length_append, Mem.length_read, Mem.length_read]
  rfl

theorem isCanonicalLowS_ofMem {m : Mem} {slotAddr : Nat} :
    isCanonicalLowS (FirmwareHeader.ofMem m slotAddr).signature = true ↔
      beNat (m.read (slotAddr + 20) 32) ≠ 0 ∧ beNat (m.read (slotAddr + 52) 32) ≠ 0 ∧
        beNat (m.read (slotAddr + 52) 32) ≤ curveOrder / 2 := by
  have hr := Mem.length_read m (slotAddr + 20) 32
  have hs := Mem.length_read m (slotAddr + 52) 32
  rw [signature_ofMem, isCanonicalLowS_halves (by rw [List.length_append, hr, hs]; rfl),
    List.take_left' hr, List.drop_left' hr, List.take_of_length_le (Nat.le_of_eq hs)]

/-- Any other memory with the same image has the same verdict. -/
theorem cryptoVerifyFirmware_image (K : KeyStore) {m m' : Mem} {slotAddr : Nat}
    (h : Set.EqOn m m' (Set.Ico slotAddr (slotAddr + (firmwareHeaderSize +
      (FirmwareHeader.ofMem m slotAddr).imageSize.toNat)))) :
    cryptoVerifyFirmware K m' slotAddr = cryptoVerifyFirmware K m slotAddr := by
  have hh : FirmwareHeader.ofMem m slotAddr = .ofMem m' slotAddr :=
    FirmwareHeader.ofMem_congr fun x hx ↦ h ⟨hx.1, by have := hx.2; omega⟩
  rw [cryptoVerifyFirmware_eq, cryptoVerifyFirmware_eq, ← hh,
    Mem.read_congr fun x hx ↦ h ⟨by have := hx.1; omega, by have := hx.2; omega⟩]

/-- **One-shot verification.**  The streaming verifier accepts exactly the slots that the
specification accepts, and the bytes after the announced image have no say. -/
theorem verify_iff_oneShot (K : KeyStore) (m : Mem) (slotAddr : Nat) :
    (cryptoVerifyFirmware K m slotAddr = true ↔ OneShotAccepts K m slotAddr) ∧
      ∀ m' : Mem, Set.EqOn m m' (Set.Ico slotAddr (slotAddr + (firmwareHeaderSize +
          (FirmwareHeader.ofMem m slotAddr).imageSize.toNat))) →
        cryptoVerifyFirmware K m' slotAddr = cryptoVerifyFirmware K m slotAddr := by
  refine ⟨?_, fun m' h ↦ cryptoVerifyFirmware_image K h⟩
  have hsig : (FirmwareHeader.ofMem m slotAddr).signature =
      m.read (slotAddr + 20) firmwareSignatureSize :=
    (signature_ofMem m slotAddr).trans (Mem.read_add m (slotAddr + 20) 32 32).symm
  rw [cryptoVerifyFirmware_eq]
  unfold acceptsImage
  rw [← signedRegion_eq, sha256_eq_digest]
  simp only [Bool.and_eq_true, beq_iff_eq, cryptoValidatePublicKey_iff,
    FirmwareHeader.admissible_iff, isCanonicalLowS_ofMem]
  rw [hsig]
  constructor
  · rintro ⟨⟨⟨⟨hk, hm, hp, hle⟩, hc⟩, hr, hs, hs'⟩, hv⟩
    exact ⟨hk, hm, hp, hle, hc, hr, Nat.pos_of_ne_zero hs, hs', hv⟩
  · intro h
    exact ⟨⟨⟨⟨h.key, h.magic, h.size_pos, h.size_le⟩, h.crc⟩, h.r_ne,
      Nat.ne_of_gt h.s_pos, h.s_le⟩, h.signature⟩

end DualBank
