import DualBank.Boot.Factory
import DualBank.Crypto.OneShot
import DualBank.Ecc.Keys
import DualBank.Tools.Signing

/-!
# Authentic images

`crypto_verify_firmware` with the elliptic-curve library that the bootloader links, from the
bytes of a slot to the signature scheme over the curve, and from there to what is jumped to
and to what the host tools sign.
-/

namespace DualBank

open Lib UECC BootConfig FlashBackend

/-! ## The library under the verifier -/

/-- The key store of a build: the arrays of `public_key.h` over micro-ecc. -/
def eccStore (publicKeyXy publicKeySha256 : List UInt8) : KeyStore where
  publicKeyXy := publicKeyXy
  publicKeySha256 := publicKeySha256
  uECCValidPublicKey := validPublicKey
  uECCVerify := verify

/-- A point of the curve and its digest pass the check. -/
theorem eccStore_valid {publicKey : List UInt8} (h : validPublicKey publicKey = 1) :
    cryptoValidatePublicKey (eccStore publicKey (Sha2.digest publicKey)) = true :=
  cryptoValidatePublicKey_iff.2 ⟨h, fun _ _ ↦ rfl⟩

/-- The numbers of the signature in the header of a slot, and the number that it is to sign. -/
def slotR (m : Mem) (slotAddr : Nat) : Nat := beNat (m.read (slotAddr + 20) 32)

def slotS (m : Mem) (slotAddr : Nat) : Nat := beNat (m.read (slotAddr + 52) 32)

def slotHash (m : Mem) (slotAddr : Nat) : Nat :=
  beNat (Sha2.digest (signedRegion m slotAddr (FirmwareHeader.ofMem m slotAddr).imageSize.toNat))

/-- A slot with an image whose signature, in its low form, is valid under `Q`. -/
structure Authentic (Q : curve.Point) (m : Mem) (slotAddr : Nat) : Prop where
  admissible : (FirmwareHeader.ofMem m slotAddr).admissible = true
  crc : crc32 (m.read (slotAddr + firmwareHeaderSize)
    (FirmwareHeader.ofMem m slotAddr).imageSize.toNat) = (FirmwareHeader.ofMem m slotAddr).crc32
  low : slotS m slotAddr ≤ curveOrder / 2
  valid : EcdsaValid curveOrder xCoord basePoint Q (slotHash m slotAddr) (slotR m slotAddr)
    (slotS m slotAddr)

/-- The double multiplication that the signature of a slot asks for meets no exceptional
point. -/
def SlotRegular (Q : curve.Point) (m : Mem) (slotAddr : Nat) : Prop :=
  ShamirRegular basePoint Q
    (ecdsaMultiplier curveOrder (slotHash m slotAddr) (slotS m slotAddr))
    (ecdsaMultiplier curveOrder (slotR m slotAddr) (slotS m slotAddr))

theorem hashNat_digest (bs : List UInt8) : hashNat (Sha2.digest bs) = beNat (Sha2.digest bs) := by
  rw [hashNat, ← sha256_eq_digest, List.take_of_length_le (length_sha256 bs).le]

/-- The library's verdict on the signature of a slot. -/
theorem verify_slot_iff {publicKey : List UInt8} {Q : curve.Point}
    (hQ : (publicPoint publicKey).Is Q) (hne : Q ≠ basePoint) (hneg : Q ≠ -basePoint) (m : Mem)
    (slotAddr : Nat) :
    verify publicKey
        (Sha2.digest (signedRegion m slotAddr (FirmwareHeader.ofMem m slotAddr).imageSize.toNat))
        (FirmwareHeader.ofMem m slotAddr).signature = 1 ↔
      EcdsaValid curveOrder xCoord basePoint Q (slotHash m slotAddr) (slotR m slotAddr)
          (slotS m slotAddr) ∧ SlotRegular Q m slotAddr := by
  have hr := Mem.length_read m (slotAddr + 20) 32
  have hs := Mem.length_read m (slotAddr + 52) 32
  rw [verify_iff hQ hne hneg, hashNat_digest, signature_ofMem, sigR, sigS, List.take_left' hr,
    List.drop_left' hr, List.take_of_length_le hs.le]
  exact Iff.rfl

theorem verify_of_authentic {K : KeyStore} {Q : curve.Point} (hK : cryptoValidatePublicKey K = true)
    (hlib : K.uECCVerify = verify) (hQ : (publicPoint K.publicKeyXy).Is Q) (hne : Q ≠ basePoint)
    (hneg : Q ≠ -basePoint) (m : Mem) (slotAddr : Nat) :
    cryptoVerifyFirmware K m slotAddr = true ↔
      Authentic Q m slotAddr ∧ SlotRegular Q m slotAddr := by
  have hsig := verify_slot_iff hQ hne hneg m slotAddr
  rw [cryptoVerifyFirmware_eq]
  unfold acceptsImage
  rw [← signedRegion_eq, sha256_eq_digest, hlib, hK, Bool.true_and]
  simp only [Bool.and_eq_true, beq_iff_eq, isCanonicalLowS_ofMem, hsig]
  constructor
  · rintro ⟨⟨⟨hadm, hcrc⟩, -, -, hlow⟩, hvalid, hreg⟩
    exact ⟨⟨hadm, hcrc, hlow, hvalid⟩, hreg⟩
  · rintro ⟨⟨hadm, hcrc, hlow, hvalid⟩, hreg⟩
    exact ⟨⟨⟨hadm, hcrc⟩, hvalid.1.ne', hvalid.2.2.1.ne', hlow⟩, hvalid, hreg⟩

/-- A verification begins with the key. -/
theorem valid_of_verify {K : KeyStore} {m : Mem} {slotAddr : Nat}
    (h : cryptoVerifyFirmware K m slotAddr = true) : cryptoValidatePublicKey K = true := by
  rw [cryptoVerifyFirmware_eq, acceptsImage] at h
  simp only [Bool.and_eq_true] at h
  exact h.1.1.1.1

section Store

variable {publicKeyXy publicKeySha256 : List UInt8} {m : Mem} {slotAddr : Nat}

/-- The verdict under a key that passes the check. -/
theorem verify_eccStore_iff (hG : publicKeyXy ≠ keyBytes basePoint)
    (hneg : publicKeyXy ≠ keyBytes (-basePoint)) {Q : curve.Point} (hQ : Q ≠ 0)
    (hkey : publicKeyXy = keyBytes Q)
    (hvalid : cryptoValidatePublicKey (eccStore publicKeyXy publicKeySha256) = true) :
    cryptoVerifyFirmware (eccStore publicKeyXy publicKeySha256) m slotAddr = true ↔
      Authentic Q m slotAddr ∧ SlotRegular Q m slotAddr := by
  rw [hkey] at hG hneg hvalid ⊢
  exact verify_of_authentic hvalid rfl (is_keyBytes hQ) (mt (congrArg keyBytes) hG)
    (mt (congrArg keyBytes) hneg) m slotAddr

/-- A slot that verifies is signed under the embedded key. -/
theorem authentic_of_verify (hlen : publicKeyXy.length = 64)
    (hG : publicKeyXy ≠ keyBytes basePoint) (hneg : publicKeyXy ≠ keyBytes (-basePoint))
    (h : cryptoVerifyFirmware (eccStore publicKeyXy publicKeySha256) m slotAddr = true) :
    ∃ Q : curve.Point, Q ≠ 0 ∧ publicKeyXy = keyBytes Q ∧ Authentic Q m slotAddr := by
  have hvalid := valid_of_verify h
  obtain ⟨Q, hQ⟩ := validPoint_eq_one_iff.1 (cryptoValidatePublicKey_iff.1 hvalid).point
  have hkey := eq_keyBytes hlen hQ
  exact ⟨Q, hQ.ne_zero, hkey, ((verify_eccStore_iff hG hneg hQ.ne_zero hkey hvalid).1 h).1⟩

/-- **Verification is ECDSA.**  With the library in place the verifier accepts a slot exactly
when the embedded array is a point of the curve with the embedded digest, and the slot is
authentic under that point, up to the exceptional points of the multiplication. -/
theorem verify_ecdsa (hlen : publicKeyXy.length = 64) (hG : publicKeyXy ≠ keyBytes basePoint)
    (hneg : publicKeyXy ≠ keyBytes (-basePoint)) (m : Mem) (slotAddr : Nat) :
    cryptoVerifyFirmware (eccStore publicKeyXy publicKeySha256) m slotAddr = true ↔
      (∀ i < 32, (Sha2.digest publicKeyXy).getD i 0 = publicKeySha256.getD i 0) ∧
        ∃ Q : curve.Point, Q ≠ 0 ∧ publicKeyXy = keyBytes Q ∧ Authentic Q m slotAddr ∧
          SlotRegular Q m slotAddr := by
  constructor
  · intro h
    have hvalid := valid_of_verify h
    obtain ⟨Q, hQ, hkey, -⟩ := authentic_of_verify hlen hG hneg h
    obtain ⟨hauth, hreg⟩ := (verify_eccStore_iff hG hneg hQ hkey hvalid).1 h
    exact ⟨(cryptoValidatePublicKey_iff.1 hvalid).pinned, Q, hQ, hkey, hauth, hreg⟩
  · rintro ⟨hpinned, Q, hQ, hkey, hauth, hreg⟩
    have hpoint : validPublicKey publicKeyXy = 1 := by
      rw [hkey]
      exact validPoint_eq_one_iff.2 ⟨Q, is_keyBytes hQ⟩
    exact (verify_eccStore_iff hG hneg hQ hkey
      (cryptoValidatePublicKey_iff.2 ⟨hpoint, hpinned⟩)).2 ⟨hauth, hreg⟩

end Store

/-! ## What is jumped to -/

/-- The slot that a pass jumps to verified on the flash that the pass began with. -/
theorem verified_of_main_jump {σ : Type} [FlashBackend σ] (K : KeyStore) {m : Machine σ}
    (h : Powered m.dev) {slotAddr : Nat}
    (hj : (main (onFlash σ K) m).1 = .jump slotAddr) :
    cryptoVerifyFirmware K (byte (flashInit m.dev)) slotAddr = true := by
  have haddr := main_jump_cases hj
  rw [(main_onFlash K h).1] at hj
  have hpass := pass_jump_verifies hj
  rcases pass_slots_eraseA (readConfig (flashInit m.dev))
    (.ofMem K (byte (flashInit m.dev))) m.shared with ⟨e, -, -⟩ | ⟨e, -⟩
  · rw [e] at hpass
    rcases haddr with rfl | rfl
    · exact hpass
    · exact hpass
  · -- slot A is gone by the time of the choice, so the choice is slot B
    rw [e] at hpass
    rcases haddr with rfl | rfl
    · cases hpass
    · exact hpass

/-- **Only authentic code is jumped to.**  Over either flash backend, whatever the flash and the
shared block hold, the slot that a pass jumps to was authentic under the embedded key when the
pass began, and slot B is so still. -/
theorem jump_authentic {σ : Type} [FlashBackend σ] {publicKeyXy publicKeySha256 : List UInt8}
    (hlen : publicKeyXy.length = 64) (hG : publicKeyXy ≠ keyBytes basePoint)
    (hneg : publicKeyXy ≠ keyBytes (-basePoint)) {m : Machine σ} (h : Powered m.dev)
    {slotAddr : Nat}
    (hj : (main (onFlash σ (eccStore publicKeyXy publicKeySha256)) m).1 = .jump slotAddr) :
    ∃ Q : curve.Point, Q ≠ 0 ∧ publicKeyXy = keyBytes Q ∧
      Authentic Q (byte (flashInit m.dev)) slotAddr ∧
      (slotAddr = slotBAddr → Authentic Q
        (byte (main (onFlash σ (eccStore publicKeyXy publicKeySha256)) m).2.dev) slotBAddr) := by
  have hbefore := verified_of_main_jump _ h hj
  obtain ⟨Q, hQ, hkey, hauth⟩ := authentic_of_verify hlen hG hneg hbefore
  refine ⟨Q, hQ, hkey, hauth, ?_⟩
  rintro rfl
  have hafter : cryptoVerifyFirmware (eccStore publicKeyXy publicKeySha256)
      (byte (main (onFlash σ (eccStore publicKeyXy publicKeySha256)) m).2.dev) slotBAddr = true :=
    (congrArg (fun S ↦ S.b.verifies) (slots_of_main_jump _ h hj)).trans hbefore
  obtain ⟨Q', -, hkey', hauth'⟩ := authentic_of_verify hlen hG hneg hafter
  obtain rfl := keyBytes_injective (hkey.symm.trans hkey')
  exact hauth'

/-! ## What is signed -/

/-- What the ECDSA package of the host tools does with a private key: its signatures are those
of the scheme, whatever the nonces. -/
structure SigningKey.Signs (sk : SigningKey) (key : PrivateKey) : Prop where
  verifyingKey : sk.verifyingKey = key.publicKey
  signDigest : ∀ digest, ∃ k, EcdsaSigned curveOrder xCoord basePoint key.d k (beNat digest)
    (sk.signDigest digest).1 (sk.signDigest digest).2

/-- The signer encodes a valid signature, in its low form. -/
theorem sign_eq {sk : SigningKey} {key : PrivateKey} (hk : sk.Signs key) (bs : List UInt8) :
    ∃ r s, sign sk bs = some (rawSignature r s) ∧ s ≤ curveOrder / 2 ∧
      EcdsaValid curveOrder xCoord basePoint key.point (beNat (Sha2.digest bs)) r s := by
  obtain ⟨k, hsigned⟩ := hk.signDigest (Sha2.digest bs)
  have hvalid := hsigned.valid order_basePoint
  have hpoint : curveOrder • key.point = 0 := by
    rw [PrivateKey.point, ← mul_nsmul', mul_comm, mul_nsmul', order_basePoint, nsmul_zero]
  have hnegated := hvalid.neg order_basePoint hpoint xCoord_neg
  unfold sign sigencodeCanonical toBytesBig
  dsimp only
  generalize (sk.signDigest (Sha2.digest bs)).1 = r at hvalid hnegated ⊢
  generalize (sk.signDigest (Sha2.digest bs)).2 = s at hvalid hnegated ⊢
  obtain ⟨s', hs', hlow, hvalid'⟩ : ∃ s', (if s > curveOrder / 2 then curveOrder - s else s) = s' ∧
      s' ≤ curveOrder / 2 ∧
      EcdsaValid curveOrder xCoord basePoint key.point (beNat (Sha2.digest bs)) r s' := by
    split_ifs with hgt
    · exact ⟨_, rfl, by omega, hnegated⟩
    · exact ⟨_, rfl, Nat.le_of_not_lt hgt, hvalid⟩
  have hr := Nat.lt_trans hvalid'.2.1 curveOrder_lt
  have hs := Nat.lt_trans hvalid'.2.2.2.1 curveOrder_lt
  refine ⟨r, s', ?_, hlow, hvalid'⟩
  rw [hs', if_pos hr, if_pos hs]
  rfl

section Image

variable {version timestamp : UInt32} {payload sig : List UInt8}

/-- A slot that holds a signed file. -/
theorem ofMem_signed (hs : sig.length = firmwareSignatureSize) {m : Mem} {slotAddr : Nat}
    (hm : m.read slotAddr (imageHeader version timestamp payload sig ++ payload).length =
      imageHeader version timestamp payload sig ++ payload) :
    FirmwareHeader.ofMem m slotAddr = signedHeader version timestamp payload sig hs ∧
      m.read (slotAddr + firmwareHeaderSize) payload.length = payload := by
  have hhead := @length_imageHeader version timestamp payload sig hs
  rw [List.length_append, hhead, Mem.read_add] at hm
  obtain ⟨hheader, hpayload⟩ := List.append_inj hm (by rw [Mem.length_read, hhead])
  exact ⟨FirmwareHeader.ext hheader, hpayload⟩

end Image

/-- The numbers of a slot that holds a signed file. -/
theorem slot_numbers {version timestamp : UInt32} {payload : List UInt8} {r s : Nat}
    (hlen : payload.length < 2 ^ 32) (hr : r < curveOrder) (hs : s < curveOrder) {m : Mem}
    {slotAddr : Nat} (hm : m.read slotAddr (imageHeader version timestamp payload
      (rawSignature r s) ++ payload).length = imageHeader version timestamp payload
      (rawSignature r s) ++ payload) :
    slotR m slotAddr = r ∧ slotS m slotAddr = s ∧ slotHash m slotAddr =
      beNat (Sha2.digest (imageHeader version timestamp payload zeroSignature ++ payload)) := by
  have hsize : payload.length.toUInt32.toNat = payload.length := Nat.mod_eq_of_lt hlen
  obtain ⟨hheader, hpayload⟩ := ofMem_signed (length_rawSignature r s) hm
  have hsig := signature_ofMem m slotAddr
  rw [hheader, signature_signedHeader] at hsig
  obtain ⟨hslotR, hslotS⟩ := List.append_inj hsig (by rw [length_beBytes, Mem.length_read])
  refine ⟨?_, ?_, ?_⟩
  · rw [slotR, ← hslotR, beNat_beBytes_of_lt (Nat.lt_trans hr curveOrder_lt)]
  · rw [slotS, ← hslotS, beNat_beBytes_of_lt (Nat.lt_trans hs curveOrder_lt)]
  · rw [slotHash, signedRegion_eq, hheader, imageSize_signedHeader, hsize, hpayload,
      unsignedBytes_signedHeader]

/-- The slot that holds a file signed with a private key is authentic. -/
theorem authentic_of_signed {Q : curve.Point} {version timestamp : UInt32} {payload : List UInt8}
    {r s : Nat} (hpos : 0 < payload.length) (hmax : payload.length ≤ firmwareMaxPayloadSize)
    (hlow : s ≤ curveOrder / 2) (hvalid : EcdsaValid curveOrder xCoord basePoint Q
      (beNat (Sha2.digest (imageHeader version timestamp payload zeroSignature ++ payload))) r s)
    {m : Mem} {slotAddr : Nat}
    (hm : m.read slotAddr (imageHeader version timestamp payload (rawSignature r s) ++
      payload).length = imageHeader version timestamp payload (rawSignature r s) ++ payload) :
    Authentic Q m slotAddr := by
  have h32 : firmwareMaxPayloadSize < 2 ^ 32 := by decide
  have hsize : payload.length.toUInt32.toNat = payload.length := Nat.mod_eq_of_lt (by omega)
  have hs := length_rawSignature r s
  obtain ⟨hheader, hpayload⟩ := ofMem_signed hs hm
  obtain ⟨hslotR, hslotS, hhash⟩ := slot_numbers (by omega) hvalid.2.1 hvalid.2.2.2.1 hm
  refine ⟨?_, ?_, ?_, ?_⟩
  · rw [hheader]
    exact FirmwareHeader.admissible_iff.2 ⟨magic_signedHeader hs, by
      rw [imageSize_signedHeader, hsize]
      exact ⟨hpos, hmax⟩⟩
  · rw [hheader, imageSize_signedHeader, hsize, hpayload, crc32_signedHeader]
  · rw [hslotS]
    exact hlow
  · rw [hslotR, hslotS, hhash]
    exact hvalid

/-- **From the private key to the verdict.**  What the scripts make of a payload with a private
key is authentic wherever it is placed, and the bootloader that embeds the public key accepts
it exactly when the multiplication meets no exceptional point. -/
theorem signed_image_authentic {sk : SigningKey} {key : PrivateKey} (hk : sk.Signs key)
    {payload : List UInt8} (hpos : 0 < payload.length)
    (hmax : payload.length ≤ firmwareMaxPayloadSize) {version timestamp : Nat}
    (hv : version < 2 ^ 32) (ht : timestamp < 2 ^ 32) :
    ∃ K blob signed, embedPubkey sk.verifyingKey validPublicKey verify = some K ∧
      createImage version timestamp payload = some blob ∧ signFirmware sk blob = some signed ∧
      ∀ (m : Mem) (slotAddr : Nat), m.read slotAddr signed.length = signed →
        Authentic key.point m slotAddr ∧
          (cryptoVerifyFirmware K m slotAddr = true ↔
            key.Regular (slotHash m slotAddr) (slotR m slotAddr) (slotS m slotAddr)) := by
  have h32 : firmwareMaxPayloadSize < 2 ^ 32 := by decide
  have hlen : payload.length < 2 ^ 32 := by omega
  obtain ⟨v, rfl⟩ : ∃ v : UInt32, v.toNat = version := ⟨version.toUInt32, Nat.mod_eq_of_lt hv⟩
  obtain ⟨t, rfl⟩ : ∃ t : UInt32, t.toNat = timestamp :=
    ⟨timestamp.toUInt32, Nat.mod_eq_of_lt ht⟩
  obtain ⟨r, s, hsign, hlow, hvalid⟩ :=
    sign_eq hk (imageHeader v t payload zeroSignature ++ payload)
  have hkey : sk.verifyingKey.length = 64 := by rw [hk.verifyingKey, key.length_publicKey]
  refine ⟨eccStore sk.verifyingKey (Sha2.digest sk.verifyingKey), _, _, if_neg (not_not.2 hkey),
    createImage_eq hpos hlen, signFirmware_eq hpos hlen (length_rawSignature r s) hsign, ?_⟩
  intro m slotAddr hm
  have hauth := authentic_of_signed hpos hmax hlow hvalid hm
  have hstore : cryptoValidatePublicKey
      (eccStore sk.verifyingKey (Sha2.digest sk.verifyingKey)) = true := by
    rw [hk.verifyingKey]
    exact eccStore_valid key.validPublicKey_publicKey
  have hpoint : (publicPoint sk.verifyingKey).Is key.point := by
    rw [hk.verifyingKey]
    exact is_keyBytes key.point_ne_zero
  refine ⟨hauth, ?_⟩
  rw [verify_of_authentic hstore rfl hpoint key.point_ne_base key.point_ne_neg, and_iff_right hauth,
    SlotRegular, PrivateKey.point, shamirRegular_iff order_basePoint basePoint_ne_zero]
  exact Iff.rfl

/-! ## A sample signer

The private key 2, with the nonce 1, or 2 where 1 gives no signature. -/

/-- The `x` coordinates of `G` and of `2 * G`. -/
def baseX : Nat := 0x6B17D1F2E12C4247F8BCE6E563A440F277037D812DEB33A0F4A13945D898C296

def doubleBaseX : Nat := 0x7CF27B188D034F7E8A52380304B51AC3C08969E277F21B35A60B48FC47669978

def doubleBaseY : Nat := 0x07775510DB8ED040293D9AC69F7430DBBA7DADE63CE982299E04B79D227873D1

theorem xCoord_base : xCoord (1 • basePoint) = some baseX := by
  rw [one_nsmul]
  have hval : ((curveG.x.toNat : Nat) : ZMod prime).val = baseX := by
    rw [toNat_curveG.1]
    exact ZMod.val_cast_of_lt (by decide)
  exact congrArg some hval

theorem xCoord_double : xCoord (2 • basePoint) = some doubleBaseX := by
  have hxy : curve.Nonsingular ((doubleBaseX : Int) : ZMod prime)
      ((doubleBaseY : Int) : ZMod prime) := by
    rw [nonsingular_iff, coeffB, toNat_curveB]
    decide
  have hz : ((IntPoint.double prime ⟨curveG.x.toNat, curveG.y.toNat, 1⟩).z : ZMod prime) ≠ 0 := by
    rw [toNat_curveG.1, toNat_curveG.2]
    decide
  have hdouble := (is_intPoint.double two_ne_zero_prime hz).eq_some hxy
    (by rw [toNat_curveG.1, toNat_curveG.2]; decide)
    (by rw [toNat_curveG.1, toNat_curveG.2]; decide)
  rw [hdouble]
  have hval : ((doubleBaseX : Int) : ZMod prime).val = doubleBaseX := by
    rw [Int.cast_natCast]
    exact ZMod.val_cast_of_lt (by decide)
  exact congrArg some hval

/-- The signature with the nonce `k`, where `x` is the coordinate of `k * G`. -/
def textbookSign (k x e : Nat) : Nat × Nat :=
  (x % curveOrder, ((k : ZMod curveOrder)⁻¹ * (e + (x % curveOrder : Nat) * (2 : Nat))).val)

def textbookSigner : SigningKey where
  verifyingKey := textbookKey.publicKey
  signDigest digest :=
    if (beNat digest : ZMod curveOrder) + (baseX % curveOrder : Nat) * (2 : Nat) = 0 then
      textbookSign 2 doubleBaseX (beNat digest)
    else textbookSign 1 baseX (beNat digest)

theorem signs_textbookSigner : textbookSigner.Signs textbookKey where
  verifyingKey := rfl
  signDigest digest := by
    have hone : ((1 : Nat) : ZMod curveOrder) ≠ 0 := cast_ne_zero Nat.one_pos (by decide)
    have htwo : ((2 : Nat) : ZMod curveOrder) ≠ 0 := cast_ne_zero Nat.two_pos (by decide)
    unfold textbookSigner
    dsimp only
    split_ifs with h
    · refine ⟨2, .of_nonce htwo xCoord_double (by decide) fun h' ↦ ?_⟩
      -- two nonces whose points have different coordinates do not both fail
      have hdiff : ((doubleBaseX % curveOrder : Nat) : ZMod curveOrder) =
          ((baseX % curveOrder : Nat) : ZMod curveOrder) := by
        refine mul_right_cancel₀ htwo ?_
        exact add_left_cancel (h'.trans h.symm)
      rw [ZMod.natCast_eq_natCast_iff'] at hdiff
      exact absurd hdiff (by decide)
    · exact ⟨1, .of_nonce hone xCoord_base (by decide) h⟩

/-- The digest of the sample image, and the `s` of its signature. -/
def textbookHash : Nat :=
  53498957623261546403408433761954832556041029886691972676324725015957819072058

def textbookS : Nat := 0x4c76fa29798ef44fcaea0caa6bf80006ab8b00bf730ed65c482412e59029fe15

/-- The hash of the sample image behind the first half of its header. -/
def textbookHalf : Sha256Ctx :=
  ⟨[], 2048, ⟨0x578cc1df, 0xcadd036b, 0x13826608, 0xea5d8aeb,
    0x80244f3b, 0xc2975038, 0x9cb2992c, 0x3ca4d92d⟩⟩

/-- And behind all of it. -/
def textbookWhole : Sha256Ctx :=
  ⟨[], 4096, ⟨0xdb0163b7, 0x653b06aa, 0x48639afa, 0x356610dc,
    0x7ab8ddc4, 0xeba54c57, 0xae35a28f, 0x3e915b38⟩⟩

set_option maxRecDepth 100000 in
theorem sha256Update_half :
    sha256Update sha256Init ((imageHeader 1 0 [0] zeroSignature).take 256) = textbookHalf := by
  decide +kernel

set_option maxRecDepth 100000 in
theorem sha256Update_whole :
    sha256Update textbookHalf ((imageHeader 1 0 [0] zeroSignature).drop 256) = textbookWhole := by
  decide +kernel

theorem sha256Final_whole :
    beNat (sha256Final (sha256Update textbookWhole [0])) = textbookHash := by
  decide +kernel

theorem beNat_digest_sample :
    beNat (Sha2.digest (imageHeader 1 0 [0] zeroSignature ++ [0])) = textbookHash := by
  rw [← sha256_eq_digest, sha256, sha256Update_append,
    ← List.take_append_drop 256 (imageHeader 1 0 [0] zeroSignature), sha256Update_append,
    sha256Update_half, sha256Update_whole, sha256Final_whole]

theorem textbookSigner_sample : textbookSigner.signDigest
    (Sha2.digest (imageHeader 1 0 [0] zeroSignature ++ [0])) = (baseX, textbookS) := by
  have hs : (textbookHash : ZMod curveOrder) + (baseX % curveOrder : Nat) * (2 : Nat) =
      (textbookS : Nat) := by
    rw [← Nat.cast_mul, ← Nat.cast_add, ZMod.natCast_eq_natCast_iff']
    decide
  have hne : (textbookS : ZMod curveOrder) ≠ 0 := cast_ne_zero (by decide) (by decide)
  unfold textbookSigner textbookSign
  dsimp only
  rw [beNat_digest_sample, hs, if_neg hne, Nat.cast_one, inv_one, one_mul,
    ZMod.val_cast_of_lt (by decide)]
  rfl

/-- The multiplier of a quotient, from the quotient. -/
theorem regular_textbook_of {s : Nat} (hs : 0 < s) (hs' : s < curveOrder) (u₁ u₂ : Nat)
    (h₁ : u₁ < curveOrder ∧ u₁ * s % curveOrder = textbookHash % curveOrder)
    (h₂ : u₂ < curveOrder ∧ u₂ * s % curveOrder = baseX % curveOrder)
    (h : ScalarRegular curveOrder textbookKey.d u₁ u₂) :
    textbookKey.Regular textbookHash baseX s := by
  have hne : (s : ZMod curveOrder) ≠ 0 := cast_ne_zero hs hs'
  rw [PrivateKey.Regular, ecdsaMultiplier_eq hne h₁.1 h₁.2, ecdsaMultiplier_eq hne h₂.1 h₂.2]
  exact h

theorem regular_textbook : textbookKey.Regular textbookHash baseX textbookS :=
  regular_textbook_of (by decide) (by decide)
    0x5814d7c909cb515a5c661475f670a8be580a0ca8fd1f9cc137b90bb6030508c6
    0x53f5941afb1a575351ccf5c504c7aba0b26e770254fc00e1de005f867caf0e46 (by decide) (by decide)
    (by decide +kernel)

theorem regular_textbook_neg : textbookKey.Regular textbookHash baseX (curveOrder - textbookS) :=
  regular_textbook_of (by decide) (by decide)
    0xa7eb2835f634aea6a399eb8a098f574164dcee04a9f801c3bc00bf0cf95e1c8b
    0xac0a6be404e5a8adae330a3afb38545f0a7883ab521b9da315b96b3c7fb4170b (by decide)
    (by decide) (by decide +kernel)

/-! The sample image: version 1, one byte of payload. -/

theorem sign_textbook : sign textbookSigner (imageHeader 1 0 [0] zeroSignature ++ [0]) =
    some (rawSignature baseX textbookS) := by
  unfold sign
  dsimp only
  rw [textbookSigner_sample]
  decide

/-- The sample image is signed, placed and accepted. -/
theorem signed_image_authentic_textbook :
    ∃ K blob signed, embedPubkey textbookSigner.verifyingKey validPublicKey verify = some K ∧
      createImage 1 0 [0] = some blob ∧ signFirmware textbookSigner blob = some signed ∧
      ∀ (m : Mem) (slotAddr : Nat), m.read slotAddr signed.length = signed →
        Authentic textbookKey.point m slotAddr ∧ cryptoVerifyFirmware K m slotAddr = true := by
  obtain ⟨K, blob, signed, hK, hblob, hsigned, h⟩ := @signed_image_authentic textbookSigner
    textbookKey signs_textbookSigner [0] (by decide) (by decide) 1 0 (by decide) (by decide)
  refine ⟨K, blob, signed, hK, hblob, hsigned, fun m slotAddr hm ↦ ?_⟩
  obtain ⟨hauth, hiff⟩ := h m slotAddr hm
  refine ⟨hauth, hiff.2 ?_⟩
  -- the file that is signed
  have hblob' : createImage 1 0 [0] = some (imageHeader 1 0 [0] zeroSignature ++ [0]) :=
    @createImage_eq 1 0 [0] (by decide) (by decide)
  obtain rfl := Option.some.inj (hblob.symm.trans hblob')
  have hsigned' := @signFirmware_eq 1 0 [0] _ textbookSigner (by decide) (by decide)
    (length_rawSignature baseX textbookS) sign_textbook
  obtain rfl := Option.some.inj (hsigned.symm.trans hsigned')
  obtain ⟨hr, hs, hhash⟩ := slot_numbers (by decide) (by decide) (by decide) hm
  rw [hr, hs, hhash, beNat_digest_sample]
  exact regular_textbook

/-- The bootloader that embeds the sample key. -/
def textbookStore : KeyStore := eccStore textbookKey.publicKey (Sha2.digest textbookKey.publicKey)

theorem textbookStore_valid : cryptoValidatePublicKey textbookStore = true :=
  eccStore_valid textbookKey.validPublicKey_publicKey

/-- The numbers of a signature that has been encoded. -/
theorem sigR_rawSignature {r : Nat} (s : Nat) (hr : r < curveOrder) :
    sigR (rawSignature r s) = r := by
  rw [sigR, take_rawSignature, beNat_beBytes_of_lt (Nat.lt_trans hr curveOrder_lt)]

theorem sigS_rawSignature (r : Nat) {s : Nat} (hs : s < curveOrder) :
    sigS (rawSignature r s) = s := by
  rw [sigS, drop_rawSignature, List.take_of_length_le (length_beBytes 32 _).le,
    beNat_beBytes_of_lt (Nat.lt_trans hs curveOrder_lt)]

/-- The library at a signature of the sample image. -/
theorem verify_textbook_of {s : Nat} (hs : s < curveOrder)
    (hvalid : EcdsaValid curveOrder xCoord basePoint textbookKey.point textbookHash baseX s)
    (hreg : textbookKey.Regular textbookHash baseX s) :
    verify textbookKey.publicKey (Sha2.digest (imageHeader 1 0 [0] zeroSignature ++ [0]))
      (rawSignature baseX s) = 1 := by
  rw [textbookKey.verify_eq_one_iff, sigR_rawSignature s (by decide), sigS_rawSignature baseX hs,
    hashNat_digest, beNat_digest_sample]
  exact ⟨(ecdsaValid_iff_signed xCoord_zero order_basePoint).1 hvalid, hreg⟩

/-- The signature of the sample image is one of the scheme. -/
theorem valid_textbook :
    EcdsaValid curveOrder xCoord basePoint textbookKey.point textbookHash baseX textbookS := by
  obtain ⟨k, hsigned⟩ := signs_textbookSigner.signDigest
    (Sha2.digest (imageHeader 1 0 [0] zeroSignature ++ [0]))
  rw [textbookSigner_sample, beNat_digest_sample] at hsigned
  exact hsigned.valid order_basePoint

theorem verify_textbook : verify textbookKey.publicKey
    (Sha2.digest (imageHeader 1 0 [0] zeroSignature ++ [0])) (rawSignature baseX textbookS) = 1 :=
  verify_textbook_of (by decide) valid_textbook regular_textbook

/-- The signature of the sample image is accepted, so it is valid under the point of the key. -/
theorem verify_eq_one_iff_valid_textbook :
    ∃ Q : curve.Point, Q ≠ 0 ∧ textbookKey.publicKey = keyBytes Q ∧
      verify textbookKey.publicKey (Sha2.digest (imageHeader 1 0 [0] zeroSignature ++ [0]))
        (rawSignature baseX textbookS) = 1 ∧
      EcdsaValid curveOrder xCoord basePoint Q textbookHash baseX textbookS := by
  obtain ⟨hG, hneg⟩ := textbookKey_ne_base
  obtain ⟨Q, hQ, hkey, h⟩ := verify_eq_one_iff_valid textbookKey.length_publicKey
    textbookKey.validPublicKey_publicKey hG hneg
  obtain ⟨hvalid, -⟩ := (h _ _).1 verify_textbook
  rw [hashNat_digest, beNat_digest_sample, sigR_rawSignature textbookS (by decide),
    sigS_rawSignature baseX (by decide)] at hvalid
  exact ⟨Q, hQ, hkey, verify_textbook, hvalid⟩

theorem verify_textbook_neg : verify textbookKey.publicKey
    (Sha2.digest (imageHeader 1 0 [0] zeroSignature ++ [0]))
      (rawSignature baseX (curveOrder - textbookS)) = 1 := by
  have hpoint : curveOrder • textbookKey.point = 0 := by
    rw [PrivateKey.point, ← mul_nsmul', mul_comm, mul_nsmul', order_basePoint, nsmul_zero]
  exact verify_textbook_of (by decide)
    (valid_textbook.neg order_basePoint hpoint xCoord_neg) regular_textbook_neg

/-- The sample signer with its nonces negated: `r` stays, and `s` is negated. -/
def negatedSigner : SigningKey where
  verifyingKey := textbookKey.publicKey
  signDigest digest :=
    ((textbookSigner.signDigest digest).1, curveOrder - (textbookSigner.signDigest digest).2)

theorem negatedSigner_sample : negatedSigner.signDigest
    (Sha2.digest (imageHeader 1 0 [0] zeroSignature ++ [0])) = (baseX, curveOrder - textbookS) := by
  unfold negatedSigner
  dsimp only
  rw [textbookSigner_sample]

/-- Its signature of the sample image is accepted by the library, as the one of the sample
signer is. -/
theorem agrees_negatedSigner : negatedSigner.Agrees validPublicKey verify
    (Sha2.digest (imageHeader 1 0 [0] zeroSignature ++ [0])) := by
  have hback : curveOrder - (curveOrder - textbookS) = textbookS := by decide
  refine ⟨textbookKey.length_publicKey, textbookKey.validPublicKey_publicKey, ?_, ?_, ?_⟩
  · rw [negatedSigner_sample]
    decide
  · rw [negatedSigner_sample]
    exact verify_textbook_neg
  · rw [negatedSigner_sample]
    dsimp only
    rw [hback]
    exact verify_textbook

/-- The sample image, signed with a high `s` that the script replaces, is verified by the
bootloader. -/
theorem signed_image_verifies_negated :
    (negatedSigner.signDigest (Sha2.digest (imageHeader 1 0 [0] zeroSignature ++ [0]))).2 >
        curveOrder / 2 ∧
      ∃ K blob signed, embedPubkey negatedSigner.verifyingKey validPublicKey verify = some K ∧
        createImage 1 0 [0] = some blob ∧ signFirmware negatedSigner blob = some signed ∧
        ∀ (m : Mem) (slotAddr : Nat), m.read slotAddr signed.length = signed →
          cryptoVerifyFirmware K m slotAddr = true := by
  have hblob : createImage 1 0 [0] = some (imageHeader 1 0 [0] zeroSignature ++ [0]) :=
    @createImage_eq 1 0 [0] (by decide) (by decide)
  have hagrees : ∀ blob, createImage 1 0 [0] = some blob →
      negatedSigner.Agrees validPublicKey verify (Sha2.digest blob) := by
    intro blob h
    obtain rfl := Option.some.inj (hblob.symm.trans h)
    exact agrees_negatedSigner
  constructor
  · rw [negatedSigner_sample]
    decide
  · exact signed_image_verifies hagrees (by decide) (by decide) (by decide) (by decide)

def textbookImage : SignedImage textbookStore :=
  @signedImageOf textbookStore 1 0 [0] (rawSignature baseX textbookS) textbookStore_valid
    (by decide) (by decide) (length_rawSignature baseX textbookS)
    ((isCanonicalLowS_rawSignature (by decide) (by decide) (by decide) (by decide)).2 (by decide))
    (by rw [sha256_eq_digest]; exact verify_textbook)

/-- The sample image in slot B is authentic. -/
theorem verify_ecdsa_textbook : ∃ mem Q,
    build (factoryArgs textbookImage (some textbookImage) true 0) = some mem ∧ Q ≠ 0 ∧
      textbookKey.publicKey = keyBytes Q ∧ Authentic Q mem slotBAddr ∧
      SlotRegular Q mem slotBAddr := by
  obtain ⟨mem, hm, -, hs⟩ := exists_factory textbookImage (some textbookImage) true 0
  have hv : cryptoVerifyFirmware textbookStore mem slotBAddr = true :=
    congrArg (fun S ↦ S.b.verifies) hs
  obtain ⟨hG, hneg⟩ := textbookKey_ne_base
  obtain ⟨-, Q, hQ, hkey, hauth, hreg⟩ :=
    (verify_ecdsa textbookKey.length_publicKey hG hneg mem slotBAddr).1 hv
  exact ⟨mem, Q, hm, hQ, hkey, hauth, hreg⟩

/-- With the sample image in slot B, that slot is jumped to. -/
theorem jump_authentic_textbook : ∃ mem Q,
    build (factoryArgs textbookImage (some textbookImage) true 0) = some mem ∧
      (main (onFlash Hw textbookStore) ⟨.reset mem, .zero⟩).1 = .jump slotBAddr ∧
      Authentic Q (byte (main (onFlash Hw textbookStore) ⟨.reset mem, .zero⟩).2.dev) slotBAddr := by
  obtain ⟨mem, hm, -⟩ := exists_factory textbookImage (some textbookImage) true 0
  have hF := factory_of_build hm
  have hj : (main (onFlash Hw textbookStore) ⟨.reset mem, .zero⟩).1 = .jump slotBAddr := by
    obtain ⟨slotAddr, hj⟩ := hF.exists_jump
    rcases main_jump_cases hj with rfl | rfl
    · exact absurd ((hF.jump_slotA_iff textbookImage rfl).1 hj)
        (show ¬(0 : UInt8) ≥ maxBootAttempts by decide)
    · exact hj
  obtain ⟨hG, hneg⟩ := textbookKey_ne_base
  obtain ⟨Q, -, -, -, hauth⟩ := jump_authentic textbookKey.length_publicKey hG hneg hF.powered hj
  exact ⟨mem, Q, hm, hj, hauth rfl⟩

end DualBank
