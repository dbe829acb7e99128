import DualBank.Ecc.Order

/-!
# Key pairs

Public keys as byte strings, and what the verifier says to the holder of the private key.
-/

namespace DualBank.UECC

open Lib WeierstrassCurve

/-- A point as `X || Y`, which is what `embed_pubkey.py` writes. -/
def keyBytes : curve.Point → List UInt8
  | .zero => []
  | .some x y _ => beBytes 32 x.val ++ beBytes 32 y.val

theorem prime_lt_bytes : prime < 256 ^ 32 := by decide

theorem val_lt_bytes (x : ZMod prime) : x.val < 256 ^ 32 :=
  Nat.lt_trans (ZMod.val_lt x) prime_lt_bytes

theorem holds_beBytes (x : ZMod prime) : Holds (vliBytesToNative (beBytes 32 x.val)) x := by
  have hval : (vliBytesToNative (beBytes 32 x.val)).toNat = x.val := by
    rw [toNat_vliBytesToNative (length_beBytes 32 _).le, beNat_beBytes_of_lt (val_lt_bytes x)]
  constructor
  · rw [hval]
    exact ZMod.val_lt x
  · rw [hval, ZMod.natCast_zmod_val]

theorem length_keyBytes {Q : curve.Point} (hQ : Q ≠ 0) : (keyBytes Q).length = 64 := by
  cases Q with
  | zero => exact absurd rfl hQ
  | some x y h => rw [keyBytes, List.length_append, length_beBytes, length_beBytes]

/-- The verifier reads the point back. -/
theorem is_keyBytes {Q : curve.Point} (hQ : Q ≠ 0) : (publicPoint (keyBytes Q)).Is Q := by
  cases Q with
  | zero => exact absurd rfl hQ
  | some x y h =>
      refine ⟨x, y, h, rfl, ?_, ?_⟩
      · rw [publicPoint, keyBytes, List.take_left' (length_beBytes 32 _)]
        exact holds_beBytes x
      · rw [publicPoint, keyBytes, List.drop_left' (length_beBytes 32 _),
          List.take_of_length_le (Nat.le_of_eq (length_beBytes 32 _))]
        exact holds_beBytes y

/-- Bytes that are read as the coordinates of a point are the point's bytes. -/
theorem eq_keyBytes {publicKey : List UInt8} (hlen : publicKey.length = 64) {Q : curve.Point}
    (h : (publicPoint publicKey).Is Q) : publicKey = keyBytes Q := by
  obtain ⟨x, y, hxy, rfl, hx, hy⟩ := h
  have hback : ∀ {bytes : List UInt8} {c : ZMod prime}, bytes.length = 32 →
      Holds (vliBytesToNative bytes) c → beBytes 32 c.val = bytes := by
    intro bytes c hbytes hc
    rw [← hc.toNat_eq, toNat_vliBytesToNative hbytes.le, ← hbytes, beBytes_beNat]
  have hdrop : (publicKey.drop 32).length = 32 := by rw [List.length_drop, hlen]
  rw [publicPoint, List.take_of_length_le hdrop.le] at hy
  rw [keyBytes, hback (by rw [List.length_take, hlen]; rfl) hx, hback hdrop hy,
    List.take_append_drop]

theorem keyBytes_injective : Function.Injective keyBytes := by
  intro P Q h
  by_cases hP : P = 0
  · by_contra hne
    have hlen := length_keyBytes (Ne.symm (hP ▸ hne) : Q ≠ 0)
    rw [← h, hP] at hlen
    cases hlen
  by_cases hQ : Q = 0
  · have hlen := length_keyBytes hP
    rw [h, hQ] at hlen
    cases hlen
  exact (is_keyBytes hP).unique (h ▸ is_keyBytes hQ)

theorem basePoint_ne_zero : basePoint ≠ 0 := is_basePoint.ne_zero

/-- `uECC_valid_public_key` accepts exactly the strings of the points of the curve. -/
theorem validPublicKey_eq_one_iff {publicKey : List UInt8} (hlen : publicKey.length = 64) :
    validPublicKey publicKey = 1 ↔ ∃ Q : curve.Point, Q ≠ 0 ∧ publicKey = keyBytes Q := by
  rw [validPublicKey, validPoint_eq_one_iff]
  constructor
  · rintro ⟨Q, hQ⟩
    exact ⟨Q, hQ.ne_zero, eq_keyBytes hlen hQ⟩
  · rintro ⟨Q, hQ, rfl⟩
    exact ⟨Q, is_keyBytes hQ⟩

/-- The string of the base point is accepted. -/
theorem validPublicKey_basePoint : validPublicKey (keyBytes basePoint) = 1 :=
  (validPublicKey_eq_one_iff (length_keyBytes basePoint_ne_zero)).2
    ⟨basePoint, basePoint_ne_zero, rfl⟩

/-- **The verifier.**  Under every key that passes its check, other than `G` and its opposite,
`uECC_verify` accepts the valid signatures of ECDSA whose double multiplication meets no
exceptional point, and nothing else. -/
theorem verify_eq_one_iff_valid {publicKey : List UInt8} (hlen : publicKey.length = 64)
    (hvalid : validPublicKey publicKey = 1) (hG : publicKey ≠ keyBytes basePoint)
    (hneg : publicKey ≠ keyBytes (-basePoint)) :
    ∃ Q : curve.Point, Q ≠ 0 ∧ publicKey = keyBytes Q ∧ ∀ messageHash signature : List UInt8,
      (verify publicKey messageHash signature = 1 ↔
        EcdsaValid curveOrder xCoord basePoint Q (hashNat messageHash) (sigR signature)
            (sigS signature) ∧
          ShamirRegular basePoint Q
            (ecdsaMultiplier curveOrder (hashNat messageHash) (sigS signature))
            (ecdsaMultiplier curveOrder (sigR signature) (sigS signature))) := by
  obtain ⟨Q, hQ⟩ := validPoint_eq_one_iff.1 hvalid
  have hkey := eq_keyBytes hlen hQ
  refine ⟨Q, hQ.ne_zero, hkey, fun messageHash signature ↦ verify_iff hQ ?_ ?_⟩
  · rintro rfl
    exact hG hkey
  · rintro rfl
    exact hneg hkey

/-! ## Private keys -/

theorem xCoord_zero : xCoord 0 = none := rfl

/-- A private key, other than the two whose public keys have the `x` coordinate of `G`. -/
structure PrivateKey where
  d : Nat
  one_lt : 1 < d
  lt_pred : d < curveOrder - 1

namespace PrivateKey

variable (key : PrivateKey)

def point : curve.Point := key.d • basePoint

theorem point_ne_zero : key.point ≠ 0 := by
  have hlo := key.one_lt
  have hhi := key.lt_pred
  rw [point, ne_eq, nsmul_eq_zero_iff order_basePoint basePoint_ne_zero,
    Nat.mod_eq_of_lt (by omega)]
  omega

theorem point_ne_base : key.point ≠ basePoint := by
  have hlo := key.one_lt
  have hhi := key.lt_pred
  intro h
  have hone : key.d • basePoint = 1 • basePoint := h.trans (one_nsmul _).symm
  rw [nsmul_eq_iff order_basePoint basePoint_ne_zero, Nat.mod_eq_of_lt (by omega),
    Nat.mod_eq_of_lt (by omega)] at hone
  omega

theorem point_ne_neg : key.point ≠ -basePoint := by
  have hlo := key.one_lt
  have hhi := key.lt_pred
  rw [point, ne_eq, eq_neg_iff_add_eq_zero, ← succ_nsmul,
    nsmul_eq_zero_iff order_basePoint basePoint_ne_zero, Nat.mod_eq_of_lt (by omega)]
  omega

/-- The public key as it is embedded. -/
def publicKey : List UInt8 := keyBytes key.point

theorem length_publicKey : key.publicKey.length = 64 := length_keyBytes key.point_ne_zero

theorem validPublicKey_publicKey : validPublicKey key.publicKey = 1 :=
  validPoint_eq_one_iff.2 ⟨_, is_keyBytes key.point_ne_zero⟩

/-- The multiplication of the verifier meets no exceptional point. -/
def Regular (e r s : Nat) : Prop :=
  ScalarRegular curveOrder key.d (ecdsaMultiplier curveOrder e s) (ecdsaMultiplier curveOrder r s)

/-- `uECC_verify` under the key: the signatures of the scheme, as far as the multiplication
gets through. -/
theorem verify_eq_one_iff {messageHash signature : List UInt8} :
    verify key.publicKey messageHash signature = 1 ↔
      (∃ k, EcdsaSigned curveOrder xCoord basePoint key.d k (hashNat messageHash) (sigR signature)
          (sigS signature)) ∧
        key.Regular (hashNat messageHash) (sigR signature) (sigS signature) := by
  rw [publicKey, verify_iff (is_keyBytes key.point_ne_zero) key.point_ne_base key.point_ne_neg,
    point, ecdsaValid_iff_signed xCoord_zero order_basePoint,
    shamirRegular_iff order_basePoint basePoint_ne_zero]
  exact Iff.rfl

end PrivateKey

/-- A sample key. -/
def textbookKey : PrivateKey := ⟨2, by decide, by decide⟩

theorem textbookKey_ne_base : textbookKey.publicKey ≠ keyBytes basePoint ∧
    textbookKey.publicKey ≠ keyBytes (-basePoint) :=
  ⟨fun h ↦ textbookKey.point_ne_base (keyBytes_injective h),
    fun h ↦ textbookKey.point_ne_neg (keyBytes_injective h)⟩

end DualBank.UECC
