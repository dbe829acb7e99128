import DualBank.Tools.Signing

/-!
# Malleability

With a signature `(r, s)` the library also accepts `(r, n - s)`.  The check for low
signatures admits one of the two, and so `flip_s_to_malleable` of
`tests/test_signature.c` turns every signature it admits into one that it refuses.
-/

namespace DualBank

open Lib

/-- Every signature is the encoding of its halves. -/
theorem rawSignature_halves {sig : List UInt8} (h : sig.length = firmwareSignatureSize) :
    rawSignature (beNat (sig.take 32)) (beNat (sig.drop 32)) = sig := by
  have htake : (sig.take 32).length = 32 := by
    rw [List.length_take, h]
    rfl
  have hdrop : (sig.drop 32).length = 32 := by
    rw [List.length_drop, h]
    rfl
  have hr := beBytes_beNat (sig.take 32)
  have hs := beBytes_beNat (sig.drop 32)
  rw [htake] at hr
  rw [hdrop] at hs
  rw [rawSignature, hr, hs, List.take_append_drop]

/-- **No malleability.**  The check admits a signature exactly where `r` is not zero and `s`
lies between one and half the order; of a signature and the one with `s` negated it admits
exactly one. -/
theorem low_s_exact :
    (∀ sig : List UInt8, sig.length = firmwareSignatureSize →
      (isCanonicalLowS sig = true ↔ beNat (sig.take 32) ≠ 0 ∧ 0 < beNat (sig.drop 32) ∧
        beNat (sig.drop 32) ≤ (curveOrder - 1) / 2)) ∧
    ∀ r s, r ≠ 0 → r < 256 ^ 32 → 0 < s → s < curveOrder →
      Xor (isCanonicalLowS (rawSignature r s) = true)
        (isCanonicalLowS (rawSignature r (curveOrder - s)) = true) := by
  constructor
  · intro sig hlen
    exact isCanonicalLowS_iff hlen
  · intro r s hr hr' hs hs'
    have horder := curveOrder_lt
    have hodd := curveOrder_odd
    rw [isCanonicalLowS_rawSignature hr hr' hs (by omega),
      isCanonicalLowS_rawSignature hr hr' (by omega) (by omega)]
    -- the order is odd, so one of the two is above half of it and the other one is not
    rcases Nat.lt_or_ge ((curveOrder - 1) / 2) s with hlt | hge
    · exact .inr ⟨by omega, by omega⟩
    · exact .inl ⟨hge, by omega⟩

/-- The signature `(1, 1)`, whose `s` is low. -/
theorem low_s_exact_one : isCanonicalLowS (rawSignature 1 1) = true ∧
    Xor (isCanonicalLowS (rawSignature 1 1) = true)
      (isCanonicalLowS (rawSignature 1 (curveOrder - 1)) = true) :=
  ⟨(low_s_exact.1 _ (length_rawSignature 1 1)).2 (by decide +kernel),
    low_s_exact.2 1 1 (by decide) (by decide) (by decide) (by decide)⟩

/-! ## The test -/

/-- The table `n` of `flip_s_to_malleable`. -/
def curveOrderBytes : List UInt8 := [
  0xFF, 0xFF, 0xFF, 0xFF, 0x00, 0x00, 0x00, 0x00, 0xFF, 0xFF, 0xFF, 0xFF, 0xFF, 0xFF, 0xFF, 0xFF,
  0xBC, 0xE6, 0xFA, 0xAD, 0xA7, 0x17, 0x9E, 0x84, 0xF3, 0xB9, 0xCA, 0xC2, 0xFC, 0x63, 0x25, 0x51]

/-- `flip_s_to_malleable`, on the signature field. -/
def flipSToMalleable (sig : List UInt8) : List UInt8 :=
  sig.take 32 ++ (subtract curveOrderBytes (sig.drop 32)).1

theorem beNat_curveOrderBytes : beNat curveOrderBytes = curveOrder := by decide +kernel

/-- The test negates `s`. -/
theorem flipSToMalleable_rawSignature {r s : Nat} (hs : s < curveOrder) :
    flipSToMalleable (rawSignature r s) = rawSignature r (curveOrder - s) := by
  have hs' : beNat (beBytes 32 s) = s := beNat_beBytes_of_lt (Nat.lt_trans hs curveOrder_lt)
  have hlen : curveOrderBytes.length = (beBytes 32 s).length := (length_beBytes 32 s).symm
  rw [flipSToMalleable, take_rawSignature, drop_rawSignature, subtract_eq_beBytes hlen (by
    rw [hs', beNat_curveOrderBytes]
    exact Nat.le_of_lt hs), hs', beNat_curveOrderBytes]
  rfl

/-- What the test makes of a signature that is admitted is refused. -/
theorem flipSToMalleable_refused {sig : List UInt8} (h : sig.length = firmwareSignatureSize)
    (hlow : isCanonicalLowS sig = true) : isCanonicalLowS (flipSToMalleable sig) = false := by
  have horder := curveOrder_lt
  have hodd := curveOrder_odd
  have hr' : beNat (sig.take 32) < 256 ^ 32 := by
    have hlt := beNat_lt (sig.take 32)
    rwa [List.length_take, h] at hlt
  obtain ⟨hr, hs, hle⟩ := (isCanonicalLowS_iff h).1 hlow
  rw [← rawSignature_halves h, flipSToMalleable_rawSignature (by omega)]
  refine Bool.eq_false_iff.2 fun hflip ↦ ?_
  rw [isCanonicalLowS_rawSignature hr hr' (by omega) (by omega)] at hflip
  omega

end DualBank
