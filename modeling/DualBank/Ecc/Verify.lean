import DualBank.Ecc.Point
import DualBank.Lib.Shamir

/-!
# Verification of a signature

`uECC_valid_public_key` and `uECC_verify` for `uECC_secp256r1()`, over byte strings as
`crypto.c` calls them.
-/

namespace DualBank.UECC

open Lib

/-! ## Bytes -/

/-- `native[b / 4] |= byte << (8 * (b % 4))`. -/
def vliOrByte {n : Nat} (native : Vli n) (b : Nat) (byte : UInt8) : Vli n :=
  ⟨native.words.set (b / 4)
      (native.words.getD (b / 4) 0 ||| byte.toUInt32 <<< UInt32.ofNat (8 * (b % 4))),
    List.length_set.trans native.length_words⟩

/-- The loop of `uECC_vli_bytesToNative`: the byte in front of `rest` goes to position
`rest.length`. -/
def bytesToNativeLoop {n : Nat} : List UInt8 → Vli n → Vli n
  | [], native => native
  | byte :: rest, native => bytesToNativeLoop rest (vliOrByte native rest.length byte)

/-- `uECC_vli_bytesToNative`. -/
def vliBytesToNative (bytes : List UInt8) : Vli 8 := bytesToNativeLoop bytes (vliClear 8)

/-- `bits2int`, for an order of 256 bits: 32 bytes never have more bits than the order. -/
def bits2int (bits : List UInt8) : Vli 8 := vliBytesToNative (bits.take 32)

/-- One byte goes into a place that is still zero. -/
theorem toNat_vliOrByte {n : Nat} {a : Vli n} {b : Nat} (hb : b < 4 * n)
    (ha : 256 ^ (b + 1) ∣ a.toNat) (byte : UInt8) :
    (vliOrByte a b byte).toNat = a.toNat + byte.toNat * 256 ^ b := by
  have hset := wordsToNat_set a.words (k := b / 4) (by rw [a.length_words]; omega)
    (a.words.getD (b / 4) 0 ||| byte.toUInt32 <<< UInt32.ofNat (8 * (b % 4)))
  have hbyte : byte.toNat < 2 ^ 8 := byte.toNat_lt
  have hshift : (byte.toUInt32 <<< UInt32.ofNat (8 * (b % 4))).toNat =
      byte.toNat * 2 ^ (8 * (b % 4)) := by
    have hlt : byte.toNat * 2 ^ (8 * (b % 4)) < 2 ^ 32 := by
      calc byte.toNat * 2 ^ (8 * (b % 4)) < 2 ^ 8 * 2 ^ (8 * (b % 4)) :=
            Nat.mul_lt_mul_of_pos_right hbyte (Nat.two_pow_pos _)
        _ = 2 ^ (8 + 8 * (b % 4)) := (pow_add ..).symm
        _ ≤ 2 ^ 32 := Nat.pow_le_pow_right (by norm_num) (by omega)
    rw [UInt32.toNat_shiftLeft, UInt32.toNat_ofNat',
      show 8 * (b % 4) % 2 ^ 32 % 32 = 8 * (b % 4) by omega, Nat.shiftLeft_eq,
      UInt8.toNat_toUInt32, Nat.mod_eq_of_lt hlt]
  have hsplit : 256 ^ b = 2 ^ (32 * (b / 4)) * 2 ^ (8 * (b % 4)) := by
    rw [show (256 : Nat) = 2 ^ 8 by norm_num, ← pow_mul, ← pow_add]
    congr 1
    omega
  -- below the byte above, the word is zero
  have hword : 2 ^ (8 * (b % 4) + 8) ∣ (a.words.getD (b / 4) 0).toNat := by
    rw [getD_toNat]
    obtain ⟨c, hc⟩ := ha
    have hval : wordsToNat a.words = 2 ^ (32 * (b / 4)) * (2 ^ (8 * (b % 4) + 8) * c) := by
      refine hc.trans ?_
      rw [pow_succ, hsplit, pow_add]
      ring
    rw [hval, Nat.mul_div_cancel_left _ (Nat.two_pow_pos _), Nat.dvd_mod_iff]
    · exact Nat.dvd_mul_right _ _
    · exact Nat.pow_dvd_pow 2 (by omega)
  have hor : (a.words.getD (b / 4) 0 ||| byte.toUInt32 <<< UInt32.ofNat (8 * (b % 4))).toNat =
      (a.words.getD (b / 4) 0).toNat + byte.toNat * 2 ^ (8 * (b % 4)) := by
    obtain ⟨c, hc⟩ := hword
    rw [UInt32.toNat_or, hshift, hc]
    have hsmall : byte.toNat * 2 ^ (8 * (b % 4)) < 2 ^ (8 * (b % 4) + 8) := by
      rw [pow_add, Nat.mul_comm]
      exact Nat.mul_lt_mul_of_pos_left hbyte (Nat.two_pow_pos _)
    exact (Nat.two_pow_add_eq_or_of_lt hsmall c).symm
  rw [hor] at hset
  refine Nat.add_right_cancel (m := (a.words.getD (b / 4) 0).toNat * 2 ^ (32 * (b / 4)))
    (hset.trans ?_)
  rw [Vli.toNat, hsplit]
  ring

theorem toNat_bytesToNativeLoop {n : Nat} {bytes : List UInt8} {a : Vli n}
    (hlen : bytes.length ≤ 4 * n) (ha : 256 ^ bytes.length ∣ a.toNat) :
    (bytesToNativeLoop bytes a).toNat = a.toNat + beNat bytes := by
  induction bytes generalizing a with
  | nil => rfl
  | cons byte rest ih =>
      rw [List.length_cons] at hlen ha
      have hbyte := toNat_vliOrByte (by omega) ha byte
      have hnext : 256 ^ rest.length ∣ (vliOrByte a rest.length byte).toNat := by
        rw [hbyte]
        exact Nat.dvd_add ((Nat.pow_dvd_pow 256 (Nat.le_succ _)).trans ha) (Nat.dvd_mul_left _ _)
      rw [bytesToNativeLoop, ih (by omega) hnext, hbyte, beNat, Nat.add_assoc]

/-- Up to 32 bytes are read as a big-endian number. -/
theorem toNat_vliBytesToNative {bytes : List UInt8} (hlen : bytes.length ≤ 32) :
    (vliBytesToNative bytes).toNat = beNat bytes := by
  have h := toNat_bytesToNativeLoop (a := vliClear 8) hlen
    (by rw [toNat_vliClear]; exact dvd_zero _)
  rw [toNat_vliClear, Nat.zero_add] at h
  exact h

/-! ## The public key -/

/-- `x_side_default`: `x^3 - 3 * x + b`. -/
def xSideDefault (x : Vli 8) : Vli 8 :=
  let _3 := vliOfWords 3 0 0 0 0 0 0 0
  let result := vliModSquareFast x
  let result := vliModSub result _3 curveP
  let result := vliModMultFast result x
  vliModAdd result curveB curveP

/-- `uECC_valid_point`. -/
def validPoint (point : EccPoint) : Int :=
  if vliIsZero (.join point.x point.y) then 0
  else if vliCmpUnsafe curveP point.x ≠ 1 ∨ vliCmpUnsafe curveP point.y ≠ 1 then 0
  else
    let tmp1 := vliModSquareFast point.y
    let tmp2 := xSideDefault point.x
    if vliEqual tmp1 tmp2 then 1 else 0

/-- `_public` from the 64 bytes of a key. -/
def publicPoint (publicKey : List UInt8) : EccPoint where
  x := vliBytesToNative (publicKey.take 32)
  y := vliBytesToNative ((publicKey.drop 32).take 32)

/-- `uECC_valid_public_key`. -/
def validPublicKey (publicKey : List UInt8) : Int := validPoint (publicPoint publicKey)

/-! ## The signature -/

/-- `points`: nothing, `G`, the key, and their sum. -/
def shamirPoints (pub sum : EccPoint) : List (Option EccPoint) :=
  [none, some curveG, some pub, some sum]

/-- `(!!uECC_vli_testBit(u1, i)) | ((!!uECC_vli_testBit(u2, i)) << 1)`. -/
def shamirIndex (u1 u2 : Vli 8) (i : Nat) : Nat :=
  (vliTestBit u1 i).toNat ||| (vliTestBit u2 i).toNat <<< 1

/-- One turn of the loop of `uECC_verify`: `rx`, `ry` and `z`. -/
def shamirStep (points : List (Option EccPoint)) (u1 u2 : Vli 8) (i : Nat)
    (st : EccPoint × Vli 8) : EccPoint × Vli 8 :=
  let st := doubleJacobianDefault st.1 st.2
  match points.getD (shamirIndex u1 u2 i) none with
  | none => st
  | some point =>
      let t := applyZ point st.2
      let tz := vliModSub st.1.x t.x curveP
      ((xYcZAdd t st.1).2.1, vliModMultFast st.2 tz)

/-- The loop of `uECC_verify`, from `i = count - 1` down to `0`. -/
def shamirLoop (points : List (Option EccPoint)) (u1 u2 : Vli 8) :
    Nat → EccPoint × Vli 8 → EccPoint × Vli 8
  | 0, st => st
  | i + 1, st => shamirLoop points u1 u2 i (shamirStep points u1 u2 i st)

/-- `sum = G + Q`. -/
def sumPoint (pub : EccPoint) : EccPoint :=
  let z := vliModSub pub.x curveG.x curveP
  let sum := (xYcZAdd curveG pub).2.1
  let z := vliModInv z curveP
  applyZ sum z

/-- The double multiplication of `uECC_verify` up to the affine `x` coordinate.  The top bits
always select a point. -/
def shamirX (pub : EccPoint) (u1 u2 : Vli 8) : Vli 8 :=
  let points := shamirPoints pub (sumPoint pub)
  let numBits := max (vliNumBits u1) (vliNumBits u2)
  let point := (points.getD (shamirIndex u1 u2 (numBits - 1)) none).getD curveG
  let st := shamirLoop points u1 u2 (numBits - 1) (point, vliOne 8)
  let z := vliModInv st.2 curveP
  (applyZ st.1 z).x

/-- `uECC_verify`. -/
def verify (publicKey messageHash signature : List UInt8) : Int :=
  let pub := publicPoint publicKey
  let r := vliBytesToNative (signature.take 32)
  let s := vliBytesToNative ((signature.drop 32).take 32)
  if vliIsZero r ∨ vliIsZero s then 0
  else if vliCmpUnsafe curveN r ≠ 1 ∨ vliCmpUnsafe curveN s ≠ 1 then 0
  else
    let z := vliModInv s curveN
    let u1 := bits2int messageHash
    let u1 := vliModMult u1 z curveN
    let u2 := vliModMult r z curveN
    let rx := shamirX pub u1 u2
    let rx := if vliCmpUnsafe curveN rx ≠ 1 then (vliSub rx curveN).1 else rx
    if vliEqual rx r then 1 else 0

end DualBank.UECC
