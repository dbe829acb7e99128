import Mathlib.Tactic.IntervalCases
import Mathlib.Tactic.LinearCombination
import DualBank.Ecc.Reduce

/-!
# Reduction modulo the prime of the curve

`vli_mmod_fast_secp256r1` of `third_party/micro-ecc/curve-specific.inc`: the upper words of a
product are added to and subtracted from the lower ones in eight terms, and the signed
carry is then brought back by the prime.
-/

namespace DualBank.UECC

open Lib

/-- Eight words, the least significant one first. -/
def vliOfWords (w0 w1 w2 w3 w4 w5 w6 w7 : UInt32) : Vli 8 := ⟨[w0, w1, w2, w3, w4, w5, w6, w7], rfl⟩

/-- `curve_secp256r1.p`. -/
def curveP : Vli 8 :=
  vliOfWords 0xFFFFFFFF 0xFFFFFFFF 0xFFFFFFFF 0x00000000 0x00000000 0x00000000 0x00000001 0xFFFFFFFF

/-- The prime of the curve. -/
def prime : Nat := 0xFFFFFFFF00000001000000000000000000000000FFFFFFFFFFFFFFFFFFFFFFFF

theorem toNat_curveP : curveP.toNat = prime := rfl

/-- `do carry += uECC_vli_add(result, result, p); while (carry < 0)`, with a bound on its
turns. -/
def addPrimeLoop : Nat → Int → Vli 8 → Int × Vli 8
  | 0, carry, result => (carry, result)
  | turns + 1, carry, result =>
      let sum := vliAdd result curveP
      let carry := carry + sum.2.toNat
      if carry < 0 then addPrimeLoop turns carry sum.1 else (carry, sum.1)

/-- `while (carry || p <= result) carry -= uECC_vli_sub(result, result, p)`, with a bound on
its turns. -/
def subPrimeLoop : Nat → Int → Vli 8 → Int × Vli 8
  | 0, carry, result => (carry, result)
  | turns + 1, carry, result =>
      if carry ≠ 0 ∨ vliCmpUnsafe curveP result ≠ 1 then
        let diff := vliSub result curveP
        subPrimeLoop turns (carry - diff.2.toNat) diff.1
      else (carry, result)

/-- The eight terms added to and subtracted from the low half: the signed carry and the
words. -/
def foldTerms (product : Vli (2 * 8)) : Int × Vli 8 :=
  let w := fun i ↦ product.words.getD i 0
  let result := product.low
  -- s1
  let tmp := vliOfWords 0 0 0 (w 11) (w 12) (w 13) (w 14) (w 15)
  let twice := vliAdd tmp tmp
  let carry : Int := twice.2.toNat
  let sum := vliAdd result twice.1
  let carry := carry + sum.2.toNat
  -- s2, over the three low words that s1 left
  let t := fun i ↦ twice.1.words.getD i 0
  let tmp := vliOfWords (t 0) (t 1) (t 2) (w 12) (w 13) (w 14) (w 15) 0
  let twice := vliAdd tmp tmp
  let carry := carry + twice.2.toNat
  let sum := vliAdd sum.1 twice.1
  let carry := carry + sum.2.toNat
  -- s3
  let sum := vliAdd sum.1 (vliOfWords (w 8) (w 9) (w 10) 0 0 0 (w 14) (w 15))
  let carry := carry + sum.2.toNat
  -- s4
  let sum := vliAdd sum.1 (vliOfWords (w 9) (w 10) (w 11) (w 13) (w 14) (w 15) (w 13) (w 8))
  let carry := carry + sum.2.toNat
  -- d1
  let diff := vliSub sum.1 (vliOfWords (w 11) (w 12) (w 13) 0 0 0 (w 8) (w 10))
  let carry := carry - diff.2.toNat
  -- d2
  let diff := vliSub diff.1 (vliOfWords (w 12) (w 13) (w 14) (w 15) 0 0 (w 9) (w 11))
  let carry := carry - diff.2.toNat
  -- d3
  let diff := vliSub diff.1 (vliOfWords (w 13) (w 14) (w 15) (w 8) (w 9) (w 10) 0 (w 12))
  let carry := carry - diff.2.toNat
  -- d4
  let diff := vliSub diff.1 (vliOfWords (w 14) (w 15) 0 (w 9) (w 10) (w 11) 0 (w 13))
  let carry := carry - diff.2.toNat
  (carry, diff.1)

/-- `vli_mmod_fast_secp256r1`.  Neither loop takes more than eight turns. -/
def vliMmodFastSecp256r1 (product : Vli (2 * 8)) : Vli 8 :=
  let st := foldTerms product
  if st.1 < 0 then (addPrimeLoop 8 st.1 st.2).2 else (subPrimeLoop 8 st.1 st.2).2

/-- The number that the signed carry and the words stand for. -/
def carried (st : Int × Vli 8) : Int := st.2.toNat + 2 ^ 256 * st.1

/-- The value of eight words. -/
theorem toNat_vliOfWords (w0 w1 w2 w3 w4 w5 w6 w7 : UInt32) :
    ((vliOfWords w0 w1 w2 w3 w4 w5 w6 w7).toNat : Int) =
      w0.toNat + 2 ^ 32 * w1.toNat + 2 ^ 64 * w2.toNat + 2 ^ 96 * w3.toNat + 2 ^ 128 * w4.toNat +
        2 ^ 160 * w5.toNat + 2 ^ 192 * w6.toNat + 2 ^ 224 * w7.toNat := by
  simp only [Vli.toNat, vliOfWords, wordsToNat_cons, wordsToNat_nil]
  push_cast
  ring

/-- Words and value of a product. -/
theorem toNat_product (product : Vli (2 * 8)) :
    ((product.toNat : Int) = product.low.toNat + 2 ^ 256 *
      (vliOfWords (product.words.getD 8 0) (product.words.getD 9 0) (product.words.getD 10 0)
        (product.words.getD 11 0) (product.words.getD 12 0) (product.words.getD 13 0)
        (product.words.getD 14 0) (product.words.getD 15 0)).toNat) := by
  have hhigh : product.high = vliOfWords (product.words.getD 8 0) (product.words.getD 9 0)
      (product.words.getD 10 0) (product.words.getD 11 0) (product.words.getD 12 0)
      (product.words.getD 13 0) (product.words.getD 14 0) (product.words.getD 15 0) := by
    have hlen := product.length_words
    rw [Vli.high, vliOfWords, Vli.mk.injEq]
    refine List.ext_getElem (length_drop_half product) fun i h₁ h₂ ↦ ?_
    have hi : i < 8 := h₂
    rw [List.getElem_drop]
    interval_cases i <;> simp [List.getD_eq_getElem?_getD, hlen]
  rw [← hhigh, ← product.low_add_high]
  push_cast
  ring

/-- The upper half of a product as eight words. -/
def upper (product : Vli (2 * 8)) (i : Nat) : Int := (product.words.getD (8 + i) 0).toNat

theorem vliAdd_int (a b : Vli 8) :
    ((vliAdd a b).1.toNat : Int) + 2 ^ 256 * (vliAdd a b).2.toNat = a.toNat + b.toNat := by
  exact_mod_cast (vliAdd_spec a b).1

theorem vliSub_int (a b : Vli 8) :
    ((vliSub a b).1.toNat : Int) - 2 ^ 256 * (vliSub a b).2.toNat = a.toNat - b.toNat := by
  have h : ((vliSub a b).1.toNat : Int) + b.toNat = a.toNat + 2 ^ 256 * (vliSub a b).2.toNat := by
    exact_mod_cast (vliSub_spec a b).1
  linear_combination h

/-- The carry and the words stand for the low half with the eight terms added and
subtracted. -/
theorem carried_foldTerms (product : Vli (2 * 8)) :
    let w := fun i ↦ product.words.getD i 0
    carried (foldTerms product) = product.low.toNat +
      2 * (vliOfWords 0 0 0 (w 11) (w 12) (w 13) (w 14) (w 15)).toNat +
      2 * (vliOfWords 0 0 0 (w 12) (w 13) (w 14) (w 15) 0).toNat +
      (vliOfWords (w 8) (w 9) (w 10) 0 0 0 (w 14) (w 15)).toNat +
      (vliOfWords (w 9) (w 10) (w 11) (w 13) (w 14) (w 15) (w 13) (w 8)).toNat -
      (vliOfWords (w 11) (w 12) (w 13) 0 0 0 (w 8) (w 10)).toNat -
      (vliOfWords (w 12) (w 13) (w 14) (w 15) 0 0 (w 9) (w 11)).toNat -
      (vliOfWords (w 13) (w 14) (w 15) (w 8) (w 9) (w 10) 0 (w 12)).toNat -
      (vliOfWords (w 14) (w 15) 0 (w 9) (w 10) (w 11) 0 (w 13)).toNat := by
  intro w
  have hlow : ∀ i < 3, (vliAdd (vliOfWords 0 0 0 (w 11) (w 12) (w 13) (w 14) (w 15))
      (vliOfWords 0 0 0 (w 11) (w 12) (w 13) (w 14) (w 15))).1.words.getD i 0 = 0 := by
    intro i hi
    interval_cases i <;> rfl
  unfold foldTerms carried
  dsimp only
  rw [hlow 0 (by norm_num), hlow 1 (by norm_num), hlow 2 (by norm_num)]
  generalize vliOfWords 0 0 0 (w 11) (w 12) (w 13) (w 14) (w 15) = s1
  generalize vliOfWords 0 0 0 (w 12) (w 13) (w 14) (w 15) 0 = s2
  generalize vliOfWords (w 8) (w 9) (w 10) 0 0 0 (w 14) (w 15) = s3
  generalize vliOfWords (w 9) (w 10) (w 11) (w 13) (w 14) (w 15) (w 13) (w 8) = s4
  generalize vliOfWords (w 11) (w 12) (w 13) 0 0 0 (w 8) (w 10) = d1
  generalize vliOfWords (w 12) (w 13) (w 14) (w 15) 0 0 (w 9) (w 11) = d2
  generalize vliOfWords (w 13) (w 14) (w 15) (w 8) (w 9) (w 10) 0 (w 12) = d3
  generalize vliOfWords (w 14) (w 15) 0 (w 9) (w 10) (w 11) 0 (w 13) = d4
  have h1 := vliAdd_int s1 s1
  have h2 := vliAdd_int s2 s2
  generalize vliAdd s1 s1 = twice1 at *
  generalize vliAdd s2 s2 = twice2 at *
  have h3 := vliAdd_int product.low twice1.1
  generalize vliAdd product.low twice1.1 = r1 at *
  have h4 := vliAdd_int r1.1 twice2.1
  generalize vliAdd r1.1 twice2.1 = r2 at *
  have h5 := vliAdd_int r2.1 s3
  generalize vliAdd r2.1 s3 = r3 at *
  have h6 := vliAdd_int r3.1 s4
  generalize vliAdd r3.1 s4 = r4 at *
  have h7 := vliSub_int r4.1 d1
  generalize vliSub r4.1 d1 = r5 at *
  have h8 := vliSub_int r5.1 d2
  generalize vliSub r5.1 d2 = r6 at *
  have h9 := vliSub_int r6.1 d3
  generalize vliSub r6.1 d3 = r7 at *
  have h10 := vliSub_int r7.1 d4
  linear_combination h1 + h2 + h3 + h4 + h5 + h6 + h7 + h8 + h9 + h10

/-- The eight terms change the product by a multiple of the prime. -/
theorem carried_congr (product : Vli (2 * 8)) :
    ∃ q : Int, carried (foldTerms product) = product.toNat - prime * q := by
  have hfold := carried_foldTerms product
  have hprod := toNat_product product
  simp only [toNat_vliOfWords, UInt32.toNat_zero] at hfold hprod
  refine ⟨upper product 0 + 0x100000001 * upper product 1 +
    0x10000000100000000 * upper product 2 + 0x100000000ffffffffffffffff * upper product 3 +
    0x100000000fffffffffffffffeffffffff * upper product 4 +
    0x100000000fffffffffffffffefffffffeffffffff * upper product 5 +
    0x100000000fffffffffffffffefffffffefffffffeffffffff * upper product 6 +
    0x100000000fffffffffffffffefffffffefffffffeffffffff00000000 * upper product 7, ?_⟩
  simp only [upper, prime]
  rw [hfold, hprod]
  push_cast
  ring

theorem vli_range (a : Vli 8) : (0 : Int) ≤ a.toNat ∧ (a.toNat : Int) < 2 ^ 256 :=
  ⟨Int.natCast_nonneg _, by exact_mod_cast a.toNat_lt⟩

/-- Four terms of eight words up, two of them twice, and four down. -/
theorem terms_range (l s1 s2 s3 s4 d1 d2 d3 d4 : Vli 8) :
    -((8 : Nat) : Int) * prime ≤ (l.toNat : Int) + 2 * s1.toNat + 2 * s2.toNat + s3.toNat +
        s4.toNat - d1.toNat - d2.toNat - d3.toNat - d4.toNat ∧
      (l.toNat : Int) + 2 * s1.toNat + 2 * s2.toNat + s3.toNat + s4.toNat - d1.toNat -
        d2.toNat - d3.toNat - d4.toNat < ((8 : Nat) : Int) * prime := by
  have hprime : (2 : Int) ^ 256 * 7 < 8 * prime := by norm_num [prime]
  obtain ⟨hl, hl'⟩ := vli_range l
  obtain ⟨hs1, hs1'⟩ := vli_range s1
  obtain ⟨hs2, hs2'⟩ := vli_range s2
  obtain ⟨hs3, hs3'⟩ := vli_range s3
  obtain ⟨hs4, hs4'⟩ := vli_range s4
  obtain ⟨hd1, hd1'⟩ := vli_range d1
  obtain ⟨hd2, hd2'⟩ := vli_range d2
  obtain ⟨hd3, hd3'⟩ := vli_range d3
  obtain ⟨hd4, hd4'⟩ := vli_range d4
  push_cast
  constructor <;> linarith

/-- Adding the prime until the carry is gone leaves the residue of a negative number. -/
theorem addPrimeLoop_spec {turns : Nat} {carry : Int} {result : Vli 8}
    (hneg : carried (carry, result) < 0) (hle : -(turns : Int) * prime ≤ carried (carry, result)) :
    (addPrimeLoop turns carry result).1 = 0 ∧
      ((addPrimeLoop turns carry result).2.toNat : Int) = carried (carry, result) % prime := by
  induction turns generalizing carry result with
  | zero =>
      rw [Nat.cast_zero, neg_zero, zero_mul] at hle
      exact absurd hneg (not_lt.2 hle)
  | succ turns ih =>
      have hadd := vliAdd_int result curveP
      rw [toNat_curveP] at hadd
      have hnext : carried (carry + (vliAdd result curveP).2.toNat, (vliAdd result curveP).1) =
          carried (carry, result) + prime := by
        simp only [carried]
        linear_combination hadd
      obtain ⟨hge, hlt⟩ := vli_range (vliAdd result curveP).1
      have hprime : (prime : Int) < 2 ^ 256 := by norm_num [prime]
      rw [Nat.cast_succ] at hle
      rw [addPrimeLoop]
      split_ifs with hcarry
      · have hneg' :
            carried (carry + (vliAdd result curveP).2.toNat, (vliAdd result curveP).1) < 0 := by
          simp only [carried]
          linarith
        obtain ⟨hzero, hval⟩ := ih hneg' (by rw [hnext]; linarith)
        refine ⟨hzero, hval.trans ?_⟩
        rw [hnext, Int.add_emod_right]
      · have hzero : carry + ((vliAdd result curveP).2.toNat : Int) = 0 := by
          simp only [carried] at hnext hneg
          omega
        refine ⟨hzero, ?_⟩
        rw [← Int.add_emod_right, ← hnext, hzero, Int.emod_eq_of_lt] <;>
          rw [hzero] at hnext <;> simp only [carried] at * <;> omega

/-- Subtracting the prime while it fits leaves the residue of any other number. -/
theorem subPrimeLoop_spec {turns : Nat} {carry : Int} {result : Vli 8}
    (hnonneg : 0 ≤ carried (carry, result)) (hlt : carried (carry, result) < turns * prime) :
    (subPrimeLoop turns carry result).1 = 0 ∧
      ((subPrimeLoop turns carry result).2.toNat : Int) = carried (carry, result) % prime := by
  induction turns generalizing carry result with
  | zero =>
      rw [Nat.cast_zero, zero_mul] at hlt
      exact absurd hnonneg (not_le.2 hlt)
  | succ turns ih =>
      have hsub := vliSub_int result curveP
      rw [toNat_curveP] at hsub
      have hnext : carried (carry - (vliSub result curveP).2.toNat, (vliSub result curveP).1) =
          carried (carry, result) - prime := by
        simp only [carried]
        linear_combination hsub
      obtain ⟨hge, hlt'⟩ := vli_range result
      have hprime : (prime : Int) < 2 ^ 256 := by norm_num [prime]
      have hcarry : 0 ≤ carry := by
        simp only [carried] at hnonneg
        omega
      rw [Nat.cast_succ] at hlt
      rw [subPrimeLoop]
      split_ifs with hmore
      · have hge' : (prime : Int) ≤ carried (carry, result) := by
          obtain h | h := hmore
          · simp only [carried]
            omega
          · have hcmp : prime ≤ result.toNat := by simpa [toNat_curveP] using h
            simp only [carried]
            omega
        obtain ⟨hzero, hval⟩ := ih (by rw [hnext]; linarith) (by rw [hnext]; linarith)
        refine ⟨hzero, hval.trans ?_⟩
        rw [hnext, Int.sub_emod_right]
      · obtain ⟨hzero, hcmp⟩ := not_or.1 hmore
        have hzero : carry = 0 := not_not.1 hzero
        have hcmp : result.toNat < prime := by simpa [toNat_curveP] using hcmp
        refine ⟨hzero, ?_⟩
        simp only [carried, hzero, mul_zero, add_zero]
        exact (Int.emod_eq_of_lt hge (by exact_mod_cast hcmp)).symm

/-- `vli_mmod_fast_secp256r1` reduces every product modulo the prime, as `uECC_vli_mmod`
does, and its loops end with no carry left. -/
theorem toNat_vliMmodFastSecp256r1 (product : Vli (2 * 8)) :
    (vliMmodFastSecp256r1 product).toNat = product.toNat % prime := by
  obtain ⟨q, hq⟩ := carried_congr product
  have hrange : -((8 : Nat) : Int) * prime ≤ carried (foldTerms product) ∧
      carried (foldTerms product) < ((8 : Nat) : Int) * prime := by
    rw [carried_foldTerms]
    exact terms_range ..
  have hmod : carried (foldTerms product) % prime = ((product.toNat % prime : Nat) : Int) := by
    rw [hq, Int.sub_mul_emod_self_left, Int.natCast_mod]
  obtain ⟨hge, hlt⟩ := vli_range (foldTerms product).2
  unfold vliMmodFastSecp256r1
  dsimp only
  split_ifs with hneg
  · have hval := (@addPrimeLoop_spec 8 (foldTerms product).1 (foldTerms product).2
      (by simp only [carried]; omega) hrange.1).2
    exact_mod_cast hval.trans hmod
  · have hval := (@subPrimeLoop_spec 8 (foldTerms product).1 (foldTerms product).2
      (by simp only [carried]; omega) hrange.2).2
    exact_mod_cast hval.trans hmod

/-- **The two reductions.**  Shifting and subtracting gives the remainder for every modulus that
reaches into its top word, and the sums of words for the prime give the same words. -/
theorem vliMmodFast_eq_vliMmod :
    (∀ (n : Nat) [WordCount n] (product : Vli (2 * n)) (m : Vli n),
        2 ^ (32 * (n - 1)) ≤ m.toNat → (vliMmod product m).toNat = product.toNat % m.toNat) ∧
      ∀ product : Vli (2 * 8), vliMmodFastSecp256r1 product = vliMmod product curveP := by
  refine ⟨fun n _ product m hm ↦ toNat_vliMmod hm, fun product ↦ Vli.toNat_inj.1 ?_⟩
  rw [toNat_vliMmodFastSecp256r1, toNat_vliMmod (by rw [toNat_curveP]; decide), toNat_curveP]

/-- The largest product of the curve. -/
theorem vliMmodFast_eq_vliMmod_max :
    (vliMmod (vliMult vliMax vliMax) curveP).toNat = (2 ^ 256 - 1) * (2 ^ 256 - 1) % prime ∧
      vliMmodFastSecp256r1 (vliMult vliMax vliMax) = vliMmod (vliMult vliMax vliMax) curveP := by
  obtain ⟨hmmod, hfast⟩ := vliMmodFast_eq_vliMmod
  refine ⟨(hmmod 8 _ curveP (by rw [toNat_curveP]; decide)).trans ?_, hfast _⟩
  have hmax : vliMax.toNat = 2 ^ 256 - 1 := by decide
  rw [toNat_vliMult, toNat_curveP, hmax]

end DualBank.UECC
