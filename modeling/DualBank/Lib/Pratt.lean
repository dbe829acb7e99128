import Mathlib.Data.Nat.Log
import Mathlib.NumberTheory.LucasPrimality

/-!
# Certificates of primality

A chain of numbers, each with a primitive root and the factors of its predecessor, which come
earlier in the chain.  The test of a chain evaluates, and by `lucas_primality` all numbers of
a chain that passes are prime.
-/

namespace DualBank.Lib

/-- `acc * b ^ e` modulo `m`, by squaring, for an exponent of at most `bits` bits. -/
def mulPowMod (m : Nat) : Nat → Nat → Nat → Nat → Nat
  | 0, _, _, acc => acc % m
  | bits + 1, b, e, acc =>
      mulPowMod m bits (b * b % m) (e / 2) (if e % 2 = 1 then acc * b % m else acc)

theorem mulPowMod_eq {m bits b e acc : Nat} (he : e < 2 ^ bits) :
    mulPowMod m bits b e acc = acc * b ^ e % m := by
  induction bits generalizing b e acc with
  | zero =>
      rw [Nat.lt_one_iff.1 he, mulPowMod, pow_zero, Nat.mul_one]
  | succ bits ih =>
      rw [pow_succ] at he
      have hsquare : ∀ c, c * (b * b % m) ^ (e / 2) % m = c * b ^ (2 * (e / 2)) % m := fun c ↦ by
        rw [Nat.mul_mod, ← Nat.pow_mod, ← Nat.mul_mod, ← sq, ← pow_mul]
      rw [mulPowMod, ih (by omega), hsquare]
      split_ifs with hodd
      · rw [Nat.mod_mul_mod, Nat.mul_assoc, ← pow_succ']
        congr 3
        omega
      · congr 3
        omega

/-- A number of a chain, its primitive root, and the factors of the number before it. -/
structure PrattStep where
  p : Nat
  root : Nat
  factors : List Nat

namespace PrattStep

/-- Lucas's test, where `known` are the primes found so far. -/
def test (known : List Nat) (s : PrattStep) : Bool :=
  let pow := fun e ↦ mulPowMod s.p (Nat.log2 s.p + 1) s.root e 1
  1 < s.p && s.factors.prod == s.p - 1 && pow (s.p - 1) == 1 &&
    s.factors.all fun q ↦ known.contains q && pow ((s.p - 1) / q) != 1

/-- The test of a chain. -/
def testChain : List Nat → List PrattStep → Bool
  | _, [] => true
  | known, s :: steps => s.test known && testChain (s.p :: known) steps

theorem prime_of_test {known : List Nat} (hknown : ∀ q ∈ known, q.Prime) {s : PrattStep}
    (h : s.test known = true) : s.p.Prime := by
  simp only [test, Bool.and_eq_true, decide_eq_true_eq, beq_iff_eq, bne_iff_ne, ne_eq,
    List.all_eq_true, List.contains_iff_mem] at h
  obtain ⟨⟨⟨hone, hprod⟩, hroot⟩, hfactors⟩ := h
  have hbits : ∀ e ≤ s.p - 1, e < 2 ^ (Nat.log2 s.p + 1) := fun e he ↦ by
    have := Nat.lt_log2_self (n := s.p)
    omega
  have hpow : ∀ e ≤ s.p - 1, ((s.root : ZMod s.p) ^ e = 1 ↔
      mulPowMod s.p (Nat.log2 s.p + 1) s.root e 1 = 1) := fun e he ↦ by
    rw [mulPowMod_eq (hbits e he), Nat.one_mul, ← Nat.cast_pow, ← Nat.cast_one,
      ZMod.natCast_eq_natCast_iff', Nat.mod_eq_of_lt hone]
  refine lucas_primality s.p s.root ((hpow _ le_rfl).2 hroot) fun q hq hdvd ↦ ?_
  obtain ⟨f, hf, hqf⟩ := (Prime.dvd_prod_iff hq.prime).1 (hprod ▸ hdvd)
  obtain ⟨hmem, hne⟩ := hfactors f hf
  have heq : q = f := (Nat.prime_dvd_prime_iff_eq hq (hknown f hmem)).1 hqf
  rw [heq, ne_eq, hpow _ (Nat.div_le_self _ _)]
  exact hne

/-- Every number of a chain that passes the test is prime. -/
theorem prime_of_testChain {steps : List PrattStep} {known : List Nat}
    (hknown : ∀ q ∈ known, q.Prime) (h : testChain known steps = true) :
    ∀ s ∈ steps, s.p.Prime := by
  induction steps generalizing known with
  | nil => exact fun s hs ↦ absurd hs List.not_mem_nil
  | cons s steps ih =>
      rw [testChain, Bool.and_eq_true] at h
      have hprime := prime_of_test hknown h.1
      rintro t (_ | ⟨_, ht⟩)
      · exact hprime
      · refine ih (fun q hq ↦ ?_) h.2 t ht
        obtain rfl | hq := List.mem_cons.1 hq
        · exact hprime
        · exact hknown q hq

end PrattStep

end DualBank.Lib
