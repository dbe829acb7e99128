import DualBank.Lib.Shamir
import Mathlib.Algebra.Field.ZMod
import Mathlib.GroupTheory.OrderOfElement
import Mathlib.Tactic.Abel
import Mathlib.Tactic.Ring

/-!
# The signature scheme ECDSA

Over any commutative group with a base point `G`, a prime number `n`, and a map to the numbers
that the scheme takes of a point (the `x` coordinate, nothing at zero).
-/

namespace DualBank.Lib

variable {A : Type*} [AddCommGroup A] {n : Nat} [Fact n.Prime]

/-- The two multipliers of the verification, `e / s` and `r / s`. -/
def ecdsaMultiplier (n : Nat) [Fact n.Prime] (c s : Nat) : Nat :=
  ((c : ZMod n) * (s : ZMod n)⁻¹).val

/-- The point that the verification computes. -/
def ecdsaPoint (n : Nat) [Fact n.Prime] (G Q : A) (e r s : Nat) : A :=
  ecdsaMultiplier n e s • G + ecdsaMultiplier n r s • Q

/-- `(r, s)` is a valid signature of the number `e` under the public key `Q`. -/
def EcdsaValid (n : Nat) [Fact n.Prime] (coord : A → Option Nat) (G Q : A) (e r s : Nat) : Prop :=
  0 < r ∧ r < n ∧ 0 < s ∧ s < n ∧ ∃ x, coord (ecdsaPoint n G Q e r s) = some x ∧ x % n = r

/-- `(r, s)` is what the signer with the private key `d` makes of the number `e` and the nonce
`k`. -/
structure EcdsaSigned (n : Nat) (coord : A → Option Nat) (G : A) (d k e r s : Nat) : Prop where
  nonce : (k : ZMod n) ≠ 0
  r_eq : ∃ x, coord (k • G) = some x ∧ x % n = r
  r_pos : 0 < r
  s_pos : 0 < s
  s_lt : s < n
  s_eq : (s : ZMod n) = (k : ZMod n)⁻¹ * (e + r * d)

/-- What the nonce `k` gives. -/
theorem EcdsaSigned.of_nonce {coord : A → Option Nat} {G : A} {d k e x : Nat}
    (hk : (k : ZMod n) ≠ 0) (hx : coord (k • G) = some x) (hr : 0 < x % n)
    (hs : (e : ZMod n) + (x % n : Nat) * d ≠ 0) :
    EcdsaSigned n coord G d k e (x % n) ((k : ZMod n)⁻¹ * (e + (x % n : Nat) * d)).val where
  nonce := hk
  r_eq := ⟨x, hx, rfl⟩
  r_pos := hr
  s_pos := Nat.pos_of_ne_zero fun h ↦
    mul_ne_zero (inv_ne_zero hk) hs ((ZMod.val_eq_zero _).1 h)
  s_lt := ZMod.val_lt _
  s_eq := ZMod.natCast_zmod_val _

/-- Multiples of a point whose order divides `n` depend on the residue only. -/
theorem nsmul_eq_of_cast {P : A} (hP : n • P = 0) {i j : Nat} (h : (i : ZMod n) = j) :
    i • P = j • P := by
  have hmod : i % n = j % n := (ZMod.natCast_eq_natCast_iff' i j n).1 h
  have hred : ∀ k : Nat, k • P = (k % n) • P := fun k ↦ by
    conv_lhs => rw [← Nat.mod_add_div k n, add_nsmul, mul_nsmul, hP, nsmul_zero, add_zero]
  rw [hred i, hred j, hmod]

theorem cast_ecdsaMultiplier (c s : Nat) :
    ((ecdsaMultiplier n c s : Nat) : ZMod n) = (c : ZMod n) * (s : ZMod n)⁻¹ :=
  ZMod.natCast_zmod_val _

/-- A multiplier from its two defining properties. -/
theorem ecdsaMultiplier_eq {c s u : Nat} (hs : (s : ZMod n) ≠ 0) (hu : u < n)
    (h : u * s % n = c % n) : ecdsaMultiplier n c s = u := by
  have hmul : (u : ZMod n) * s = c := by
    rw [← Nat.cast_mul, ZMod.natCast_eq_natCast_iff']
    exact h
  rw [ecdsaMultiplier, ← hmul, mul_assoc, mul_inv_cancel₀ hs, mul_one, ZMod.val_natCast,
    Nat.mod_eq_of_lt hu]

theorem cast_ne_zero {s : Nat} (hpos : 0 < s) (hlt : s < n) : (s : ZMod n) ≠ 0 := fun h ↦
  absurd (Nat.le_of_dvd hpos ((ZMod.natCast_eq_zero_iff s n).1 h)) (Nat.not_le.2 hlt)

/-- The verification of a signer's own signature comes back to the nonce's point. -/
theorem EcdsaSigned.ecdsaPoint_eq {coord : A → Option Nat} {G : A} {d k e r s : Nat}
    (hG : n • G = 0) (h : EcdsaSigned n coord G d k e r s) :
    ecdsaPoint n G (d • G) e r s = k • G := by
  have hs := cast_ne_zero h.s_pos h.s_lt
  rw [ecdsaPoint, ← mul_nsmul', ← add_nsmul]
  refine nsmul_eq_of_cast hG ?_
  have hsum : (k : ZMod n) * s = e + r * d := by
    rw [h.s_eq, ← mul_assoc, mul_inv_cancel₀ h.nonce, one_mul]
  rw [Nat.cast_add, Nat.cast_mul, cast_ecdsaMultiplier, cast_ecdsaMultiplier]
  calc (e : ZMod n) * (s : ZMod n)⁻¹ + r * (s : ZMod n)⁻¹ * d
      = (e + r * d) * (s : ZMod n)⁻¹ := by ring
    _ = k := by rw [← hsum, mul_assoc, mul_inv_cancel₀ hs, mul_one]

/-- What a signer makes is valid under the signer's public key. -/
theorem EcdsaSigned.valid {coord : A → Option Nat} {G : A} {d k e r s : Nat} (hG : n • G = 0)
    (h : EcdsaSigned n coord G d k e r s) : EcdsaValid n coord G (d • G) e r s := by
  obtain ⟨x, hx, hr⟩ := h.r_eq
  refine ⟨h.r_pos, hr ▸ Nat.mod_lt _ (Nat.Prime.pos Fact.out), h.s_pos, h.s_lt, x, ?_, hr⟩
  rw [h.ecdsaPoint_eq hG]
  exact hx

/-- With `s` also `n - s` is valid: the point of the verification is the opposite one. -/
theorem EcdsaValid.neg {coord : A → Option Nat} {G Q : A} {e r s : Nat} (hG : n • G = 0)
    (hQ : n • Q = 0) (hcoord : ∀ P, coord (-P) = coord P) (h : EcdsaValid n coord G Q e r s) :
    EcdsaValid n coord G Q e r (n - s) := by
  obtain ⟨hr, hrn, hs, hsn, x, hx, hxr⟩ := h
  refine ⟨hr, hrn, by omega, by omega, x, ?_, hxr⟩
  have hneg : ∀ {P : A} (c : Nat), n • P = 0 →
      ecdsaMultiplier n c (n - s) • P = -(ecdsaMultiplier n c s • P) := by
    intro P c hP
    rw [eq_neg_iff_add_eq_zero, ← add_nsmul, ← zero_nsmul P]
    refine nsmul_eq_of_cast hP ?_
    rw [Nat.cast_add, cast_ecdsaMultiplier, cast_ecdsaMultiplier, Nat.cast_sub hsn.le,
      ZMod.natCast_self, zero_sub, inv_neg, Nat.cast_zero]
    ring
  have hpoint : ecdsaPoint n G Q e r (n - s) = -ecdsaPoint n G Q e r s := by
    rw [ecdsaPoint, ecdsaPoint, hneg e hG, hneg r hQ]
    abel
  rw [hpoint, hcoord]
  exact hx

/-! ## Key pairs

The public key `d • G` of a private key `d`, where `G` has order `n`. -/

variable {G : A} {d : Nat}

/-- Multiples of `G` as residues. -/
theorem nsmul_eq_iff (hG : n • G = 0) (hne : G ≠ 0) {i j : Nat} :
    i • G = j • G ↔ i % n = j % n := by
  have horder : addOrderOf G = n := addOrderOf_eq_prime hG hne
  rw [nsmul_eq_nsmul_iff_modEq, horder]
  rfl

theorem nsmul_eq_zero_iff (hG : n • G = 0) (hne : G ≠ 0) {i : Nat} : i • G = 0 ↔ i % n = 0 := by
  rw [← zero_nsmul G, nsmul_eq_iff hG hne, Nat.zero_mod]

/-- The valid signatures under `d • G` are those that the holder of `d` makes with some
nonce. -/
theorem ecdsaValid_iff_signed {coord : A → Option Nat} (hzero : coord 0 = none) (hG : n • G = 0)
    {e r s : Nat} : EcdsaValid n coord G (d • G) e r s ↔ ∃ k, EcdsaSigned n coord G d k e r s := by
  constructor
  · rintro ⟨hr, hrn, hs, hsn, x, hx, hxr⟩
    have hs0 := cast_ne_zero hs hsn
    let k := ecdsaMultiplier n e s + d * ecdsaMultiplier n r s
    have hk : (k : ZMod n) = (e + r * d) * (s : ZMod n)⁻¹ := by
      rw [Nat.cast_add, Nat.cast_mul, cast_ecdsaMultiplier, cast_ecdsaMultiplier]
      ring
    have hpoint : ecdsaPoint n G (d • G) e r s = k • G := by
      rw [ecdsaPoint, ← mul_nsmul, ← add_nsmul]
    rw [hpoint] at hx
    have hk0 : (k : ZMod n) ≠ 0 := by
      intro h
      rw [← Nat.cast_zero] at h
      rw [nsmul_eq_of_cast hG h, zero_nsmul, hzero] at hx
      cases hx
    refine ⟨k, hk0, ⟨x, hx, hxr⟩, hr, hs, hsn, ?_⟩
    have hmul : (k : ZMod n) * s = e + r * d := by
      rw [hk, mul_assoc, inv_mul_cancel₀ hs0, mul_one]
    rw [← hmul, ← mul_assoc, inv_mul_cancel₀ hk0, one_mul]
  · rintro ⟨k, hk⟩
    exact hk.valid hG

/-- `ShamirRegular` on the multiples of `G`. -/
def ScalarRegular (n d u v : Nat) : Prop :=
  ∀ k < shamirBits u v - 1,
    let a := 2 * (u / 2 ^ (k + 1) + d * (v / 2 ^ (k + 1)))
    let e := (u.testBit k).toNat + d * (v.testBit k).toNat
    a % n ≠ 0 ∧ ((u.testBit k || v.testBit k) = true → e % n ≠ a % n ∧ (e + a) % n ≠ 0)

instance (n d u v : Nat) : Decidable (ScalarRegular n d u v) :=
  inferInstanceAs (Decidable (∀ k < shamirBits u v - 1, _ ∧ (_ → _ ∧ _)))

theorem shamirRegular_iff (hG : n • G = 0) (hne : G ≠ 0) {u v : Nat} :
    ShamirRegular G (d • G) u v ↔ ScalarRegular n d u v := by
  refine forall_congr' fun k ↦ ?_
  have hpre : 2 • shamirPrefix G (d • G) u v (k + 1) =
      (2 * (u / 2 ^ (k + 1) + d * (v / 2 ^ (k + 1)))) • G := by
    rw [shamirPrefix, ← mul_nsmul, ← add_nsmul, ← mul_nsmul']
  have hentry : shamirEntry G (d • G) (u.testBit k) (v.testBit k) =
      ((u.testBit k).toNat + d * (v.testBit k).toNat) • G := by
    rw [shamirEntry, ← mul_nsmul, ← add_nsmul]
  rw [hpre, hentry, ne_eq, ne_eq, ne_eq, eq_neg_iff_add_eq_zero, ← add_nsmul,
    nsmul_eq_zero_iff hG hne, nsmul_eq_zero_iff hG hne, nsmul_eq_iff hG hne, Nat.lt_sub_iff_add_lt]

end DualBank.Lib
