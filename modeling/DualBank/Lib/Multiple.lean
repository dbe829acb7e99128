import DualBank.Lib.Jacobian
import Mathlib.Data.ZMod.Basic
import Mathlib.Algebra.Field.ZMod

/-!
# Certificates of the order of a point

Double and add on integers modulo a prime `p`.  The chain evaluates, and whenever no `z` in it
becomes zero it ends at Jacobian coordinates of the multiple that its bits stand for.
-/

namespace DualBank.Lib

open WeierstrassCurve

/-- Jacobian coordinates as integers, to be read modulo `p`. -/
structure IntPoint where
  x : Int
  y : Int
  z : Int

namespace IntPoint

def double (p : Nat) (P : IntPoint) : IntPoint :=
  let m := 3 * ((P.x + P.z * P.z) * (P.x - P.z * P.z)) * ((p + 1) / 2 : Nat) % p
  let s := P.x * (P.y * P.y) % p
  let x := (m * m - 2 * s) % p
  ⟨x, (m * (s - x) - P.y * P.y * (P.y * P.y)) % p, P.y * P.z % p⟩

/-- The sum with the affine point `(x, y)`. -/
def addAffine (p : Nat) (x y : Int) (P : IntPoint) : IntPoint :=
  let x₁ := x * (P.z * P.z) % p
  let y₁ := y * (P.z * P.z * P.z) % p
  let dx := P.x - x₁
  let dy := P.y - y₁
  let b := x₁ * (dx * dx) % p
  let c := P.x * (dx * dx) % p
  let x₃ := (dy * dy - b - c) % p
  ⟨x₃, (dy * (b - x₃) - y₁ * (c - b)) % p, P.z * dx % p⟩

/-- One bit of a multiplication. -/
def step (p : Nat) (x y : Int) (bit : Bool) (P : IntPoint) : IntPoint :=
  if bit then addAffine p x y (double p P) else double p P

/-- The bits of a multiplication, first bit first. -/
def chain (p : Nat) (x y : Int) : List Bool → IntPoint → Option IntPoint
  | [], P => some P
  | bit :: bits, P =>
      let P := step p x y bit P
      if P.z % p = 0 then none else chain p x y bits P

variable {p : Nat} [Fact p.Prime] {b : ZMod p}

/-- The coordinates of `A`. -/
def Is (P : IntPoint) (A : (shortCurve b).Point) : Prop :=
  Jacobian (P.x : ZMod p) (P.y : ZMod p) (P.z : ZMod p) A

theorem cast_half (h2 : (2 : ZMod p) ≠ 0) : (((p + 1) / 2 : Nat) : ZMod p) = 2⁻¹ := by
  have hodd : p % 2 = 1 := by
    obtain h | h := (Fact.out : p.Prime).eq_two_or_odd
    · exact absurd (by rw [← Nat.cast_two, ← h, ZMod.natCast_self]) h2
    · exact h
  refine eq_inv_of_mul_eq_one_left ?_
  have hmul : ((((p + 1) / 2 * 2 : Nat)) : ZMod p) = (p + 1 : Nat) := congrArg _ (by omega)
  rw [Nat.cast_mul, Nat.cast_two, Nat.cast_add, ZMod.natCast_self, zero_add, Nat.cast_one] at hmul
  exact hmul

theorem cast_double (h2 : (2 : ZMod p) ≠ 0) (P : IntPoint) :
    ((double p P).x : ZMod p) = doubleX (P.x : ZMod p) P.y P.z ∧
      ((double p P).y : ZMod p) = doubleY (P.x : ZMod p) P.y P.z ∧
      ((double p P).z : ZMod p) = P.y * P.z := by
  have hhalf := cast_half h2
  simp only [double, ZMod.intCast_mod, Int.cast_sub, Int.cast_mul, Int.cast_add, Int.cast_ofNat,
    Int.cast_natCast, hhalf, doubleX, doubleY, doubleSlope, div_eq_mul_inv]
  refine ⟨?_, ?_, trivial⟩ <;> ring

theorem cast_addAffine (x y : Int) (P : IntPoint) :
    ((addAffine p x y P).x : ZMod p) = coZX (x * (P.z : ZMod p) ^ 2) (y * P.z ^ 3) P.x P.y ∧
      ((addAffine p x y P).y : ZMod p) = coZY (x * (P.z : ZMod p) ^ 2) (y * P.z ^ 3) P.x P.y ∧
      ((addAffine p x y P).z : ZMod p) = P.z * (P.x - x * P.z ^ 2) := by
  simp only [addAffine, ZMod.intCast_mod, Int.cast_sub, Int.cast_mul, coZX, coZY]
  refine ⟨?_, ?_, ?_⟩ <;> ring

/-- The affine coordinates of a point, up to the factors of `z`. -/
theorem Is.eq_some {P : IntPoint} {A : (shortCurve b).Point} (h : P.Is A) {x y : Int}
    (hxy : (shortCurve b).Nonsingular (x : ZMod p) (y : ZMod p))
    (hx : P.x % p = x * (P.z * P.z) % p) (hy : P.y % p = y * (P.z * P.z * P.z) % p) :
    A = .some _ _ hxy := by
  have hX : (P.x : ZMod p) = (x * (P.z * P.z) : Int) := (ZMod.intCast_eq_intCast_iff _ _ p).2 hx
  have hY : (P.y : ZMod p) = (y * (P.z * P.z * P.z) : Int) :=
    (ZMod.intCast_eq_intCast_iff _ _ p).2 hy
  refine h.unique ⟨h.1, _, _, hxy, rfl, ?_, ?_⟩
  · rw [hX]
    push_cast
    ring
  · rw [hY]
    push_cast
    ring

variable [DecidableEq (ZMod p)]

theorem Is.double (h2 : (2 : ZMod p) ≠ 0) {P : IntPoint} {A : (shortCurve b).Point} (h : P.Is A)
    (hz : ((IntPoint.double p P).z : ZMod p) ≠ 0) : (IntPoint.double p P).Is (2 • A) := by
  obtain ⟨hx, hy, hz'⟩ := cast_double h2 P
  rw [hz'] at hz
  have hdouble := Jacobian.double h2 h (left_ne_zero_of_mul hz)
  rw [← hx, ← hy, ← hz'] at hdouble
  exact hdouble

theorem Is.addAffine {x y : Int} {P : IntPoint} {A G : (shortCurve b).Point} (h : P.Is A)
    (hG : Jacobian (x : ZMod p) (y : ZMod p) 1 G)
    (hz : ((IntPoint.addAffine p x y P).z : ZMod p) ≠ 0) :
    (IntPoint.addAffine p x y P).Is (A + G) := by
  obtain ⟨hx, hy, hz'⟩ := cast_addAffine (p := p) x y P
  rw [hz'] at hz
  obtain ⟨-, x', y', hxy, rfl, hx', hy'⟩ := hG
  rw [one_pow, mul_one] at hx' hy'
  have hG' : Jacobian ((x : ZMod p) * P.z ^ 2) (y * P.z ^ 3) P.z
      (.some x' y' hxy : (shortCurve b).Point) :=
    ⟨left_ne_zero_of_mul hz, x', y', hxy, rfl, by rw [hx'], by rw [hy']⟩
  have hne : (x : ZMod p) * P.z ^ 2 ≠ P.x := fun heq ↦
    right_ne_zero_of_mul hz (by rw [heq, sub_self])
  have hadd := Jacobian.add hG' h hne
  rw [← hx, ← hy, ← hz', add_comm] at hadd
  exact hadd

/-- One step of the chain. -/
theorem Is.step (h2 : (2 : ZMod p) ≠ 0) {x y : Int} {P : IntPoint} {A G : (shortCurve b).Point}
    (h : P.Is A) (hG : Jacobian (x : ZMod p) (y : ZMod p) 1 G) (bit : Bool)
    (hz : ((IntPoint.step p x y bit P).z : ZMod p) ≠ 0) :
    (IntPoint.step p x y bit P).Is (2 • A + bit.toNat • G) := by
  cases bit with
  | false =>
      rw [Bool.toNat_false, zero_nsmul, add_zero]
      exact h.double h2 hz
  | true =>
      rw [Bool.toNat_true, one_nsmul]
      have hz' : ((IntPoint.double p P).z : ZMod p) ≠ 0 := by
        have hadd : ((IntPoint.addAffine p x y (IntPoint.double p P)).z : ZMod p) ≠ 0 := hz
        rw [(cast_addAffine (p := p) x y _).2.2] at hadd
        exact left_ne_zero_of_mul hadd
      exact (h.double h2 hz').addAffine hG hz

/-- A chain that ends, ends at the multiple of its bits. -/
theorem Is.chain (h2 : (2 : ZMod p) ≠ 0) {x y : Int} {G : (shortCurve b).Point}
    (hG : Jacobian (x : ZMod p) (y : ZMod p) 1 G) {bits : List Bool} {P P' : IntPoint} {k : Nat}
    (h : P.Is (k • G)) (hchain : IntPoint.chain p x y bits P = some P') :
    P'.Is ((bits.foldl (fun k bit ↦ 2 * k + bit.toNat) k) • G) := by
  induction bits generalizing P k with
  | nil =>
      obtain rfl := Option.some.inj hchain
      exact h
  | cons bit bits ih =>
      rw [IntPoint.chain] at hchain
      split at hchain
      · cases hchain
      · next hz =>
        refine ih ?_ hchain
        have hstep := h.step h2 hG bit fun hzero ↦
          hz (Int.emod_eq_zero_of_dvd ((ZMod.intCast_zmod_eq_zero_iff_dvd _ p).1 hzero))
        rw [← mul_nsmul', ← add_nsmul] at hstep
        exact hstep

end IntPoint

end DualBank.Lib
