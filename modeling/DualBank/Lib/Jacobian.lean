import Mathlib.AlgebraicGeometry.EllipticCurve.Affine.Point
import Mathlib.Tactic.FieldSimp
import Mathlib.Tactic.LinearCombination

/-!
# Jacobian coordinates

Points of a curve `y ^ 2 = x ^ 3 - 3 * x + b` as `(x * z ^ 2, y * z ^ 3, z)`.  Doubling and the
addition of two points with one `z` take no inverse; away from the exceptional points they are
the group law of Mathlib, and at an exceptional point `z` becomes zero.
-/

namespace DualBank.Lib

open WeierstrassCurve

variable {F : Type*} [Field F] {b : F}

/-- The curve `y ^ 2 = x ^ 3 - 3 * x + b`. -/
def shortCurve (b : F) : Affine F := ⟨0, 0, 0, -3, b⟩

theorem equation_shortCurve {x y : F} :
    (shortCurve b).Equation x y ↔ y ^ 2 = x ^ 3 - 3 * x + b := by
  rw [Affine.equation_iff]
  simp only [shortCurve]
  constructor <;> intro h <;> linear_combination h

/-- Jacobian coordinates of a point other than zero. -/
def Jacobian (X Y Z : F) (P : (shortCurve b).Point) : Prop :=
  Z ≠ 0 ∧ ∃ x y h, P = .some x y h ∧ X = x * Z ^ 2 ∧ Y = y * Z ^ 3

theorem Jacobian.ne_zero {X Y Z : F} {P : (shortCurve b).Point} (h : Jacobian X Y Z P) :
    P ≠ 0 := by
  obtain ⟨-, x, y, hxy, rfl, -, -⟩ := h
  exact Affine.Point.some_ne_zero hxy

/-- An affine point has `z = 1`. -/
theorem Jacobian.of_affine {x y : F} (h : (shortCurve b).Nonsingular x y) :
    Jacobian x y 1 (.some x y h) :=
  ⟨one_ne_zero, x, y, h, rfl, by ring, by ring⟩

/-- The affine coordinates read off again. -/
theorem Jacobian.affine {X Y Z : F} {P : (shortCurve b).Point} (h : Jacobian X Y Z P) :
    ∃ hxy, P = .some (X * Z⁻¹ ^ 2) (Y * Z⁻¹ ^ 3) hxy := by
  obtain ⟨hz, x, y, hxy, rfl, rfl, rfl⟩ := h
  have hx : x * Z ^ 2 * Z⁻¹ ^ 2 = x := by field_simp
  have hy : y * Z ^ 3 * Z⁻¹ ^ 3 = y := by field_simp
  refine ⟨hx.symm ▸ hy.symm ▸ hxy, ?_⟩
  simp only [hx, hy]

/-- Coordinates stand for one point only. -/
theorem Jacobian.unique {X Y Z : F} {P Q : (shortCurve b).Point} (hP : Jacobian X Y Z P)
    (hQ : Jacobian X Y Z Q) : P = Q := by
  obtain ⟨hxy, rfl⟩ := hP.affine
  obtain ⟨hxy', rfl⟩ := hQ.affine
  rfl

/-! ## Doubling -/

/-- The slope of a doubling, `3 / 2 * (x ^ 2 - z ^ 4)`. -/
def doubleSlope (X Z : F) : F := 3 * ((X + Z ^ 2) * (X - Z ^ 2)) / 2

def doubleX (X Y Z : F) : F := doubleSlope X Z ^ 2 - 2 * (X * Y ^ 2)

def doubleY (X Y Z : F) : F := doubleSlope X Z * (X * Y ^ 2 - doubleX X Y Z) - Y ^ 4

variable [DecidableEq F]

/-- A point doubles to zero exactly when its `Y` is zero. -/
theorem Jacobian.double_eq_zero_iff (h2 : (2 : F) ≠ 0) {X Y Z : F} {P : (shortCurve b).Point}
    (h : Jacobian X Y Z P) : 2 • P = 0 ↔ Y = 0 := by
  obtain ⟨hz, x, y, hxy, rfl, rfl, rfl⟩ := h
  have hneg : (shortCurve b).negY x y = -y := by simp [shortCurve, Affine.negY]
  have hy : y = -y ↔ y = 0 := by
    constructor
    · intro h
      exact (mul_eq_zero.1 (show 2 * y = 0 by linear_combination h)).resolve_left h2
    · rintro rfl
      exact neg_zero.symm
  rw [two_nsmul, mul_eq_zero, or_iff_left (pow_ne_zero 3 hz), ← hy, ← hneg]
  constructor
  · intro h
    by_contra hne
    rw [Affine.Point.add_self_of_Y_ne hne] at h
    exact Affine.Point.some_ne_zero _ h
  · exact Affine.Point.add_self_of_Y_eq

/-- Doubling in Jacobian coordinates. -/
theorem Jacobian.double (h2 : (2 : F) ≠ 0) {X Y Z : F} {P : (shortCurve b).Point}
    (h : Jacobian X Y Z P) (hY : Y ≠ 0) :
    Jacobian (doubleX X Y Z) (doubleY X Y Z) (Y * Z) (2 • P) := by
  obtain ⟨hz, x, y, hxy, rfl, rfl, rfl⟩ := h
  have hy : y ≠ 0 := fun h0 ↦ hY (by rw [h0, zero_mul])
  have hneg : y ≠ (shortCurve b).negY x y := by
    intro h
    have hneg : y = -y := by simpa [shortCurve, Affine.negY] using h
    exact hy ((mul_eq_zero.1 (show 2 * y = 0 by linear_combination hneg)).resolve_left h2)
  have hslope : (shortCurve b).slope x x y y = 3 * (x ^ 2 - 1) / (2 * y) := by
    rw [Affine.slope_of_Y_ne rfl hneg, show y - (shortCurve b).negY x y = 2 * y by
      simp only [shortCurve, Affine.negY]
      ring]
    simp only [shortCurve]
    ring
  refine ⟨mul_ne_zero hY hz, _, _, _,
    (two_nsmul _).trans (Affine.Point.add_self_of_Y_ne hneg), ?_, ?_⟩
  · rw [hslope]
    simp only [doubleX, doubleSlope, Affine.addX, shortCurve]
    field_simp
    ring
  · rw [hslope]
    simp only [doubleX, doubleY, doubleSlope, Affine.addX, Affine.addY, Affine.negAddY, Affine.negY,
      shortCurve]
    field_simp
    ring

/-! ## Addition with a common `z` -/

/-- `(X₃, Y₃)` of the sum of `(X₁, Y₁)` and `(X₂, Y₂)`; the new `z` is `(X₂ - X₁) * z`. -/
def coZX (X₁ Y₁ X₂ Y₂ : F) : F :=
  (Y₂ - Y₁) ^ 2 - X₁ * (X₂ - X₁) ^ 2 - X₂ * (X₂ - X₁) ^ 2

def coZY (X₁ Y₁ X₂ Y₂ : F) : F :=
  (Y₂ - Y₁) * (X₁ * (X₂ - X₁) ^ 2 - coZX X₁ Y₁ X₂ Y₂) -
    Y₁ * (X₂ * (X₂ - X₁) ^ 2 - X₁ * (X₂ - X₁) ^ 2)

omit [DecidableEq F] in
/-- Two points with one `z` have one `X` exactly when they are equal or opposite. -/
theorem Jacobian.x_eq_iff {X₁ Y₁ X₂ Y₂ Z : F} {P Q : (shortCurve b).Point}
    (h₁ : Jacobian X₁ Y₁ Z P) (h₂ : Jacobian X₂ Y₂ Z Q) : X₁ = X₂ ↔ P = Q ∨ P = -Q := by
  obtain ⟨hz, x₁, y₁, hxy₁, rfl, rfl, rfl⟩ := h₁
  obtain ⟨-, x₂, y₂, hxy₂, rfl, rfl, rfl⟩ := h₂
  rw [← Affine.Point.X_eq_iff]
  exact mul_left_inj' (pow_ne_zero 2 hz)

/-- Addition in Jacobian coordinates with one `z`. -/
theorem Jacobian.add {X₁ Y₁ X₂ Y₂ Z : F} {P Q : (shortCurve b).Point}
    (h₁ : Jacobian X₁ Y₁ Z P) (h₂ : Jacobian X₂ Y₂ Z Q) (hne : X₁ ≠ X₂) :
    Jacobian (coZX X₁ Y₁ X₂ Y₂) (coZY X₁ Y₁ X₂ Y₂) (Z * (X₂ - X₁)) (P + Q) := by
  obtain ⟨hz, x₁, y₁, hxy₁, rfl, rfl, rfl⟩ := h₁
  obtain ⟨-, x₂, y₂, hxy₂, rfl, rfl, rfl⟩ := h₂
  have hx : x₁ ≠ x₂ := fun h ↦ hne (by rw [h])
  have hd : x₁ - x₂ ≠ 0 := sub_ne_zero.2 hx
  refine ⟨mul_ne_zero hz (sub_ne_zero.2 (Ne.symm hne)), _, _, _,
    Affine.Point.add_of_X_ne hx, ?_, ?_⟩
  · rw [Affine.slope_of_X_ne hx]
    simp only [coZX, Affine.addX, shortCurve]
    field_simp
    ring
  · rw [Affine.slope_of_X_ne hx]
    simp only [coZX, coZY, Affine.addX, Affine.addY, Affine.negAddY, Affine.negY, shortCurve]
    field_simp
    ring

end DualBank.Lib
