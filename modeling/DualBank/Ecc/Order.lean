import DualBank.Ecc.Ecdsa
import DualBank.Lib.Multiple

/-!
# The order of the base point

`n * G = 0`, by the multiplication of `G` by `n - 1`, which ends at `-G`.
-/

namespace DualBank.UECC

open Lib WeierstrassCurve

/-- The bits of `n - 1` after the first one. -/
def orderBits : List Bool := (List.range 255).reverse.map (curveOrder - 1).testBit

theorem orderBits_value : orderBits.foldl (fun k bit ↦ 2 * k + bit.toNat) 1 = curveOrder - 1 := by
  decide +kernel

/-- The multiplication ends at coordinates of `-G`. -/
def endsAtNegG : Bool :=
  let x : Int := curveG.x.toNat
  let y : Int := curveG.y.toNat
  match IntPoint.chain prime x y orderBits ⟨x, y, 1⟩ with
  | none => false
  | some P => P.x % prime == x * (P.z * P.z) % prime &&
      P.y % prime == -y * (P.z * P.z * P.z) % prime

theorem endsAtNegG_eq : endsAtNegG = true := by decide +kernel

/-- The coordinates of the base point and of its opposite as integers. -/
theorem is_intPoint : IntPoint.Is ⟨curveG.x.toNat, curveG.y.toNat, 1⟩ basePoint := by
  refine ⟨?_, _, _, nonsingular_curveG, rfl, ?_, ?_⟩ <;> simp

theorem exists_neg_basePoint :
    ∃ hxy, -basePoint =
      .some ((curveG.x.toNat : Int) : ZMod prime)
        ((-(curveG.y.toNat : Int) : Int) : ZMod prime) hxy := by
  have hx : ((curveG.x.toNat : Int) : ZMod prime) = (curveG.x.toNat : Nat) := Int.cast_natCast _
  have hy : ((-(curveG.y.toNat : Int) : Int) : ZMod prime) =
      curve.negY (curveG.x.toNat : Nat) (curveG.y.toNat : Nat) := by
    simp [shortCurve, Affine.negY]
  rw [hx, hy]
  exact ⟨_, Affine.Point.neg_some nonsingular_curveG⟩

/-- The base point has order `n`. -/
theorem order_basePoint : curveOrder • basePoint = 0 := by
  have hend := endsAtNegG_eq
  unfold endsAtNegG at hend
  dsimp only at hend
  split at hend
  · cases hend
  · next P hchain =>
    simp only [Bool.and_eq_true, beq_iff_eq] at hend
    obtain ⟨hx, hy⟩ := hend
    obtain ⟨hxy, hneg⟩ := exists_neg_basePoint
    have hG : Jacobian ((curveG.x.toNat : Int) : ZMod prime) ((curveG.y.toNat : Int) : ZMod prime) 1
        basePoint := by
      have h := is_intPoint
      rw [IntPoint.Is, Int.cast_one] at h
      exact h
    have hstart : IntPoint.Is ⟨curveG.x.toNat, curveG.y.toNat, 1⟩ (1 • basePoint) := by
      rw [one_nsmul]
      exact is_intPoint
    have hP := IntPoint.Is.chain two_ne_zero_prime hG hstart hchain
    rw [orderBits_value] at hP
    have hlast : (curveOrder - 1) • basePoint = -basePoint := (hP.eq_some hxy hx hy).trans hneg.symm
    have hsucc : curveOrder = curveOrder - 1 + 1 := by decide
    rw [hsucc, succ_nsmul, hlast, neg_add_cancel]

end DualBank.UECC
