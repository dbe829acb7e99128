import DualBank.Ecc.Inverse
import DualBank.Ecc.Primes
import DualBank.Lib.Jacobian

/-!
# Points

The field operations of `uECC.c` on reduced arrays, and over them the point operations that
`uECC_verify` uses: `apply_z`, `XYcZ_add` and `double_jacobian_default`.
-/

namespace DualBank.UECC

open Lib WeierstrassCurve

/-! ## Field operations -/

/-- `uECC_vli_modMult_fast`. -/
@[irreducible] def vliModMultFast (left right : Vli 8) : Vli 8 :=
  vliMmodFastSecp256r1 (vliMult left right)

/-- `uECC_vli_modSquare_fast`. -/
@[irreducible] def vliModSquareFast (left : Vli 8) : Vli 8 := vliMmodFastSecp256r1 (vliSquare left)

/-- The array is the reduced form of the residue `x`. -/
def Holds (a : Vli 8) (x : ZMod prime) : Prop := a.toNat < prime ∧ (a.toNat : ZMod prime) = x

namespace Holds

variable {a c : Vli 8} {x y : ZMod prime}

theorem lt_curveP (h : Holds a x) : a.toNat < curveP.toNat := toNat_curveP.symm ▸ h.1

theorem of_mod {k : Nat} (h : a.toNat = k % prime) (hk : (k : ZMod prime) = x) : Holds a x := by
  refine ⟨h ▸ Nat.mod_lt _ prime_prime.pos, ?_⟩
  rw [h, ZMod.natCast_mod, hk]

theorem toNat_eq (h : Holds a x) : a.toNat = x.val := by
  rw [← h.2, ZMod.val_natCast_of_lt h.1]

theorem eq_iff (ha : Holds a x) (hc : Holds c y) : a.toNat = c.toNat ↔ x = y := by
  rw [ha.toNat_eq, hc.toNat_eq]
  exact (ZMod.val_injective prime).eq_iff

theorem zero_iff (h : Holds a x) : a.toNat = 0 ↔ x = 0 := by
  rw [h.toNat_eq, ZMod.val_eq_zero]

/-- A product with zero, whatever the other array is. -/
theorem zero_left (ha : Holds a 0) : Holds (vliModMultFast a c) 0 := by
  unfold vliModMultFast
  refine of_mod (toNat_vliMmodFastSecp256r1 _) ?_
  rw [toNat_vliMult, Nat.cast_mul, ha.2, zero_mul]

theorem zero_right (hc : Holds c 0) : Holds (vliModMultFast a c) 0 := by
  unfold vliModMultFast
  refine of_mod (toNat_vliMmodFastSecp256r1 _) ?_
  rw [toNat_vliMult, Nat.cast_mul, hc.2, mul_zero]

theorem mul (ha : Holds a x) (hc : Holds c y) : Holds (vliModMultFast a c) (x * y) := by
  unfold vliModMultFast
  refine of_mod (toNat_vliMmodFastSecp256r1 _) ?_
  rw [toNat_vliMult, Nat.cast_mul, ha.2, hc.2]

theorem square (ha : Holds a x) : Holds (vliModSquareFast a) (x ^ 2) := by
  unfold vliModSquareFast
  refine of_mod (toNat_vliMmodFastSecp256r1 _) ?_
  rw [toNat_vliSquare, Nat.cast_mul, ha.2, sq]

theorem add (ha : Holds a x) (hc : Holds c y) : Holds (vliModAdd a c curveP) (x + y) := by
  have h := toNat_vliModAdd ha.lt_curveP hc.lt_curveP
  rw [toNat_curveP] at h
  exact of_mod h (by rw [Nat.cast_add, ha.2, hc.2])

theorem sub (ha : Holds a x) (hc : Holds c y) : Holds (vliModSub a c curveP) (x - y) := by
  have h := toNat_vliModSub ha.lt_curveP hc.lt_curveP
  rw [toNat_curveP] at h
  refine of_mod h ?_
  rw [Nat.cast_add, Nat.cast_sub hc.1.le, ZMod.natCast_self, ha.2, hc.2, zero_sub, sub_eq_add_neg]

theorem inv (ha : Holds a x) : Holds (vliModInv a curveP) x⁻¹ := by
  obtain ⟨hlt, hval⟩ := cast_vliModInv toNat_curveP (by decide) ha.1
  exact ⟨hlt, hval.trans (by rw [ha.2])⟩

theorem one : Holds (vliOne 8) 1 := by
  have h : (vliOne 8).toNat = 1 := toNat_vliOne (by norm_num)
  exact ⟨by rw [h]; exact prime_prime.one_lt, by rw [h, Nat.cast_one]⟩

end Holds

theorem two_ne_zero_prime : (2 : ZMod prime) ≠ 0 := by decide

/-- The halving in `double_jacobian_default`: an odd residue goes through its sum with the
prime, whose carry comes back at the top. -/
def vliModHalf (X1 : Vli 8) : Vli 8 :=
  if vliTestBit X1 0 then
    let sum := vliAdd X1 curveP
    vliOrTop (vliRshift1 sum.1) sum.2
  else vliRshift1 X1

theorem Holds.half {a : Vli 8} {x : ZMod prime} (ha : Holds a x) :
    Holds (vliModHalf a) (x / 2) := by
  have hval : (vliModHalf a).toNat = halveMod prime a.toNat := by
    unfold vliModHalf halveMod
    rw [vliTestBit_eq, Nat.testBit_zero]
    by_cases hodd : a.toNat % 2 = 1
    · obtain ⟨hsum, hcarry⟩ := vliAdd_spec a curveP
      rw [toNat_curveP] at hsum
      rw [if_pos (by simpa using hodd), if_neg (by omega), toNat_orTop_rshift1 (by norm_num) hcarry,
        hsum]
    · rw [if_neg (by simpa using hodd), if_pos (by omega), toNat_vliRshift1]
  refine ⟨hval ▸ GcdState.halveMod_lt ha.1, ?_⟩
  rw [hval, eq_div_iff two_ne_zero_prime, mul_comm, GcdState.two_mul_halveMod (by decide), ha.2]

/-! ## The curve -/

/-- `uECC_word_t point[2 * num_words]`: the two coordinates. -/
structure EccPoint where
  x : Vli 8
  y : Vli 8
deriving DecidableEq

/-- `curve_secp256r1.G`. -/
def curveG : EccPoint where
  x := vliOfWords 0xD898C296 0xF4A13945 0x2DEB33A0 0x77037D81
    0x63A440F2 0xF8BCE6E5 0xE12C4247 0x6B17D1F2
  y := vliOfWords 0x37BF51F5 0xCBB64068 0x6B315ECE 0x2BCE3357
    0x7C0F9E16 0x8EE7EB4A 0xFE1A7F9B 0x4FE342E2

/-- `curve_secp256r1.b`. -/
def curveB : Vli 8 :=
  vliOfWords 0x27D2604B 0x3BCE3C3E 0xCC53B0F6 0x651D06B0 0x769886BC 0xB3EBBD55 0xAA3A93E7 0x5AC635D8

/-! ## Operations on points -/

/-- `apply_z`: `(x1, y1)` becomes `(x1 * z^2, y1 * z^3)`. -/
def applyZ (P : EccPoint) (Z : Vli 8) : EccPoint :=
  let t1 := vliModSquareFast Z
  let X1 := vliModMultFast P.x t1
  let t1 := vliModMultFast t1 Z
  let Y1 := vliModMultFast P.y t1
  ⟨X1, Y1⟩

/-- `XYcZ_add`: `P'`, `P + Q` and `sub`. -/
def xYcZAdd (P Q : EccPoint) : EccPoint × EccPoint × Vli 8 :=
  let t5 := vliModSub Q.x P.x curveP
  let t5 := vliModSquareFast t5
  let X1 := vliModMultFast P.x t5
  let X2 := vliModMultFast Q.x t5
  let Y2 := vliModSub Q.y P.y curveP
  let t5 := vliModSquareFast Y2
  let t5 := vliModSub t5 X1 curveP
  let t5 := vliModSub t5 X2 curveP
  let X2 := vliModSub X2 X1 curveP
  let Y1 := vliModMultFast P.y X2
  let sub := vliModSub X1 t5 curveP
  let Y2 := vliModMultFast Y2 sub
  let Y2 := vliModSub Y2 Y1 curveP
  (⟨X1, Y1⟩, ⟨t5, Y2⟩, sub)

/-- `double_jacobian_default`. -/
def doubleJacobianDefault (P : EccPoint) (Z1 : Vli 8) : EccPoint × Vli 8 :=
  if vliIsZero Z1 then (P, Z1)
  else
    let t4 := vliModSquareFast P.y
    let t5 := vliModMultFast P.x t4
    let t4 := vliModSquareFast t4
    let Y1 := vliModMultFast P.y Z1
    let Z1 := vliModSquareFast Z1
    let X1 := vliModAdd P.x Z1 curveP
    let Z1 := vliModAdd Z1 Z1 curveP
    let Z1 := vliModSub X1 Z1 curveP
    let X1 := vliModMultFast X1 Z1
    let Z1 := vliModAdd X1 X1 curveP
    let X1 := vliModAdd X1 Z1 curveP
    let X1 := vliModHalf X1
    let Z1 := vliModSquareFast X1
    let Z1 := vliModSub Z1 t5 curveP
    let Z1 := vliModSub Z1 t5 curveP
    let t5 := vliModSub t5 Z1 curveP
    let X1 := vliModMultFast X1 t5
    let t4 := vliModSub X1 t4 curveP
    (⟨Z1, t4⟩, Y1)

/-- Both coordinates are the reduced form of residues. -/
def EccPoint.Holds (P : EccPoint) (x y : ZMod prime) : Prop :=
  UECC.Holds P.x x ∧ UECC.Holds P.y y

section

variable {P Q : EccPoint} {Z : Vli 8} {x y x' y' z : ZMod prime}

theorem holds_applyZ (hP : P.Holds x y) (hZ : Holds Z z) :
    (applyZ P Z).Holds (x * z ^ 2) (y * z ^ 3) := by
  have h1 := hZ.square
  have h3 := h1.mul hZ
  rw [← pow_succ] at h3
  simp only [EccPoint.Holds, applyZ]
  exact ⟨hP.1.mul h1, hP.2.mul h3⟩

/-- The sum of `XYcZ_add` by the formulas of the co-`z` addition. -/
theorem holds_xYcZAdd (hP : P.Holds x y) (hQ : Q.Holds x' y') :
    (xYcZAdd P Q).2.1.Holds (coZX x y x' y') (coZY x y x' y') := by
  have hA := (hQ.1.sub hP.1).square
  have hB := hP.1.mul hA
  have hC := hQ.1.mul hA
  have hD := hQ.2.sub hP.2
  have hX := (hD.square.sub hB).sub hC
  have hE := hP.2.mul (hC.sub hB)
  simp only [EccPoint.Holds, xYcZAdd]
  exact ⟨hX, (hD.mul (hB.sub hX)).sub hE⟩

/-- `double_jacobian_default` does nothing for `z = 0`. -/
theorem doubleJacobianDefault_of_zero (hZ : Holds Z 0) :
    doubleJacobianDefault P Z = (P, Z) :=
  if_pos (vliIsZero_iff.2 (hZ.zero_iff.2 rfl))

theorem holds_doubleJacobianDefault (hP : P.Holds x y) (hZ : Holds Z z) (hz : z ≠ 0) :
    (doubleJacobianDefault P Z).1.Holds (doubleX x y z) (doubleY x y z) ∧
      Holds (doubleJacobianDefault P Z).2 (y * z) := by
  have hnz : ¬vliIsZero Z = true := fun h ↦ hz (hZ.zero_iff.1 (vliIsZero_iff.1 h))
  have hy2 := hP.2.square
  have hA := hP.1.mul hy2
  have hz2 := hZ.square
  have hsum := hP.1.add hz2
  have hprod := hsum.mul (hsum.sub (hz2.add hz2))
  have hB := (hprod.add (hprod.add hprod)).half
  have hX := (hB.square.sub hA).sub hA
  have hY := (hB.mul (hA.sub hX)).sub hy2.square
  have hslope : ((x + z ^ 2) * (x + z ^ 2 - (z ^ 2 + z ^ 2)) + ((x + z ^ 2) *
      (x + z ^ 2 - (z ^ 2 + z ^ 2)) + (x + z ^ 2) * (x + z ^ 2 - (z ^ 2 + z ^ 2)))) / 2 =
        doubleSlope x z := by
    rw [doubleSlope]
    ring
  have hXeq : doubleSlope x z ^ 2 - x * y ^ 2 - x * y ^ 2 = doubleX x y z := by
    rw [doubleX]
    ring
  have hYeq : doubleSlope x z * (x * y ^ 2 - doubleX x y z) - (y ^ 2) ^ 2 = doubleY x y z := by
    rw [doubleY]
    ring
  rw [hslope, hXeq] at hX hY
  rw [hYeq] at hY
  simp only [EccPoint.Holds, doubleJacobianDefault, if_neg hnz]
  exact ⟨⟨hX, hY⟩, hP.2.mul hZ⟩

end

end DualBank.UECC
