import DualBank.Ecc.Verify
import DualBank.Lib.Ecdsa

/-!
# The verifier verifies

`uECC_verify` against ECDSA over the group of the curve.  The loop carries the Jacobian
coordinates of the sum so far; a doubling or an addition that the formulas do not cover
leaves `z = 0`, which stays so to the end and rejects the signature.
-/

namespace DualBank.UECC

open Lib WeierstrassCurve

/-! ## The curve as a group -/

/-- The coefficient `b` of the curve. -/
def coeffB : ZMod prime := (curveB.toNat : Nat)

/-- The curve. -/
abbrev curve : Affine (ZMod prime) := shortCurve coeffB

theorem toNat_curveB :
    curveB.toNat = 0x5AC635D8AA3A93E7B3EBBD55769886BC651D06B0CC53B0F63BCE3C3E27D2604B := rfl

theorem holds_curveB : Holds curveB coeffB := ⟨by rw [toNat_curveB]; decide, rfl⟩

theorem coeffB_ne_zero : coeffB ≠ 0 := by
  rw [← holds_curveB.zero_iff.ne, toNat_curveB]
  decide

theorem discriminant_ne_zero : curve.Δ ≠ 0 := by
  have h : curve.Δ = -16 * (4 * (-3) ^ 3 + 27 * coeffB ^ 2) := by
    simp only [WeierstrassCurve.Δ, WeierstrassCurve.b₂, WeierstrassCurve.b₄, WeierstrassCurve.b₆,
      WeierstrassCurve.b₈, shortCurve]
    ring
  have hval : 4 * (-3) ^ 3 + 27 * coeffB ^ 2 ≠ 0 := by
    rw [coeffB, toNat_curveB]
    decide
  have h16 : (-16 : ZMod prime) ≠ 0 := by decide
  rw [h]
  exact mul_ne_zero h16 hval

/-- Every solution of the equation is a point. -/
theorem nonsingular_iff {x y : ZMod prime} :
    curve.Nonsingular x y ↔ y ^ 2 = x ^ 3 - 3 * x + coeffB := by
  rw [← Affine.equation_iff_nonsingular_of_Δ_ne_zero discriminant_ne_zero, equation_shortCurve]

/-- The array coordinates of a point of the curve other than zero. -/
def EccPoint.Is (P : EccPoint) (Q : curve.Point) : Prop :=
  ∃ x y h, Q = .some x y h ∧ P.Holds x y

theorem EccPoint.Is.jacobian {P : EccPoint} {Q : curve.Point} (h : P.Is Q) :
    ∃ x y, P.Holds x y ∧ Jacobian x y 1 Q := by
  obtain ⟨x, y, hxy, rfl, hP⟩ := h
  exact ⟨x, y, hP, .of_affine hxy⟩

/-- The coordinates stand for one point only. -/
theorem EccPoint.Is.unique {P : EccPoint} {Q Q' : curve.Point} (h : P.Is Q) (h' : P.Is Q') :
    Q = Q' := by
  obtain ⟨x, y, hxy, rfl, hP⟩ := h
  obtain ⟨x', y', hxy', rfl, hP'⟩ := h'
  obtain rfl : x = x' := (hP.1.eq_iff hP'.1).1 rfl
  obtain rfl : y = y' := (hP.2.eq_iff hP'.2).1 rfl
  rfl

theorem EccPoint.Is.ne_zero {P : EccPoint} {Q : curve.Point} (h : P.Is Q) : Q ≠ 0 := by
  obtain ⟨x, y, hxy, rfl, -⟩ := h
  exact Affine.Point.some_ne_zero hxy

theorem toNat_curveG :
    curveG.x.toNat = 0x6B17D1F2E12C4247F8BCE6E563A440F277037D812DEB33A0F4A13945D898C296 ∧
      curveG.y.toNat = 0x4FE342E2FE1A7F9B8EE7EB4A7C0F9E162BCE33576B315ECECBB6406837BF51F5 :=
  ⟨rfl, rfl⟩

theorem holds_curveG :
    curveG.Holds ((curveG.x.toNat : Nat) : ZMod prime) ((curveG.y.toNat : Nat) : ZMod prime) :=
  ⟨⟨by rw [toNat_curveG.1]; decide, rfl⟩, ⟨by rw [toNat_curveG.2]; decide, rfl⟩⟩

theorem nonsingular_curveG :
    curve.Nonsingular ((curveG.x.toNat : Nat) : ZMod prime)
      ((curveG.y.toNat : Nat) : ZMod prime) := by
  rw [nonsingular_iff, toNat_curveG.1, toNat_curveG.2, coeffB, toNat_curveB]
  decide

/-- The base point. -/
def basePoint : curve.Point := .some _ _ nonsingular_curveG

theorem is_basePoint : curveG.Is basePoint := ⟨_, _, nonsingular_curveG, rfl, holds_curveG⟩

/-! ## The check of the public key -/

theorem holds_xSideDefault {a : Vli 8} {x : ZMod prime} (ha : Holds a x) :
    Holds (xSideDefault a) (x ^ 3 - 3 * x + coeffB) := by
  have h3 : Holds (vliOfWords 3 0 0 0 0 0 0 0) 3 := by
    have hval : (vliOfWords 3 0 0 0 0 0 0 0).toNat = 3 := by decide
    exact ⟨by rw [hval]; decide, by rw [hval]; rfl⟩
  have h := ((ha.square.sub h3).mul ha).add holds_curveB
  rw [show (x ^ 2 - 3) * x + coeffB = x ^ 3 - 3 * x + coeffB by ring] at h
  exact h

/-- `uECC_valid_point` accepts exactly the reduced coordinates of the points of the curve. -/
theorem validPoint_eq_one_iff {P : EccPoint} : validPoint P = 1 ↔ ∃ Q : curve.Point, P.Is Q := by
  have hprime := toNat_curveP
  unfold validPoint
  simp only [vliIsZero_iff, ne_eq, vliCmpUnsafe_eq_one, hprime]
  constructor
  · intro h
    split_ifs at h with hzero hrange heq
    · exact absurd h (by decide)
    · exact absurd h (by decide)
    · obtain ⟨hx, hy⟩ := not_or.1 hrange
      have hPx : Holds P.x (P.x.toNat : Nat) := ⟨not_not.1 hx, rfl⟩
      have hPy : Holds P.y (P.y.toNat : Nat) := ⟨not_not.1 hy, rfl⟩
      have hcurve := (hPy.square.eq_iff (holds_xSideDefault hPx)).1 (vliEqual_iff.1 heq)
      exact ⟨.some _ _ (nonsingular_iff.2 hcurve), _, _, _, rfl, hPx, hPy⟩
    · exact absurd h (by decide)
  · rintro ⟨Q, x, y, hxy, rfl, hPx, hPy⟩
    have hcurve := nonsingular_iff.1 hxy
    have hzero : ¬(Vli.join P.x P.y).toNat = 0 := by
      rw [Vli.toNat_join]
      intro h
      have hx0 := hPx.zero_iff.1 (by omega)
      have hy0 := hPy.zero_iff.1 (by omega)
      rw [hx0, hy0] at hcurve
      exact coeffB_ne_zero (by linear_combination -hcurve)
    rw [if_neg hzero, if_neg (not_or.2 ⟨not_not.2 hPx.1, not_not.2 hPy.1⟩),
      if_pos (vliEqual_iff.2 ((hPy.square.eq_iff (holds_xSideDefault hPx)).2 hcurve))]

/-! ## The sum of the two points -/

/-- Two points with different `x` coordinates are added up to an affine point. -/
theorem is_sumPoint {P : EccPoint} {Q : curve.Point} (hP : P.Is Q)
    (hx : P.x.toNat ≠ curveG.x.toNat) : (sumPoint P).Is (basePoint + Q) := by
  obtain ⟨x₁, y₁, hG, hJ₁⟩ := is_basePoint.jacobian
  obtain ⟨x₂, y₂, hQ, hJ₂⟩ := hP.jacobian
  have hne : x₁ ≠ x₂ := fun h ↦ hx ((hQ.1.eq_iff hG.1).2 h.symm)
  have hsum := hJ₁.add hJ₂ hne
  rw [one_mul] at hsum
  obtain ⟨hxy, heq⟩ := hsum.affine
  exact ⟨_, _, hxy, heq, holds_applyZ (holds_xYcZAdd hG hQ) (hQ.1.sub hG.1).inv⟩

/-! ## The loop -/

/-- The loop's arrays hold Jacobian coordinates of `A`. -/
def Live (st : EccPoint × Vli 8) (A : curve.Point) : Prop :=
  ∃ X Y Z, st.1.Holds X Y ∧ Holds st.2 Z ∧ Jacobian X Y Z A

/-- The loop has lost the point. -/
def Lost (st : EccPoint × Vli 8) : Prop := Holds st.2 0

/-- Once lost, the point stays lost. -/
theorem Lost.step {points : List (Option EccPoint)} {u1 u2 : Vli 8} {i : Nat}
    {st : EccPoint × Vli 8} (h : Lost st) : Lost (shamirStep points u1 u2 i st) := by
  unfold shamirStep
  rw [doubleJacobianDefault_of_zero h]
  dsimp only
  split
  · exact h
  · exact h.zero_left

/-- The table of the loop: nothing for two zero bits, else the sum of the points that the bits
stand for. -/
structure Table (points : List (Option EccPoint)) (G Q : curve.Point) : Prop where
  empty : points.getD 0 none = none
  entry : ∀ i j : Bool, (i || j) = true → ∃ P,
    points.getD (i.toNat ||| j.toNat <<< 1) none = some P ∧ P.Is (shamirEntry G Q i j)

/-- The condition under which a turn finds the next sum. -/
def StepRegular (A E : curve.Point) (bits : Bool) : Prop :=
  2 • A ≠ 0 ∧ (bits = true → E ≠ 2 • A ∧ E ≠ -(2 • A))

/-- The doubling of a turn. -/
theorem live_double {st : EccPoint × Vli 8} {A : curve.Point} (h : Live st A) :
    (2 • A ≠ 0 → Live (doubleJacobianDefault st.1 st.2) (2 • A)) ∧
      (2 • A = 0 → Lost (doubleJacobianDefault st.1 st.2)) := by
  obtain ⟨X, Y, Z, hP, hZ, hJ⟩ := h
  obtain ⟨hP', hZ'⟩ := holds_doubleJacobianDefault hP hZ hJ.1
  have hiff := hJ.double_eq_zero_iff two_ne_zero_prime
  constructor
  · intro hne
    exact ⟨_, _, _, hP', hZ', hJ.double two_ne_zero_prime (mt hiff.2 hne)⟩
  · intro hzero
    rw [hiff.1 hzero, zero_mul] at hZ'
    exact hZ'

/-- The addition of a turn. -/
theorem live_add {st : EccPoint × Vli 8} {A E : curve.Point} {P : EccPoint} (h : Live st A)
    (hP : P.Is E) :
    let t := applyZ P st.2
    let next := ((xYcZAdd t st.1).2.1, vliModMultFast st.2 (vliModSub st.1.x t.x curveP))
    (E ≠ A ∧ E ≠ -A → Live next (A + E)) ∧ (¬(E ≠ A ∧ E ≠ -A) → Lost next) := by
  obtain ⟨X, Y, Z, hst, hZ, hJ⟩ := h
  obtain ⟨x, y, hxy, rfl, hPxy⟩ := hP
  have ht := holds_applyZ hPxy hZ
  have hJE : Jacobian (x * Z ^ 2) (y * Z ^ 3) Z (.some x y hxy : curve.Point) :=
    ⟨hJ.1, x, y, hxy, rfl, rfl, rfl⟩
  have hZ' := hZ.mul (hst.1.sub ht.1)
  have hiff := hJE.x_eq_iff hJ
  intro t next
  constructor
  · intro hne
    have hsum := hJE.add hJ (mt hiff.1 (not_or.2 hne))
    rw [add_comm] at hsum
    exact ⟨_, _, _, holds_xYcZAdd ht hst, hZ', hsum⟩
  · intro heq
    have hX : x * Z ^ 2 = X := by
      rw [hiff]
      by_contra h
      exact heq (not_or.1 h)
    rw [hX, sub_self, mul_zero] at hZ'
    exact hZ'

/-- One turn of the loop. -/
theorem live_step {points : List (Option EccPoint)} {G Q : curve.Point} (ht : Table points G Q)
    (u1 u2 : Vli 8) (i : Nat) {st : EccPoint × Vli 8} {A : curve.Point} (h : Live st A) :
    let E := shamirEntry G Q (u1.toNat.testBit i) (u2.toNat.testBit i)
    let bits := u1.toNat.testBit i || u2.toNat.testBit i
    (StepRegular A E bits → Live (shamirStep points u1 u2 i st) (2 • A + E)) ∧
      (¬StepRegular A E bits → Lost (shamirStep points u1 u2 i st)) := by
  intro E bits
  obtain ⟨hlive, hlost⟩ := live_double h
  have hindex : shamirIndex u1 u2 i =
      ((u1.toNat.testBit i).toNat ||| (u2.toNat.testBit i).toNat <<< 1) := by
    rw [shamirIndex, vliTestBit_eq, vliTestBit_eq]
  unfold shamirStep
  rw [hindex]
  dsimp only
  by_cases hbits : bits = true
  · obtain ⟨P, hget, hP⟩ := ht.entry _ _ hbits
    rw [hget]
    dsimp only
    by_cases hzero : 2 • A = 0
    · exact ⟨fun hreg ↦ absurd hzero hreg.1, fun _ ↦ (hlost hzero).zero_left⟩
    · obtain ⟨hadd, hsame⟩ := live_add (hlive hzero) hP
      exact ⟨fun hreg ↦ hadd (hreg.2 hbits), fun hreg ↦ hsame fun hne ↦ hreg ⟨hzero, fun _ ↦ hne⟩⟩
  · obtain ⟨hi, hj⟩ := Bool.or_eq_false_iff.1 (Bool.eq_false_iff.2 hbits)
    have hE : E = 0 := by
      simp only [E, hi, hj, shamirEntry]
      simp
    have hget : points.getD ((u1.toNat.testBit i).toNat ||| (u2.toNat.testBit i).toNat <<< 1) none =
        none := by
      rw [hi, hj]
      exact ht.empty
    rw [hget, hE, add_zero]
    exact ⟨fun hreg ↦ hlive hreg.1,
      fun hreg ↦ hlost (by_contra fun hne ↦ hreg ⟨hne, fun hb ↦ absurd hb hbits⟩)⟩

theorem Lost.loop {points : List (Option EccPoint)} {u1 u2 : Vli 8} {count : Nat}
    {st : EccPoint × Vli 8} (h : Lost st) : Lost (shamirLoop points u1 u2 count st) := by
  induction count generalizing st with
  | zero => exact h
  | succ count ih => exact ih h.step

/-- The run of the loop. -/
theorem live_loop {points : List (Option EccPoint)} {G Q : curve.Point} (ht : Table points G Q)
    {u1 u2 : Vli 8} {count : Nat} {st : EccPoint × Vli 8}
    (h : Live st (shamirPrefix G Q u1.toNat u2.toNat count)) :
    let regular := fun k ↦ StepRegular (shamirPrefix G Q u1.toNat u2.toNat (k + 1))
      (shamirEntry G Q (u1.toNat.testBit k) (u2.toNat.testBit k))
      (u1.toNat.testBit k || u2.toNat.testBit k)
    ((∀ k < count, regular k) →
        Live (shamirLoop points u1 u2 count st) (u1.toNat • G + u2.toNat • Q)) ∧
      (¬(∀ k < count, regular k) → Lost (shamirLoop points u1 u2 count st)) := by
  intro regular
  induction count generalizing st with
  | zero =>
      rw [shamirPrefix_zero] at h
      exact ⟨fun _ ↦ h, fun hreg ↦ absurd (fun k hk ↦ absurd hk (Nat.not_lt_zero k)) hreg⟩
  | succ count ih =>
      obtain ⟨hstep, hfail⟩ := live_step ht u1 u2 count h
      rw [← shamirPrefix_succ] at hstep
      by_cases hreg : regular count
      · obtain ⟨hlive, hrest⟩ := ih (hstep hreg)
        refine ⟨fun hall ↦ hlive fun k hk ↦ hall k (Nat.lt_succ_of_lt hk),
          fun hall ↦ hrest fun h ↦ ?_⟩
        refine hall fun k hk ↦ ?_
        obtain hlt | rfl := Nat.lt_succ_iff_lt_or_eq.1 hk
        · exact h k hlt
        · exact hreg
      · exact ⟨fun hall ↦ absurd (hall count (Nat.lt_succ_self count)) hreg,
          fun _ ↦ (hfail hreg).loop⟩

/-! ## The double multiplication -/

theorem table_shamirPoints {P : EccPoint} {Q : curve.Point} (hP : P.Is Q)
    (hx : P.x.toNat ≠ curveG.x.toNat) : Table (shamirPoints P (sumPoint P)) basePoint Q where
  empty := rfl
  entry := by
    rintro (_ | _) (_ | _) hij
    · cases hij
    · exact ⟨P, rfl, by simpa [shamirEntry] using hP⟩
    · exact ⟨curveG, rfl, by simpa [shamirEntry] using is_basePoint⟩
    · exact ⟨sumPoint P, rfl, by simpa [shamirEntry] using is_sumPoint hP hx⟩

/-- The `x` coordinate of `u1 * G + u2 * Q`, or zero when the loop lost the point. -/
theorem shamirX_spec {P : EccPoint} {Q : curve.Point} (hP : P.Is Q)
    (hx : P.x.toNat ≠ curveG.x.toNat) {u1 u2 : Vli 8} (hpos : 0 < shamirBits u1.toNat u2.toNat) :
    (ShamirRegular basePoint Q u1.toNat u2.toNat →
        ∃ x y h, u1.toNat • basePoint + u2.toNat • Q = .some x y h ∧ Holds (shamirX P u1 u2) x) ∧
      (¬ShamirRegular basePoint Q u1.toNat u2.toNat → Holds (shamirX P u1 u2) 0) := by
  have htable := table_shamirPoints hP hx
  obtain ⟨top, htop⟩ : ∃ top, shamirBits u1.toNat u2.toNat = top + 1 :=
    ⟨_, (Nat.sub_add_cancel hpos).symm⟩
  have hbits : max (vliNumBits u1) (vliNumBits u2) = top + 1 := by
    rw [vliNumBits_eq, vliNumBits_eq]
    exact htop
  -- the top bits select the first point
  obtain ⟨first, hfirst, hIs⟩ := htable.entry _ _ (Bool.or_eq_true_iff.2 (testBit_top htop))
  rw [← shamirPrefix_top htop.le] at hIs
  obtain ⟨X, Y, hXY, hJ⟩ := hIs.jacobian
  have hstart : Live (first, vliOne 8) (shamirPrefix basePoint Q u1.toNat u2.toNat top) :=
    ⟨X, Y, 1, hXY, Holds.one, hJ⟩
  obtain ⟨hlive, hlost⟩ := live_loop htable hstart
  have hregular : ShamirRegular basePoint Q u1.toNat u2.toNat ↔ ∀ k < top,
      StepRegular (shamirPrefix basePoint Q u1.toNat u2.toNat (k + 1))
        (shamirEntry basePoint Q (u1.toNat.testBit k) (u2.toNat.testBit k))
        (u1.toNat.testBit k || u2.toNat.testBit k) := by
    rw [ShamirRegular, htop]
    simp only [Nat.add_lt_add_iff_right, StepRegular]
  have hX : shamirX P u1 u2 = (applyZ (shamirLoop (shamirPoints P (sumPoint P)) u1 u2 top
      (first, vliOne 8)).1 (vliModInv (shamirLoop (shamirPoints P (sumPoint P)) u1 u2 top
        (first, vliOne 8)).2 curveP)).x := by
    simp only [shamirX, hbits, Nat.add_sub_cancel, shamirIndex, vliTestBit_eq, hfirst,
      Option.getD_some]
  rw [hX, hregular]
  constructor
  · intro hreg
    obtain ⟨X, Y, Z, hst, hZ, hJ⟩ := hlive hreg
    obtain ⟨hxy, heq⟩ := hJ.affine
    exact ⟨_, _, hxy, heq, (holds_applyZ hst hZ.inv).1⟩
  · intro hreg
    have hinv : Holds _ (0⁻¹ : ZMod prime) := Holds.inv (hlost hreg)
    have hsq := hinv.square
    rw [inv_zero, zero_pow two_ne_zero] at hsq
    simp only [applyZ]
    exact hsq.zero_right

/-! ## The verification -/

/-- The number that the scheme takes of a point. -/
def xCoord : curve.Point → Option Nat
  | .zero => none
  | .some x _ _ => some x.val

theorem xCoord_neg (P : curve.Point) : xCoord (-P) = xCoord P := by
  cases P with
  | zero => rfl
  | some x y h => rfl

/-- The two halves of a signature as numbers. -/
def sigR (signature : List UInt8) : Nat := beNat (signature.take 32)

def sigS (signature : List UInt8) : Nat := beNat ((signature.drop 32).take 32)

/-- The number that is signed. -/
def hashNat (messageHash : List UInt8) : Nat := beNat (messageHash.take 32)

theorem toNat_bytes_take (bytes : List UInt8) :
    (vliBytesToNative (bytes.take 32)).toNat = beNat (bytes.take 32) :=
  toNat_vliBytesToNative (List.length_take_le ..)

/-- The multipliers as the code computes them. -/
theorem toNat_multiplier {c s : Vli 8} (hs : s.toNat < curveOrder) :
    (vliModMult c (vliModInv s curveN) curveN).toNat =
      ecdsaMultiplier curveOrder c.toNat s.toNat := by
  obtain ⟨-, hinv⟩ := cast_vliModInv toNat_curveN (by decide) hs
  rw [toNat_vliModMult (by rw [toNat_curveN]; decide), toNat_curveN,
    ecdsaMultiplier, ← hinv, ← Nat.cast_mul, ZMod.val_natCast]

theorem prime_lt : prime < 2 * curveOrder := by decide

/-- The reduction of the `x` coordinate by at most one subtraction. -/
theorem toNat_reduceOrder {rx : Vli 8} {x : ZMod prime} (h : Holds rx x) :
    (if vliCmpUnsafe curveN rx ≠ 1 then (vliSub rx curveN).1 else rx).toNat =
      x.val % curveOrder := by
  have hlt := h.1
  have hp := prime_lt
  rw [← h.toNat_eq]
  simp only [ne_eq, vliCmpUnsafe_eq_one, toNat_curveN]
  split_ifs with hlt'
  · rw [Nat.mod_eq_of_lt hlt']
  · rw [toNat_vliSub_of_le (by rw [toNat_curveN]; omega), toNat_curveN,
      Nat.mod_eq_sub_mod (Nat.le_of_not_lt hlt'), Nat.mod_eq_of_lt (by omega)]

/-- The comparison at the end of the verification. -/
theorem vliEqual_shamirX {P : EccPoint} {Q : curve.Point} (hP : P.Is Q)
    (hx : P.x.toNat ≠ curveG.x.toNat) (u1 u2 r : Vli 8) (hu2 : 0 < u2.toNat) (hr : 0 < r.toNat) :
    vliEqual (if vliCmpUnsafe curveN (shamirX P u1 u2) ≠ 1 then (vliSub (shamirX P u1 u2) curveN).1
        else shamirX P u1 u2) r = true ↔
      (∃ x, xCoord (u1.toNat • basePoint + u2.toNat • Q) = some x ∧ x % curveOrder = r.toNat) ∧
        ShamirRegular basePoint Q u1.toNat u2.toNat := by
  have hpos : 0 < shamirBits u1.toNat u2.toNat :=
    Nat.lt_of_lt_of_le (Nat.size_pos.2 hu2) (Nat.le_max_right _ _)
  obtain ⟨hfound, hlost⟩ := shamirX_spec hP hx hpos
  rw [vliEqual_iff]
  by_cases hreg : ShamirRegular basePoint Q u1.toNat u2.toNat
  · obtain ⟨x, y, hxy, hsum, hX⟩ := hfound hreg
    rw [toNat_reduceOrder hX, hsum, and_iff_left hreg]
    constructor
    · intro h
      exact ⟨x.val, rfl, h⟩
    · rintro ⟨x', hx', h⟩
      obtain rfl : x.val = x' := Option.some.inj hx'
      exact h
  · rw [toNat_reduceOrder (hlost hreg), ZMod.val_zero, Nat.zero_mod]
    exact iff_of_false hr.ne fun h ↦ hreg h.2

/-- `uECC_verify` accepts exactly the valid signatures whose multiplication meets no point
that the formulas do not cover. -/
theorem verify_iff {publicKey messageHash signature : List UInt8} {Q : curve.Point}
    (hQ : (publicPoint publicKey).Is Q) (hne : Q ≠ basePoint) (hneg : Q ≠ -basePoint) :
    verify publicKey messageHash signature = 1 ↔
      EcdsaValid curveOrder xCoord basePoint Q (hashNat messageHash) (sigR signature)
          (sigS signature) ∧
        ShamirRegular basePoint Q
          (ecdsaMultiplier curveOrder (hashNat messageHash) (sigS signature))
          (ecdsaMultiplier curveOrder (sigR signature) (sigS signature)) := by
  have hx : (publicPoint publicKey).x.toNat ≠ curveG.x.toNat := by
    obtain ⟨x₁, y₁, hG, hJ₁⟩ := is_basePoint.jacobian
    obtain ⟨x₂, y₂, hP, hJ₂⟩ := hQ.jacobian
    rw [ne_eq, hP.1.eq_iff hG.1, hJ₂.x_eq_iff hJ₁]
    exact not_or.2 ⟨hne, hneg⟩
  have hr : (vliBytesToNative (signature.take 32)).toNat = sigR signature := toNat_bytes_take _
  have hs : (vliBytesToNative ((signature.drop 32).take 32)).toNat = sigS signature :=
    toNat_bytes_take _
  have he : (bits2int messageHash).toNat = hashNat messageHash := toNat_bytes_take messageHash
  unfold verify
  generalize vliBytesToNative (signature.take 32) = r at hr ⊢
  generalize vliBytesToNative ((signature.drop 32).take 32) = s at hs ⊢
  generalize bits2int messageHash = e at he ⊢
  simp only [vliIsZero_iff, ne_eq, vliCmpUnsafe_eq_one (a := curveN) (b := r),
    vliCmpUnsafe_eq_one (a := curveN) (b := s), toNat_curveN]
  rw [← he, ← hr, ← hs]
  by_cases hzero : r.toNat = 0 ∨ s.toNat = 0
  · rw [if_pos hzero]
    refine iff_of_false (by decide) fun h ↦ ?_
    obtain ⟨⟨hrpos, -, hspos, -⟩, -⟩ := h
    omega
  rw [if_neg hzero]
  by_cases hrange : ¬r.toNat < curveOrder ∨ ¬s.toNat < curveOrder
  · rw [if_pos hrange]
    refine iff_of_false (by decide) fun h ↦ ?_
    obtain ⟨⟨-, hrlt, -, hslt, -⟩, -⟩ := h
    exact hrange.elim (absurd hrlt) (absurd hslt)
  rw [if_neg hrange]
  obtain ⟨hr0, hs0⟩ := not_or.1 hzero
  obtain ⟨hrlt, hslt⟩ := not_or.1 hrange
  have hrlt := not_not.1 hrlt
  have hslt := not_not.1 hslt
  have hu1 := toNat_multiplier (c := e) hslt
  have hu2 := toNat_multiplier (c := r) hslt
  have hu2pos : 0 < ecdsaMultiplier curveOrder r.toNat s.toNat := by
    refine Nat.pos_of_ne_zero fun h ↦ ?_
    rw [ecdsaMultiplier, ZMod.val_eq_zero, mul_eq_zero, inv_eq_zero] at h
    exact h.elim (cast_ne_zero (Nat.pos_of_ne_zero hr0) hrlt)
      (cast_ne_zero (Nat.pos_of_ne_zero hs0) hslt)
  have hcore := vliEqual_shamirX hQ hx (vliModMult e (vliModInv s curveN) curveN)
    (vliModMult r (vliModInv s curveN) curveN) r (by rw [hu2]; exact hu2pos)
    (Nat.pos_of_ne_zero hr0)
  rw [hu1, hu2] at hcore
  have hite : ∀ c : Prop, [Decidable c] → ((if c then (1 : Int) else 0) = 1 ↔ c) := by
    intro c _
    split_ifs with h
    · exact iff_of_true rfl h
    · exact iff_of_false (by decide) h
  refine (hite _).trans (hcore.trans ?_)
  rw [EcdsaValid, ecdsaPoint]
  constructor
  · rintro ⟨hx, hreg⟩
    exact ⟨⟨Nat.pos_of_ne_zero hr0, hrlt, Nat.pos_of_ne_zero hs0, hslt, hx⟩, hreg⟩
  · rintro ⟨⟨-, -, -, -, hx⟩, hreg⟩
    exact ⟨hx, hreg⟩

end DualBank.UECC
