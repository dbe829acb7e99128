import Mathlib.Algebra.Group.Basic
import Mathlib.Data.Nat.Bitwise
import Mathlib.Data.Nat.Size
import Mathlib.Order.MinMax
import Mathlib.Tactic.Abel

/-!
# Two multiples at once

`u • G + v • Q` from the bits of `u` and `v`, the highest first: double, and add one of `G`, `Q`
and `G + Q`.
-/

namespace DualBank.Lib

variable {A : Type*} [AddCommGroup A]

/-- What a pair of bits adds. -/
def shamirEntry (G Q : A) (i j : Bool) : A := i.toNat • G + j.toNat • Q

/-- The sum for the bits from `k` on. -/
def shamirPrefix (G Q : A) (u v k : Nat) : A := (u / 2 ^ k) • G + (v / 2 ^ k) • Q

/-- The number of bits that the loop goes through. -/
def shamirBits (u v : Nat) : Nat := max (Nat.size u) (Nat.size v)

variable {G Q : A} {u v : Nat}

@[simp] theorem shamirPrefix_zero : shamirPrefix G Q u v 0 = u • G + v • Q := by
  rw [shamirPrefix, pow_zero, Nat.div_one, Nat.div_one]

theorem div_two_pow (n k : Nat) : n / 2 ^ k = 2 * (n / 2 ^ (k + 1)) + (n.testBit k).toNat := by
  rw [Nat.toNat_testBit, pow_succ, ← Nat.div_div_eq_div_mul]
  omega

/-- One bit more. -/
theorem shamirPrefix_succ (k : Nat) : shamirPrefix G Q u v k =
    2 • shamirPrefix G Q u v (k + 1) + shamirEntry G Q (u.testBit k) (v.testBit k) := by
  rw [shamirPrefix, shamirPrefix, shamirEntry, div_two_pow u, div_two_pow v, add_nsmul, add_nsmul,
    mul_nsmul', mul_nsmul', nsmul_add]
  abel

/-- The top bits. -/
theorem shamirPrefix_top {k : Nat} (hk : shamirBits u v ≤ k + 1) :
    shamirPrefix G Q u v k = shamirEntry G Q (u.testBit k) (v.testBit k) := by
  obtain ⟨hu, hv⟩ := Nat.max_le.1 hk
  have hzero : ∀ {n : Nat}, Nat.size n ≤ k + 1 → n / 2 ^ (k + 1) = 0 := fun h ↦
    Nat.div_eq_of_lt (Nat.size_le.1 h)
  rw [shamirPrefix, shamirEntry, div_two_pow u, div_two_pow v, hzero hu, hzero hv, Nat.mul_zero,
    Nat.zero_add, Nat.zero_add]

/-- One of the top bits is set. -/
theorem testBit_top {k : Nat} (hk : shamirBits u v = k + 1) :
    u.testBit k = true ∨ v.testBit k = true := by
  have hbit : ∀ {n : Nat}, Nat.size n = k + 1 → n.testBit k = true := by
    intro n hn
    have hlo : 2 ^ k ≤ n := Nat.lt_size.1 (by omega)
    have hhi : n < 2 ^ (k + 1) := Nat.size_le.1 hn.le
    rw [Nat.testBit_eq_decide_div_mod_eq, Nat.div_eq_of_lt_le (m := n) (n := 2 ^ k) (k := 1)]
    · rfl
    · omega
    · rw [pow_succ] at hhi
      omega
  obtain hmax | hmax := max_choice (Nat.size u) (Nat.size v)
  · exact .inl (hbit (hmax.symm.trans hk))
  · exact .inr (hbit (hmax.symm.trans hk))

/-- No doubling on the way gives zero, and no addition is one of equal or opposite
elements. -/
def ShamirRegular (G Q : A) (u v : Nat) : Prop :=
  ∀ k, k + 1 < shamirBits u v →
    2 • shamirPrefix G Q u v (k + 1) ≠ 0 ∧
      ((u.testBit k || v.testBit k) = true →
        shamirEntry G Q (u.testBit k) (v.testBit k) ≠ 2 • shamirPrefix G Q u v (k + 1) ∧
          shamirEntry G Q (u.testBit k) (v.testBit k) ≠ -(2 • shamirPrefix G Q u v (k + 1)))

end DualBank.Lib
