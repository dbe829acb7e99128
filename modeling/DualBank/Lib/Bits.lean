import Mathlib.Algebra.Order.Group.Nat
import Mathlib.Data.Nat.Bitwise
import Mathlib.Data.UInt
import Mathlib.Tactic.Ring

/-!
# Strings of bits

Numbers as strings of bits, the lowest first, and what a reader of such strings takes from
their front.
-/

namespace DualBank.Lib.Bits

/-- The number of a string of bits. -/
def ofBits : List Bool → Nat
  | [] => 0
  | b :: bs => b.toNat + 2 * ofBits bs

/-- The lowest `k` bits of a number. -/
def toBits : Nat → Nat → List Bool
  | 0, _ => []
  | k + 1, n => decide (n % 2 = 1) :: toBits k (n / 2)

@[simp] theorem ofBits_nil : ofBits [] = 0 := rfl

@[simp] theorem ofBits_cons (b : Bool) (bs : List Bool) :
    ofBits (b :: bs) = b.toNat + 2 * ofBits bs := rfl

@[simp] theorem length_toBits (k n : Nat) : (toBits k n).length = k := by
  induction k generalizing n with
  | zero => rfl
  | succ k ih => rw [toBits, List.length_cons, ih]

theorem ofBits_lt (bs : List Bool) : ofBits bs < 2 ^ bs.length := by
  induction bs with
  | nil => exact Nat.one_pos
  | cons b bs ih =>
      have hb := Bool.toNat_lt b
      rw [ofBits_cons, List.length_cons, Nat.pow_succ]
      omega

theorem ofBits_append (as bs : List Bool) :
    ofBits (as ++ bs) = ofBits as + 2 ^ as.length * ofBits bs := by
  induction as with
  | nil => simp
  | cons a as ih =>
      rw [List.cons_append, ofBits_cons, ofBits_cons, ih, List.length_cons, Nat.pow_succ]
      ring

theorem ofBits_append_mod (as bs : List Bool) : ofBits (as ++ bs) % 2 ^ as.length = ofBits as := by
  rw [ofBits_append, Nat.add_mul_mod_self_left, Nat.mod_eq_of_lt (ofBits_lt as)]

theorem ofBits_append_div (as bs : List Bool) : ofBits (as ++ bs) / 2 ^ as.length = ofBits bs := by
  rw [ofBits_append, Nat.add_mul_div_left _ _ (Nat.two_pow_pos _),
    Nat.div_eq_of_lt (ofBits_lt as), Nat.zero_add]

theorem ofBits_toBits (k n : Nat) : ofBits (toBits k n) = n % 2 ^ k := by
  induction k generalizing n with
  | zero => rw [toBits, ofBits_nil, Nat.pow_zero, Nat.mod_one]
  | succ k ih =>
      have hbit : (decide (n % 2 = 1)).toNat = n % 2 := by
        rcases Nat.mod_two_eq_zero_or_one n with h | h <;> rw [h] <;> rfl
      rw [toBits, ofBits_cons, ih, hbit, Nat.pow_succ', Nat.mod_mul]

theorem ofBits_eq_zero {bs : List Bool} (h : ∀ b ∈ bs, b = false) : ofBits bs = 0 := by
  induction bs with
  | nil => rfl
  | cons b bs ih =>
      obtain ⟨rfl, hbs⟩ := List.forall_mem_cons.1 h
      rw [ofBits_cons, ih hbs]
      rfl

/-! ## Words -/

theorem toNat_shiftLeft {v s : UInt32} {k : Nat} (hs : s.toNat = k) (hk : k < 32)
    (hv : v.toNat * 2 ^ k < 2 ^ 32) : (v <<< s).toNat = v.toNat * 2 ^ k := by
  rw [UInt32.toNat_shiftLeft, hs, Nat.mod_eq_of_lt hk, Nat.shiftLeft_eq,
    Nat.mod_eq_of_lt hv]

/-- A word put above the `k` bits of another. -/
theorem toNat_shiftLeft_or {v s r : UInt32} {k : Nat} (hs : s.toNat = k) (hk : k < 32)
    (hr : r.toNat < 2 ^ k) (hv : v.toNat * 2 ^ k < 2 ^ 32) :
    ((v <<< s) ||| r).toNat = v.toNat * 2 ^ k + r.toNat := by
  rw [UInt32.toNat_or, toNat_shiftLeft hs hk hv, ← Nat.shiftLeft_eq]
  exact (Nat.shiftLeft_add_eq_or_of_lt hr v.toNat).symm

theorem toNat_and_mask {v mask : UInt32} {k : Nat} (hmask : mask.toNat = 2 ^ k - 1) :
    (v &&& mask).toNat = v.toNat % 2 ^ k := by
  rw [UInt32.toNat_and, hmask, Nat.and_two_pow_sub_one_eq_mod]

/-- A bit of a word, from the number that it is. -/
theorem and_bit_eq_zero_iff {v bit : UInt32} {k : Nat} (hbit : bit.toNat = 2 ^ k) :
    v &&& bit = 0 ↔ v.toNat / 2 ^ k % 2 = 0 := by
  rw [← UInt32.toNat_inj, UInt32.toNat_and, hbit, Nat.and_two_pow,
    Nat.testBit_eq_decide_div_mod_eq]
  rcases Nat.mod_two_eq_zero_or_one (v.toNat / 2 ^ k) with h | h <;>
    simp [h]

end DualBank.Lib.Bits
