import Mathlib.Algebra.BigOperators.Intervals
import Mathlib.Algebra.BigOperators.Ring.Finset
import Mathlib.Algebra.Group.Nat.Defs
import Mathlib.Data.Nat.Digits.Defs
import Mathlib.Data.Nat.Size
import Mathlib.Data.UInt
import Mathlib.Tactic.LinearCombination

/-!
# Numbers in 32-bit words

The value of a list of words, the least significant one first, on top of `Nat.ofDigits`.
-/

namespace DualBank.Lib

/-- The value of a list of words. -/
def wordsToNat (ws : List UInt32) : Nat := Nat.ofDigits (2 ^ 32) (ws.map UInt32.toNat)

@[simp] theorem wordsToNat_nil : wordsToNat [] = 0 := rfl

@[simp] theorem wordsToNat_cons (w : UInt32) (ws : List UInt32) :
    wordsToNat (w :: ws) = w.toNat + 2 ^ 32 * wordsToNat ws := by
  simp [wordsToNat, Nat.ofDigits_cons]

theorem wordsToNat_append (xs ys : List UInt32) :
    wordsToNat (xs ++ ys) = wordsToNat xs + 2 ^ (32 * xs.length) * wordsToNat ys := by
  simp [wordsToNat, Nat.ofDigits_append, pow_mul]

@[simp] theorem wordsToNat_replicate_zero (k : Nat) : wordsToNat (List.replicate k 0) = 0 := by
  simp [wordsToNat, Nat.ofDigits_replicate_zero]

theorem wordsToNat_lt (ws : List UInt32) : wordsToNat ws < 2 ^ (32 * ws.length) := by
  rw [pow_mul, ← List.length_map UInt32.toNat]
  refine Nat.ofDigits_lt_base_pow_length (by norm_num) fun x hx ↦ ?_
  obtain ⟨w, -, rfl⟩ := List.mem_map.1 hx
  exact w.toNat_lt

/-- Lists of one length with one value are one list. -/
theorem wordsToNat_inj {xs ys : List UInt32} (hlen : xs.length = ys.length) :
    wordsToNat xs = wordsToNat ys ↔ xs = ys := by
  constructor
  · intro h
    refine List.map_injective_iff.2 (fun _ _ ↦ UInt32.toNat_inj.1) ?_
    refine Nat.ofDigits_inj_of_len_eq (b := 2 ^ 32) (by norm_num) (by simpa using hlen) ?_ ?_ h
    all_goals
      intro x hx
      obtain ⟨w, -, rfl⟩ := List.mem_map.1 hx
      exact w.toNat_lt
  · rintro rfl
    rfl

theorem wordsToNat_eq_zero_iff {ws : List UInt32} : wordsToNat ws = 0 ↔ ∀ w ∈ ws, w = 0 := by
  induction ws with
  | nil => simp
  | cons w ws ih =>
      rw [wordsToNat_cons, Nat.add_eq_zero_iff, Nat.mul_eq_zero, List.forall_mem_cons, ih,
        ← UInt32.toNat_inj]
      simp

/-- The words from position `k` on. -/
theorem wordsToNat_drop (ws : List UInt32) (k : Nat) :
    wordsToNat (ws.drop k) = wordsToNat ws / 2 ^ (32 * k) := by
  induction k generalizing ws with
  | zero => simp
  | succ k ih =>
      cases ws with
      | nil => simp
      | cons w ws =>
          have hw : w.toNat < 2 ^ 32 := w.toNat_lt
          have htail : (w.toNat + 2 ^ 32 * wordsToNat ws) / 2 ^ 32 = wordsToNat ws := by omega
          rw [List.drop_succ_cons, ih, wordsToNat_cons, show 32 * (k + 1) = 32 + 32 * k by ring,
            pow_add, ← Nat.div_div_eq_div_mul, htail]

/-- One word of the value. -/
theorem getD_toNat (ws : List UInt32) (k : Nat) :
    (ws.getD k 0).toNat = wordsToNat ws / 2 ^ (32 * k) % 2 ^ 32 := by
  rw [← wordsToNat_drop]
  rcases hd : ws.drop k with _ | ⟨w, rest⟩
  · have hlen : ws.length ≤ k := List.drop_eq_nil_iff.1 hd
    simp [List.getD_eq_getElem?_getD, List.getElem?_eq_none hlen]
  · have hget : ws[k]? = some w := by
      rw [← Nat.add_zero k, ← List.getElem?_drop, hd]
      rfl
    have hw : w.toNat < 2 ^ 32 := w.toNat_lt
    rw [List.getD_eq_getElem?_getD, hget, wordsToNat_cons, Option.getD_some]
    omega

/-- A word replaced. -/
theorem wordsToNat_set (ws : List UInt32) {k : Nat} (hk : k < ws.length) (w : UInt32) :
    wordsToNat (ws.set k w) + (ws.getD k 0).toNat * 2 ^ (32 * k) =
      wordsToNat ws + w.toNat * 2 ^ (32 * k) := by
  induction ws generalizing k with
  | nil => exact absurd hk (Nat.not_lt_zero _)
  | cons v ws ih =>
      cases k with
      | zero => simp; ring
      | succ k =>
          have h := ih (k := k) (by simpa using hk)
          have hpow : 2 ^ (32 * (k + 1)) = 2 ^ 32 * 2 ^ (32 * k) := by ring
          simp only [List.set_cons_succ, wordsToNat_cons, List.getD_cons_succ, hpow]
          linear_combination 2 ^ 32 * h

/-- The value as a sum over the positions, with zeros behind the last word. -/
theorem wordsToNat_eq_sum (ws : List UInt32) {m : Nat} (hm : ws.length ≤ m) :
    wordsToNat ws = ∑ i ∈ Finset.range m, (ws.getD i 0).toNat * 2 ^ (32 * i) := by
  induction m generalizing ws with
  | zero => simp [List.eq_nil_of_length_eq_zero (Nat.le_zero.1 hm)]
  | succ m ih =>
      rw [Finset.sum_range_succ']
      obtain _ | ⟨w, ws⟩ := ws
      · simp
      · rw [wordsToNat_cons, ih ws (Nat.le_of_succ_le_succ hm), Finset.mul_sum, Nat.add_comm]
        refine congrArg₂ _ (Finset.sum_congr rfl fun i _ ↦ ?_) (by simp)
        rw [List.getD_cons_succ, Nat.mul_add, pow_add]
        ring

end DualBank.Lib
