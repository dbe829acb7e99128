import DualBank.Ecc.Mult

/-!
# Reduction by shifting and subtracting

`uECC_vli_mmod` subtracts the modulus from a double-length product where it fits, shifted
from the top position down to its own.  The modulus must reach into its top word, as the
prime and the order of the curve do.
-/

namespace DualBank.UECC

open Lib

variable {n : Nat}

/-! ## Two halves -/

theorem length_take_half (a : Vli (2 * n)) : (a.words.take n).length = n := by
  rw [List.length_take, a.length_words]
  omega

theorem length_drop_half (a : Vli (2 * n)) : (a.words.drop n).length = n := by
  rw [List.length_drop, a.length_words]
  omega

theorem length_join {lo hi : Vli n} : (lo.words ++ hi.words).length = 2 * n := by
  rw [List.length_append, lo.length_words, hi.length_words]
  omega

def Vli.low (a : Vli (2 * n)) : Vli n := ⟨a.words.take n, length_take_half a⟩

def Vli.high (a : Vli (2 * n)) : Vli n := ⟨a.words.drop n, length_drop_half a⟩

def Vli.join (lo hi : Vli n) : Vli (2 * n) := ⟨lo.words ++ hi.words, length_join⟩

theorem Vli.toNat_join (lo hi : Vli n) :
    (join lo hi).toNat = lo.toNat + 2 ^ (32 * n) * hi.toNat := by
  rw [toNat, join, wordsToNat_append, lo.length_words]
  rfl

theorem Vli.low_add_high (a : Vli (2 * n)) :
    a.low.toNat + 2 ^ (32 * n) * a.high.toNat = a.toNat := by
  have h := wordsToNat_append (a.words.take n) (a.words.drop n)
  rw [List.take_append_drop, length_take_half] at h
  exact h.symm

/-! ## The shifted modulus -/

/-- The loop that shifts the modulus to the left into `mod_multiple`. -/
def shiftLeftLoop (bitShift : Nat) : UInt32 → List UInt32 → List UInt32
  | _, [] => []
  | carry, w :: ws =>
      (w <<< UInt32.ofNat bitShift ||| carry) ::
        shiftLeftLoop bitShift (w >>> UInt32.ofNat (32 - bitShift)) ws

/-- `shift` at the start of `uECC_vli_mmod`. -/
def mmodShift (mod : Vli n) : Nat := 2 * n * 32 - vliNumBits mod

/-- `mod_multiple` before the loop: the modulus with its top bit at the top.  What would go
past the array is dropped. -/
def modMultiple (mod : Vli n) : Vli (2 * n) :=
  let wordShift := mmodShift mod / 32
  let bitShift := mmodShift mod % 32
  ⟨List.takeD (2 * n) (List.replicate wordShift 0 ++
      if bitShift > 0 then shiftLeftLoop bitShift 0 mod.words else mod.words) 0,
    List.takeD_length ..⟩

/-- The shift of `mod_multiple` to the right, one half after the other. -/
def rshiftHalves (modMultiple : Vli (2 * n)) : Vli (2 * n) :=
  .join (vliOrTop (vliRshift1 modMultiple.low) (modMultiple.high.words.getD 0 0))
    (vliRshift1 modMultiple.high)

/-- The loop of `uECC_vli_mmod` with `v[index]` and `mod_multiple`; the difference becomes
`v[index]` when there was no borrow. -/
def mmodLoop : Nat → Vli (2 * n) → Vli (2 * n) → Vli (2 * n)
  | 0, v, _ => v
  | k + 1, v, modMultiple =>
      let diff := vliSub v modMultiple
      mmodLoop k (if diff.2 = 0 then diff.1 else v) (rshiftHalves modMultiple)

section

variable [WordCount n]

/-- `uECC_vli_mmod`. -/
def vliMmod (product : Vli (2 * n)) (mod : Vli n) : Vli n :=
  (mmodLoop (mmodShift mod + 1) product (modMultiple mod)).low

/-- `uECC_vli_modMult`. -/
def vliModMult (left right mod : Vli n) : Vli n := vliMmod (vliMult left right) mod

end

theorem toNat_rshiftHalves (hn : 0 < n) (a : Vli (2 * n)) :
    (rshiftHalves a).toNat = a.toNat / 2 := by
  have hsum := a.low_add_high
  have hlow := a.low.toNat_lt
  have hpow : 2 ^ (32 * n) = 2 * 2 ^ (32 * n - 1) := by
    rw [← pow_succ']
    congr 1
    omega
  have hbit : (a.high.words.getD 0 0).toNat % 2 = a.high.toNat % 2 := by
    rw [getD_toNat, Nat.mul_zero, pow_zero, Nat.div_one, Nat.mod_mod_of_dvd _ (by norm_num)]
    rfl
  rw [rshiftHalves, Vli.toNat_join, toNat_vliOrTop hn (by rw [toNat_vliRshift1]; omega),
    toNat_vliRshift1, toNat_vliRshift1, hbit, ← hsum, hpow, Nat.mul_assoc, Nat.mul_assoc]
  have hhigh := Nat.mod_add_div a.high.toNat 2
  generalize a.low.toNat = lo
  generalize 2 ^ (32 * n - 1) = B
  generalize a.high.toNat / 2 = q at hhigh ⊢
  generalize a.high.toNat % 2 = b at hhigh ⊢
  rw [Nat.add_mul_div_left _ _ (by decide), ← hhigh]
  ring

/-- Words shifted to the left by less than a word. -/
theorem wordsToNat_shiftLeftLoop {s : Nat} (hs0 : 0 < s) (hs : s < 32) {c : UInt32}
    (hc : c.toNat < 2 ^ s) (ws : List UInt32) :
    wordsToNat (shiftLeftLoop s c ws) =
      (wordsToNat ws * 2 ^ s + c.toNat) % 2 ^ (32 * ws.length) := by
  induction ws generalizing c with
  | nil => simp [shiftLeftLoop, Nat.mod_one]
  | cons w ws ih =>
      have hw : w.toNat < 2 ^ 32 := w.toNat_lt
      have hpow : 2 ^ 32 = 2 ^ (32 - s) * 2 ^ s := by
        rw [← pow_add]
        congr 1
        omega
      have hout : (w >>> UInt32.ofNat (32 - s)).toNat = w.toNat / 2 ^ (32 - s) := by
        rw [UInt32.toNat_shiftRight, UInt32.toNat_ofNat', Nat.shiftRight_eq_div_pow]
        congr 2
        omega
      have houtlt : (w >>> UInt32.ofNat (32 - s)).toNat < 2 ^ s := by
        rw [hout, Nat.div_lt_iff_lt_mul (Nat.two_pow_pos _), Nat.mul_comm, ← hpow]
        exact hw
      have hleft : (w <<< UInt32.ofNat s).toNat = w.toNat % 2 ^ (32 - s) * 2 ^ s := by
        rw [UInt32.toNat_shiftLeft, UInt32.toNat_ofNat', Nat.shiftLeft_eq,
          show s % 2 ^ 32 % 32 = s by omega]
        conv_lhs => rw [hpow]
        exact Nat.mul_mod_mul_right ..
      have hword : (w <<< UInt32.ofNat s ||| c).toNat =
          w.toNat % 2 ^ (32 - s) * 2 ^ s + c.toNat := by
        rw [UInt32.toNat_or, hleft, Nat.mul_comm, ← Nat.two_pow_add_eq_or_of_lt hc]
      have hdm := Nat.mod_add_div w.toNat (2 ^ (32 - s))
      rw [shiftLeftLoop, wordsToNat_cons, wordsToNat_cons, ih houtlt, hword, hout,
        List.length_cons, show 32 * (ws.length + 1) = 32 + 32 * ws.length by ring, pow_add]
      have hsplit : (w.toNat + 2 ^ 32 * wordsToNat ws) * 2 ^ s + c.toNat =
          w.toNat % 2 ^ (32 - s) * 2 ^ s + c.toNat +
            2 ^ 32 * (wordsToNat ws * 2 ^ s + w.toNat / 2 ^ (32 - s)) := by
        rw [hpow] at *
        linear_combination 2 ^ s * hdm.symm
      have hsmall : w.toNat % 2 ^ (32 - s) * 2 ^ s + c.toNat < 2 ^ 32 := by
        have hmod : w.toNat % 2 ^ (32 - s) + 1 ≤ 2 ^ (32 - s) := Nat.mod_lt _ (Nat.two_pow_pos _)
        have hmul := Nat.mul_le_mul_right (2 ^ s) hmod
        rw [← hpow, Nat.add_mul, Nat.one_mul] at hmul
        omega
      rw [hsplit, Nat.mod_mul, Nat.add_mul_mod_self_left, Nat.mod_eq_of_lt hsmall,
        Nat.add_mul_div_left _ _ (by norm_num), Nat.div_eq_of_lt hsmall, Nat.zero_add]

/-! ## The reduction -/

theorem takeD_eq_self {α : Type} (l : List α) (d : α) : List.takeD l.length l d = l := by
  induction l with
  | nil => rfl
  | cons x l ih => rw [List.length_cons, List.takeD_succ, List.tail_cons, ih]; rfl

theorem length_shiftLeftLoop {s : Nat} {c : UInt32} {ws : List UInt32} :
    (shiftLeftLoop s c ws).length = ws.length := by
  induction ws generalizing c with
  | nil => rfl
  | cons w ws ih => rw [shiftLeftLoop, List.length_cons, ih, List.length_cons]

/-- The bits of a modulus that reaches into its top word. -/
theorem size_bounds {m : Vli n} (hm : 2 ^ (32 * (n - 1)) ≤ m.toNat) :
    32 * (n - 1) < Nat.size m.toNat ∧ Nat.size m.toNat ≤ 32 * n :=
  ⟨Nat.lt_size.2 hm, Nat.size_le.2 m.toNat_lt⟩

/-- The shifted modulus is the modulus times a power of two. -/
theorem toNat_modMultiple {m : Vli n} (hm : 2 ^ (32 * (n - 1)) ≤ m.toNat) (hn : 0 < n) :
    (modMultiple m).toNat = m.toNat * 2 ^ mmodShift m := by
  obtain ⟨hlo, hhi⟩ := size_bounds hm
  have hshift : mmodShift m = 2 * n * 32 - Nat.size m.toNat := by rw [mmodShift, vliNumBits_eq]
  have hword : mmodShift m / 32 = n := by omega
  have hdm := Nat.div_add_mod (mmodShift m) 32
  rw [hword] at hdm
  have hwords : ∀ ws : List UInt32, ws.length = n →
      List.takeD (2 * n) (List.replicate n 0 ++ ws) 0 = List.replicate n 0 ++ ws := by
    intro ws hws
    have hlen : (List.replicate n (0 : UInt32) ++ ws).length = 2 * n := by
      rw [List.length_append, List.length_replicate, hws]
      omega
    rw [← hlen, takeD_eq_self]
  unfold modMultiple Vli.toNat
  dsimp only
  rw [hword]
  split_ifs with hbit
  · have hfit : m.toNat * 2 ^ (mmodShift m % 32) < 2 ^ (32 * m.words.length) := by
      rw [m.length_words, show 32 * n = Nat.size m.toNat + mmodShift m % 32 by omega, pow_add]
      exact Nat.mul_lt_mul_of_pos_right (Nat.lt_size_self _) (Nat.two_pow_pos _)
    rw [hwords _ (length_shiftLeftLoop.trans m.length_words), wordsToNat_append,
      wordsToNat_replicate_zero, List.length_replicate,
      wordsToNat_shiftLeftLoop hbit (Nat.mod_lt _ (by decide)) (Nat.two_pow_pos _),
      UInt32.toNat_zero, Nat.add_zero, Nat.zero_add]
    refine (congrArg _ (Nat.mod_eq_of_lt hfit)).trans ?_
    rw [Vli.toNat, Nat.mul_left_comm, ← pow_add, hdm]
  · rw [hwords _ m.length_words, wordsToNat_append, wordsToNat_replicate_zero,
      List.length_replicate, Nat.zero_add, Nat.mul_comm, show 32 * n = mmodShift m by omega]

/-- One turn halves the bound and keeps the residue; after the last one the value is reduced. -/
theorem mmodLoop_spec (hn : 0 < n) {m : Nat} {k : Nat} {v mm : Vli (2 * n)}
    (hmm : k = 0 ∨ mm.toNat = m * 2 ^ (k - 1)) (hv : v.toNat < m * 2 ^ k) :
    (mmodLoop k v mm).toNat < m ∧ (mmodLoop k v mm).toNat % m = v.toNat % m := by
  induction k generalizing v mm with
  | zero => exact ⟨by rwa [pow_zero, Nat.mul_one] at hv, rfl⟩
  | succ k ih =>
      have hmm := hmm.resolve_left (Nat.succ_ne_zero k)
      rw [Nat.add_sub_cancel] at hmm
      have hnext : k = 0 ∨ (rshiftHalves mm).toNat = m * 2 ^ (k - 1) := by
        obtain _ | k := k
        · exact .inl rfl
        · right
          rw [toNat_rshiftHalves hn, hmm, pow_succ, ← Nat.mul_assoc,
            Nat.mul_div_cancel _ (by decide)]
          rfl
      rw [mmodLoop]
      rw [pow_succ, ← Nat.mul_assoc] at hv
      split_ifs with hborrow
      · have hle := borrow_eq_zero_iff.1 hborrow
        have hdiff := toNat_vliSub_of_le hle
        obtain ⟨hlt, hmod⟩ := ih (v := (vliSub v mm).1) hnext (by omega)
        refine ⟨hlt, hmod.trans ?_⟩
        rw [hdiff, hmm, Nat.sub_mul_mod]
        exact hmm ▸ hle
      · have hlt := Nat.lt_of_not_le fun h ↦ hborrow (borrow_eq_zero_iff.2 h)
        exact ih hnext (hmm ▸ hlt)

variable [WordCount n]

/-- `uECC_vli_mmod` gives the remainder, for a modulus that reaches into its top word. -/
theorem toNat_vliMmod {product : Vli (2 * n)} {m : Vli n}
    (hm : 2 ^ (32 * (n - 1)) ≤ m.toNat) :
    (vliMmod product m).toNat = product.toNat % m.toNat := by
  have hn := WordCount.pos (n := n)
  obtain ⟨hlo, hhi⟩ := size_bounds hm
  have hpos : 0 < m.toNat := Nat.lt_of_lt_of_le (Nat.two_pow_pos _) hm
  have hprod : product.toNat < m.toNat * 2 ^ (mmodShift m + 1) := by
    have htop : 2 ^ (Nat.size m.toNat - 1) ≤ m.toNat := Nat.lt_size.1 (by omega)
    refine Nat.lt_of_lt_of_le product.toNat_lt ?_
    calc 2 ^ (32 * (2 * n)) = 2 ^ (Nat.size m.toNat - 1) * 2 ^ (mmodShift m + 1) := by
          rw [← pow_add, mmodShift, vliNumBits_eq]
          congr 1
          omega
      _ ≤ _ := Nat.mul_le_mul_right _ htop
  obtain ⟨hlt, hmod⟩ := mmodLoop_spec hn (m := m.toNat) (k := mmodShift m + 1) (v := product)
    (.inr (toNat_modMultiple hm hn)) hprod
  have hlow := (mmodLoop (mmodShift m + 1) product (modMultiple m)).low_add_high
  have hhigh : (mmodLoop (mmodShift m + 1) product (modMultiple m)).high.toNat = 0 := by
    refine Nat.eq_zero_of_not_pos fun h ↦ ?_
    have hle := Nat.mul_le_mul_left (2 ^ (32 * n)) h
    have hmlt := m.toNat_lt
    omega
  rw [hhigh, Nat.mul_zero, Nat.add_zero] at hlow
  rw [vliMmod, hlow, ← hmod, Nat.mod_eq_of_lt hlt]

theorem toNat_vliModMult {a b m : Vli n}
    (hm : 2 ^ (32 * (n - 1)) ≤ m.toNat) :
    (vliModMult a b m).toNat = a.toNat * b.toNat % m.toNat := by
  rw [vliModMult, toNat_vliMmod hm, toNat_vliMult]

end DualBank.UECC
