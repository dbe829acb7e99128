import Mathlib.Algebra.Order.BigOperators.Group.Finset
import Mathlib.Tactic.Linarith
import DualBank.Ecc.Vli

/-!
# Products

`uECC_vli_mult` and `uECC_vli_square` compute a product column by column in an accumulator
of three words.  The square adds each mixed product once and doubled; both give the value of
the product.
-/

namespace DualBank.UECC

open Lib

variable {n : Nat}

/-- The three words `r0`, `r1`, `r2` of a column. -/
structure Acc where
  r0 : UInt32
  r1 : UInt32
  r2 : UInt32

namespace Acc

def zero : Acc := ⟨0, 0, 0⟩

def toNat (acc : Acc) : Nat := acc.r0.toNat + 2 ^ 32 * acc.r1.toNat + 2 ^ 64 * acc.r2.toNat

/-- `r0 = r1; r1 = r2; r2 = 0`. -/
def shift (acc : Acc) : Acc := ⟨acc.r1, acc.r2, 0⟩

@[simp] theorem toNat_zero : zero.toNat = 0 := rfl

theorem r0_add_shift (acc : Acc) : acc.r0.toNat + 2 ^ 32 * acc.shift.toNat = acc.toNat := by
  simp only [toNat, shift, UInt32.toNat_zero]
  ring

end Acc

/-- `muladd`. -/
def muladd (a b : UInt32) (acc : Acc) : Acc :=
  let p : UInt64 := a.toUInt64 * b.toUInt64
  let r01 : UInt64 := (acc.r1.toUInt64 <<< 32) ||| acc.r0.toUInt64
  let r01 := r01 + p
  ⟨r01.toUInt32, (r01 >>> 32).toUInt32, acc.r2 + if r01 < p then 1 else 0⟩

/-- `mul2add`. -/
def mul2add (a b : UInt32) (acc : Acc) : Acc :=
  let p : UInt64 := a.toUInt64 * b.toUInt64
  let r01 : UInt64 := (acc.r1.toUInt64 <<< 32) ||| acc.r0.toUInt64
  let r2 := acc.r2 + (p >>> 63).toUInt32
  let p := p * 2
  let r01 := r01 + p
  ⟨r01.toUInt32, (r01 >>> 32).toUInt32, r2 + if r01 < p then 1 else 0⟩

/-- The product of two words fits two words. -/
theorem toNat_mul_words (a b : UInt32) :
    (a.toUInt64 * b.toUInt64).toNat = a.toNat * b.toNat ∧ a.toNat * b.toNat ≤ (2 ^ 32 - 1) ^ 2 := by
  have ha : a.toNat ≤ 2 ^ 32 - 1 := Nat.le_sub_one_of_lt a.toNat_lt
  have hb : b.toNat ≤ 2 ^ 32 - 1 := Nat.le_sub_one_of_lt b.toNat_lt
  have hle : a.toNat * b.toNat ≤ (2 ^ 32 - 1) ^ 2 := by
    rw [sq]
    exact Nat.mul_le_mul ha hb
  refine ⟨?_, hle⟩
  rw [UInt64.toNat_mul, UInt32.toNat_toUInt64, UInt32.toNat_toUInt64, Nat.mod_eq_of_lt]
  exact lt_of_le_of_lt hle (by norm_num)

/-- Two words as one double word. -/
theorem toNat_double (r0 r1 : UInt32) :
    ((r1.toUInt64 <<< 32) ||| r0.toUInt64).toNat = r0.toNat + 2 ^ 32 * r1.toNat := by
  have hr1 : r1.toNat < 2 ^ 32 := r1.toNat_lt
  rw [UInt64.toNat_or, UInt64.toNat_shiftLeft, UInt32.toNat_toUInt64, UInt32.toNat_toUInt64,
    show (32 : UInt64).toNat % 64 = 32 from rfl, Nat.shiftLeft_eq, Nat.mod_eq_of_lt (by omega),
    Nat.mul_comm, ← Nat.two_pow_add_eq_or_of_lt r0.toNat_lt, Nat.add_comm]

/-- A double word split over the two low words of the column, its carry in the third. -/
theorem toNat_split (d : UInt64) (r2 : UInt32) :
    (⟨d.toUInt32, (d >>> 32).toUInt32, r2⟩ : Acc).toNat = d.toNat + 2 ^ 64 * r2.toNat := by
  have hd : d.toNat < 2 ^ 64 := d.toNat_lt
  simp only [Acc.toNat, UInt64.toNat_toUInt32, UInt64.toNat_shiftRight,
    show (32 : UInt64).toNat % 64 = 32 from rfl, Nat.shiftRight_eq_div_pow]
  omega

theorem toNat_muladd {a b : UInt32} {acc : Acc} (h : acc.toNat + a.toNat * b.toNat < 2 ^ 96) :
    (muladd a b acc).toNat = acc.toNat + a.toNat * b.toNat := by
  obtain ⟨hp, hple⟩ := toNat_mul_words a b
  have hr01 := toNat_double acc.r0 acc.r1
  have hlt := (acc.r1.toUInt64 <<< 32 ||| acc.r0.toUInt64).toNat_lt
  have hr2 : acc.r2.toNat < 2 ^ 32 := acc.r2.toNat_lt
  rw [muladd, toNat_split]
  generalize a.toUInt64 * b.toUInt64 = p at hp ⊢
  generalize acc.r1.toUInt64 <<< 32 ||| acc.r0.toUInt64 = r01 at hr01 hlt ⊢
  generalize a.toNat * b.toNat = q at *
  rw [Acc.toNat] at h ⊢
  rw [UInt32.toNat_add, UInt64.toNat_add]
  simp only [UInt64.lt_iff_toNat_lt, UInt64.toNat_add]
  split_ifs with hcarry
  · rw [UInt32.toNat_one]
    omega
  · rw [UInt32.toNat_zero]
    omega

theorem toNat_mul2add {a b : UInt32} {acc : Acc}
    (h : acc.toNat + 2 * (a.toNat * b.toNat) < 2 ^ 96) :
    (mul2add a b acc).toNat = acc.toNat + 2 * (a.toNat * b.toNat) := by
  obtain ⟨hp, hple⟩ := toNat_mul_words a b
  have hr01 := toNat_double acc.r0 acc.r1
  have hlt := (acc.r1.toUInt64 <<< 32 ||| acc.r0.toUInt64).toNat_lt
  have hr2 : acc.r2.toNat < 2 ^ 32 := acc.r2.toNat_lt
  rw [mul2add, toNat_split]
  generalize a.toUInt64 * b.toUInt64 = p at hp ⊢
  generalize acc.r1.toUInt64 <<< 32 ||| acc.r0.toUInt64 = r01 at hr01 hlt ⊢
  generalize a.toNat * b.toNat = q at *
  have htop : ((p >>> 63).toUInt32).toNat = q / 2 ^ 63 := by
    rw [UInt64.toNat_toUInt32, UInt64.toNat_shiftRight, hp,
      show (63 : UInt64).toNat % 64 = 63 from rfl, Nat.shiftRight_eq_div_pow]
    omega
  have htwice : (p * 2).toNat = 2 * q % 2 ^ 64 := by
    rw [UInt64.toNat_mul, hp, Nat.mul_comm]
    rfl
  rw [Acc.toNat] at h ⊢
  rw [UInt32.toNat_add, UInt32.toNat_add, htop, UInt64.toNat_add, htwice]
  simp only [UInt64.lt_iff_toNat_lt, UInt64.toNat_add, htwice]
  split_ifs with hcarry
  · rw [UInt32.toNat_one]
    omega
  · rw [UInt32.toNat_zero]
    omega

/-! ## Columns -/

/-- One column of `uECC_vli_mult`: `i` from `lo` up to below `hi`. -/
def multColumn (left right : List UInt32) (lo hi k : Nat) (acc : Acc) : Acc :=
  (List.range' lo (hi - lo)).foldl
    (fun acc i ↦ muladd (left.getD i 0) (right.getD (k - i) 0) acc) acc

/-- One column of `uECC_vli_square`: `i` from `min` as long as `i <= k - i`. -/
def squareColumn (left : List UInt32) (min k : Nat) (acc : Acc) : Acc :=
  (List.range' min (k / 2 + 1 - min)).foldl
    (fun acc i ↦
      if i < k - i then mul2add (left.getD i 0) (left.getD (k - i) 0) acc
      else muladd (left.getD i 0) (left.getD (k - i) 0) acc) acc

/-- The loop over the columns: `result[k] = r0`, and the other words move down. -/
def columnsLoop (column : Nat → Acc → Acc) (ks : List Nat) (st : List UInt32 × Acc) :
    List UInt32 × Acc :=
  ks.foldl (fun st k ↦ (st.1 ++ [(column k st.2).r0], (column k st.2).shift)) st

theorem columnsLoop_congr {f g : Nat → Acc → Acc} {ks : List Nat} (h : ∀ k ∈ ks, f k = g k)
    (st : List UInt32 × Acc) : columnsLoop f ks st = columnsLoop g ks st := by
  induction ks generalizing st with
  | nil => rfl
  | cons k ks ih =>
      unfold columnsLoop at ih ⊢
      rw [List.foldl_cons, List.foldl_cons, h k List.mem_cons_self,
        ih fun j hj ↦ h j (List.mem_cons_of_mem _ hj)]

theorem length_columnsLoop {column : Nat → Acc → Acc} {ks : List Nat} {st : List UInt32 × Acc} :
    (columnsLoop column ks st).1.length = st.1.length + ks.length := by
  induction ks generalizing st with
  | nil => rfl
  | cons k ks ih =>
      refine Eq.trans ih ?_
      simp only [List.length_append, List.length_cons, List.length_nil]
      omega

/-- `uECC_vli_mult`. -/
def vliMultWords (left right : Vli n) : List UInt32 :=
  let st := columnsLoop (fun k ↦ multColumn left.words right.words 0 (k + 1) k) (List.range n)
    ([], .zero)
  let st := columnsLoop (fun k ↦ multColumn left.words right.words (k + 1 - n) n k)
    (List.range' n (n - 1)) st
  st.1 ++ [st.2.r0]

/-- `uECC_vli_square`. -/
def vliSquareWords (left : Vli n) : List UInt32 :=
  let st := columnsLoop
    (fun k ↦ squareColumn left.words (if k < n then 0 else k + 1 - n) k) (List.range (2 * n - 1))
    ([], .zero)
  st.1 ++ [st.2.r0]

section

variable [WordCount n]

theorem length_vliMultWords (a b : Vli n) : (vliMultWords a b).length = 2 * n := by
  have hn := WordCount.pos (n := n)
  rw [vliMultWords, List.length_append, length_columnsLoop, length_columnsLoop, List.length_range,
    List.length_range', List.length_singleton, List.length_nil]
  omega

theorem length_vliSquareWords (a : Vli n) : (vliSquareWords a).length = 2 * n := by
  have hn := WordCount.pos (n := n)
  rw [vliSquareWords, List.length_append, length_columnsLoop, List.length_range,
    List.length_singleton, List.length_nil]
  omega

def vliMult (left right : Vli n) : Vli (2 * n) :=
  ⟨vliMultWords left right, length_vliMultWords left right⟩

def vliSquare (left : Vli n) : Vli (2 * n) := ⟨vliSquareWords left, length_vliSquareWords left⟩

end

/-- A run of accumulating steps adds its terms. -/
theorem toNat_foldl_steps {step : Acc → Nat → Acc} {w : Nat → Nat} {is : List Nat}
    (hstep : ∀ acc i, acc.toNat + w i < 2 ^ 96 → (step acc i).toNat = acc.toNat + w i)
    {acc : Acc} (h : acc.toNat + (is.map w).sum < 2 ^ 96) :
    (is.foldl step acc).toNat = acc.toNat + (is.map w).sum := by
  induction is generalizing acc with
  | nil => rfl
  | cons i is ih =>
      rw [List.map_cons, List.sum_cons] at h ⊢
      have hi := hstep acc i (by omega)
      rw [List.foldl_cons, ih (by rw [hi]; omega), hi, Nat.add_assoc]

theorem sum_map_range' (f : Nat → Nat) (s m : Nat) :
    ((List.range' s m).map f).sum = ∑ i ∈ Finset.Ico s (s + m), f i := by
  induction m with
  | zero => simp
  | succ m ih =>
      rw [List.range'_concat, List.map_append, List.sum_append, ih, Nat.one_mul, ← Nat.add_assoc,
        Finset.sum_Ico_succ_top (Nat.le_add_right _ _)]
      simp

/-- What column `k` of a product adds up. -/
def columnSum (xs ys : List UInt32) (lo hi k : Nat) : Nat :=
  ∑ i ∈ Finset.Ico lo hi, (xs.getD i 0).toNat * (ys.getD (k - i) 0).toNat

theorem toNat_multColumn {xs ys : List UInt32} {lo hi k : Nat} (hlo : lo ≤ hi) {acc : Acc}
    (h : acc.toNat + columnSum xs ys lo hi k < 2 ^ 96) :
    (multColumn xs ys lo hi k acc).toNat = acc.toNat + columnSum xs ys lo hi k := by
  have hsum := sum_map_range' (fun i ↦ (xs.getD i 0).toNat * (ys.getD (k - i) 0).toNat) lo (hi - lo)
  rw [Nat.add_sub_cancel' hlo] at hsum
  rw [columnSum, ← hsum] at h ⊢
  unfold multColumn
  exact toNat_foldl_steps (w := fun i ↦ (xs.getD i 0).toNat * (ys.getD (k - i) 0).toNat)
    (fun acc i h ↦ toNat_muladd h) h

/-- A sum that reads the same from both ends, by its lower half. -/
theorem sum_Ico_palindrome (f : Nat → Nat) {k m : Nat} (hm : m ≤ k / 2)
    (hf : ∀ i ≤ k, f (k - i) = f i) :
    ∑ i ∈ Finset.Ico m (k / 2 + 1), (if i < k - i then 2 * f i else f i) =
      ∑ i ∈ Finset.Ico m (k + 1 - m), f i := by
  have hsplit := Finset.sum_Ico_consecutive f (show m ≤ k / 2 + 1 by omega)
    (show k / 2 + 1 ≤ k + 1 - m by omega)
  have hreflect := Finset.sum_Ico_reflect f m (m := k - k / 2) (n := k) (by omega)
  rw [show k + 1 - (k - k / 2) = k / 2 + 1 by omega] at hreflect
  have hmirror : ∑ i ∈ Finset.Ico (k / 2 + 1) (k + 1 - m), f i =
      ∑ i ∈ Finset.Ico m (k - k / 2), f i := by
    rw [← hreflect]
    refine Finset.sum_congr rfl fun i hi ↦ hf i ?_
    rw [Finset.mem_Ico] at hi
    omega
  have htwice : ∑ i ∈ Finset.Ico m (k - k / 2), (if i < k - i then 2 * f i else f i) =
      2 * ∑ i ∈ Finset.Ico m (k - k / 2), f i := by
    rw [Finset.mul_sum]
    refine Finset.sum_congr rfl fun i hi ↦ if_pos ?_
    rw [Finset.mem_Ico] at hi
    omega
  rw [← hsplit, hmirror]
  obtain hodd | heven := Nat.mod_two_eq_zero_or_one k
  · have hhalf : k - k / 2 = k / 2 := by omega
    rw [hhalf] at htwice ⊢
    rw [Finset.sum_Ico_succ_top (by omega), Finset.sum_Ico_succ_top (by omega), htwice,
      if_neg (by omega)]
    ring
  · have hhalf : k - k / 2 = k / 2 + 1 := by omega
    rw [hhalf] at htwice ⊢
    rw [htwice]
    ring

theorem toNat_squareColumn {xs : List UInt32} {m k : Nat} (hm : m ≤ k / 2) {acc : Acc}
    (h : acc.toNat + columnSum xs xs m (k + 1 - m) k < 2 ^ 96) :
    (squareColumn xs m k acc).toNat = acc.toNat + columnSum xs xs m (k + 1 - m) k := by
  have hpal := sum_Ico_palindrome
    (fun i ↦ (xs.getD i 0).toNat * (xs.getD (k - i) 0).toNat) hm fun i hi ↦ by
      rw [Nat.sub_sub_self hi, Nat.mul_comm]
  have hsum := sum_map_range' (fun i ↦ if i < k - i then
    2 * ((xs.getD i 0).toNat * (xs.getD (k - i) 0).toNat)
    else (xs.getD i 0).toNat * (xs.getD (k - i) 0).toNat) m (k / 2 + 1 - m)
  rw [Nat.add_sub_cancel' (by omega)] at hsum
  rw [columnSum, ← hpal, ← hsum] at h ⊢
  refine toNat_foldl_steps (fun acc i h ↦ ?_) h
  split_ifs at h ⊢ with hi
  · exact toNat_mul2add h
  · exact toNat_muladd h

/-! ## The product -/

/-- Columns that add the terms `c k` leave the value of these terms, where no column is a sum
of more than `2 ^ 32` products. -/
theorem columnsLoop_spec {column : Nat → Acc → Acc} {c : Nat → Nat} {N s m : Nat}
    (hN : N ≤ 2 ^ 32) (hc : ∀ k, c k ≤ N * (2 ^ 32 - 1) ^ 2)
    (hcol : ∀ k, s ≤ k → k < s + m → ∀ acc : Acc, acc.toNat + c k < 2 ^ 96 →
      (column k acc).toNat = acc.toNat + c k)
    {out : List UInt32} {acc : Acc} (hlen : out.length = s) (hacc : acc.toNat ≤ N * 2 ^ 32) :
    (columnsLoop column (List.range' s m) (out, acc)).2.toNat ≤ N * 2 ^ 32 ∧
      wordsToNat (columnsLoop column (List.range' s m) (out, acc)).1 +
          2 ^ (32 * (s + m)) * (columnsLoop column (List.range' s m) (out, acc)).2.toNat =
        wordsToNat out + 2 ^ (32 * s) * acc.toNat + ∑ k ∈ Finset.Ico s (s + m),
          c k * 2 ^ (32 * k) := by
  induction m generalizing s out acc with
  | zero => exact ⟨hacc, by simp [columnsLoop]⟩
  | succ m ih =>
      have hcs := hc s
      have hT := hcol s (Nat.le_refl s) (by omega) acc (by omega)
      have hsplit := (column s acc).r0_add_shift
      rw [hT] at hsplit
      have hlen' : (out ++ [(column s acc).r0]).length = s + 1 := by
        rw [List.length_append, hlen, List.length_singleton]
      have hacc' : (column s acc).shift.toNat ≤ N * 2 ^ 32 := by omega
      obtain ⟨hbound, hval⟩ := ih (fun k hk hk' ↦ hcol k (by omega) (by omega)) hlen' hacc'
      refine ⟨hbound, ?_⟩
      rw [show s + 1 + m = s + (m + 1) by omega] at hval
      refine hval.trans ?_
      rw [Finset.sum_eq_sum_Ico_succ_bot (by omega : s < s + (m + 1)), wordsToNat_append, hlen,
        wordsToNat_cons, wordsToNat_nil, show 32 * (s + 1) = 32 * s + 32 by ring, pow_add]
      linear_combination 2 ^ (32 * s) * hsplit

/-- All products that meet in column `k`. -/
def convolution (xs ys : List UInt32) (k : Nat) : Nat := columnSum xs ys 0 (k + 1) k

/-- The columns of the upper half leave out what is zero. -/
theorem columnSum_high {xs ys : List UInt32} {k : Nat} (hx : xs.length = n) (hy : ys.length = n)
    (hk : n ≤ k) : columnSum xs ys (k + 1 - n) n k = convolution xs ys k := by
  refine Finset.sum_subset (Finset.Ico_subset_Ico (Nat.zero_le _) (by omega)) fun i hi hni ↦ ?_
  rw [Finset.mem_Ico] at hi hni
  have hzero : ∀ (ws : List UInt32) {j : Nat}, ws.length ≤ j → (ws.getD j 0).toNat = 0 := by
    intro ws j hj
    simp [List.getD_eq_getElem?_getD, List.getElem?_eq_none hj]
  by_cases hin : i < n
  · rw [hzero ys (by omega), Nat.mul_zero]
  · rw [hzero xs (by omega), Nat.zero_mul]

theorem convolution_le {xs ys : List UInt32} (hx : xs.length = n) (k : Nat) :
    convolution xs ys k ≤ n * (2 ^ 32 - 1) ^ 2 := by
  have hsub : convolution xs ys k = ∑ i ∈ Finset.Ico 0 (min (k + 1) n),
      (xs.getD i 0).toNat * (ys.getD (k - i) 0).toNat := by
    refine (Finset.sum_subset (Finset.Ico_subset_Ico (Nat.le_refl 0) (Nat.min_le_left _ _))
      fun i hi hni ↦ ?_).symm
    rw [Finset.mem_Ico] at hi hni
    rw [List.getD_eq_getElem?_getD, List.getElem?_eq_none (by omega)]
    exact Nat.zero_mul _
  rw [hsub]
  refine (Finset.sum_le_card_nsmul _ _ ((2 ^ 32 - 1) ^ 2)
    fun i _ ↦ (toNat_mul_words _ _).2).trans ?_
  rw [Nat.card_Ico, smul_eq_mul]
  exact Nat.mul_le_mul_right _ (by omega)

/-- Summing the columns is multiplying the values. -/
theorem sum_convolution {xs ys : List UInt32} (hn : 0 < n) (hx : xs.length = n)
    (hy : ys.length = n) :
    ∑ k ∈ Finset.range (2 * n - 1), convolution xs ys k * 2 ^ (32 * k) =
      wordsToNat xs * wordsToNat ys := by
  have hflip := Finset.sum_range_diag_flip (2 * n - 1) fun i j ↦
    (xs.getD i 0).toNat * 2 ^ (32 * i) * ((ys.getD j 0).toNat * 2 ^ (32 * j))
  have hleft : ∀ k, convolution xs ys k * 2 ^ (32 * k) = ∑ i ∈ Finset.range (k + 1),
      (xs.getD i 0).toNat * 2 ^ (32 * i) * ((ys.getD (k - i) 0).toNat * 2 ^ (32 * (k - i))) := by
    intro k
    rw [convolution, columnSum, ← Finset.range_eq_Ico, Finset.sum_mul]
    refine Finset.sum_congr rfl fun i hi ↦ ?_
    have hik : 32 * k = 32 * i + 32 * (k - i) := by
      have := Finset.mem_range.1 hi
      omega
    rw [hik, pow_add]
    ring
  rw [Finset.sum_congr rfl fun k _ ↦ hleft k, hflip,
    wordsToNat_eq_sum xs (show xs.length ≤ 2 * n - 1 by omega), Finset.sum_mul]
  refine Finset.sum_congr rfl fun i _ ↦ ?_
  rw [← Finset.mul_sum]
  by_cases hi : i < n
  · rw [← wordsToNat_eq_sum ys (by omega)]
  · rw [List.getD_eq_getElem?_getD, List.getElem?_eq_none (by omega)]
    simp

/-- The accumulator is one word when the last column is done. -/
theorem columnsLoop_value {column : Nat → Acc → Acc} {xs ys : List UInt32} (hn : 0 < n)
    (hN : n ≤ 2 ^ 32) (hx : xs.length = n) (hy : ys.length = n)
    (hcol : ∀ k < 2 * n - 1, ∀ acc : Acc, acc.toNat + convolution xs ys k < 2 ^ 96 →
      (column k acc).toNat = acc.toNat + convolution xs ys k) :
    wordsToNat ((columnsLoop column (List.range (2 * n - 1)) ([], .zero)).1 ++
      [(columnsLoop column (List.range (2 * n - 1)) ([], .zero)).2.r0]) =
        wordsToNat xs * wordsToNat ys := by
  have hzero : Acc.zero.toNat ≤ n * 2 ^ 32 := Nat.zero_le _
  obtain ⟨-, hval⟩ := columnsLoop_spec (s := 0) (m := 2 * n - 1) hN (convolution_le hx)
    (fun k _ hk ↦ hcol k (by omega)) List.length_nil hzero
  have hlen : (columnsLoop column (List.range (2 * n - 1)) ([], .zero)).1.length = 2 * n - 1 := by
    rw [length_columnsLoop, List.length_range, List.length_nil, Nat.zero_add]
  rw [← List.range_eq_range', Nat.zero_add, ← Finset.range_eq_Ico, sum_convolution hn hx hy,
    wordsToNat_nil, Acc.toNat_zero, Nat.mul_zero, Nat.zero_add] at hval
  rw [wordsToNat_append, hlen, wordsToNat_cons, wordsToNat_nil]
  generalize columnsLoop column (List.range (2 * n - 1)) ([], .zero) = st at hval ⊢
  have hprod : wordsToNat xs * wordsToNat ys < 2 ^ (32 * (2 * n - 1)) * 2 ^ 32 := by
    have h := Nat.mul_lt_mul'' (wordsToNat_lt xs) (wordsToNat_lt ys)
    rw [hx, hy, ← pow_add] at h
    rw [← pow_add]
    convert h using 2
    omega
  have hacc : st.2.toNat < 2 ^ 32 :=
    Nat.lt_of_mul_lt_mul_left (a := 2 ^ (32 * (2 * n - 1))) (by omega)
  have hr0 : st.2.r0.toNat = st.2.toNat := by
    have h := st.2.r0_add_shift
    omega
  rw [Nat.mul_zero, Nat.add_zero, hr0]
  exact hval

variable [WordCount n]

/-- No column adds so many products that its accumulator overflows. -/
theorem wordCount_le : n ≤ 2 ^ 32 := Nat.le_trans (WordCount.le_max (n := n)) (by decide)

/-- `uECC_vli_mult` gives the product. -/
theorem toNat_vliMult (a b : Vli n) :
    (vliMult a b).toNat = a.toNat * b.toNat := by
  have hn := WordCount.pos (n := n)
  -- the two loops of the source as one loop over all columns
  let column : Nat → Acc → Acc := fun k ↦
    if k < n then multColumn a.words b.words 0 (k + 1) k
    else multColumn a.words b.words (k + 1 - n) n k
  have hranges : List.range (2 * n - 1) = List.range n ++ List.range' n (n - 1) := by
    have happ := List.range'_append_1 (s := 0) (m := n) (n := n - 1)
    rw [Nat.zero_add] at happ
    rw [List.range_eq_range', List.range_eq_range', happ]
    congr 1
    omega
  have hloop : columnsLoop column (List.range (2 * n - 1)) ([], .zero) =
      columnsLoop (fun k ↦ multColumn a.words b.words (k + 1 - n) n k) (List.range' n (n - 1))
        (columnsLoop (fun k ↦ multColumn a.words b.words 0 (k + 1) k) (List.range n)
          ([], .zero)) := by
    rw [hranges, columnsLoop, List.foldl_append]
    refine (columnsLoop_congr (fun k hk ↦ ?_) _).trans
      (congrArg _ (columnsLoop_congr (fun k hk ↦ ?_) _))
    · exact if_neg (by have := List.mem_range'_1.1 hk; omega)
    · exact if_pos (List.mem_range.1 hk)
  have hcol : ∀ k < 2 * n - 1, ∀ acc : Acc, acc.toNat + convolution a.words b.words k < 2 ^ 96 →
      (column k acc).toNat = acc.toNat + convolution a.words b.words k := by
    intro k hk acc h
    dsimp only [column]
    split_ifs with hkn
    · exact toNat_multColumn (Nat.zero_le _) h
    · have hhigh := columnSum_high a.length_words b.length_words (Nat.le_of_not_lt hkn)
      rw [← hhigh] at h ⊢
      exact toNat_multColumn (by omega) h
  have hval := columnsLoop_value hn wordCount_le a.length_words b.length_words hcol
  rw [hloop] at hval
  exact hval

/-- `uECC_vli_square` gives the square. -/
theorem toNat_vliSquare (a : Vli n) :
    (vliSquare a).toNat = a.toNat * a.toNat := by
  have hn := WordCount.pos (n := n)
  refine columnsLoop_value hn wordCount_le a.length_words a.length_words fun k hk acc h ↦ ?_
  split_ifs with hkn
  · exact toNat_squareColumn (Nat.zero_le _) h
  · have hhigh := columnSum_high a.length_words a.length_words (Nat.le_of_not_lt hkn)
    rw [← hhigh] at h ⊢
    have hlo : k + 1 - (k + 1 - n) = n := by omega
    have hcol : acc.toNat + columnSum a.words a.words (k + 1 - n) (k + 1 - (k + 1 - n)) k < 2 ^ 96 →
        _ := toNat_squareColumn (by omega)
    rw [hlo] at hcol
    exact hcol h

/-- **The two multiplications.**  The columns give the exact product, and the squaring, which
doubles half of the products, gives the same words as the multiplication. -/
theorem vliSquare_eq_vliMult :
    (∀ a b : Vli n, (vliMult a b).toNat = a.toNat * b.toNat) ∧
      ∀ a : Vli n, vliSquare a = vliMult a a := by
  refine ⟨toNat_vliMult, fun a ↦ Vli.toNat_inj.1 ?_⟩
  rw [toNat_vliSquare, toNat_vliMult]

/-- The largest array of the curve, where every column adds up the most. -/
def vliMax : Vli 8 := ⟨List.replicate 8 0xFFFFFFFF, List.length_replicate⟩

theorem vliSquare_eq_vliMult_max :
    vliSquare vliMax = vliMult vliMax vliMax ∧
      (vliMult vliMax vliMax).toNat = (2 ^ 256 - 1) * (2 ^ 256 - 1) := by
  obtain ⟨hmult, hsquare⟩ := @vliSquare_eq_vliMult 8 _
  exact ⟨hsquare vliMax, (hmult vliMax vliMax).trans (by decide)⟩

end DualBank.UECC
