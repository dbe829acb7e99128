import Mathlib.Data.List.TakeWhile
import Mathlib.Data.Nat.Bitwise
import Mathlib.Tactic.SplitIfs
import DualBank.Lib.Words

/-!
# Multi-word integers

The `uECC_vli_*` loops of `third_party/micro-ecc/uECC.c` as `bootloader/Makefile` builds
them: 32-bit words and no assembly.  `num_words` is the length of the array.  Each loop
has one lemma that says what it computes on the value of the array.
-/

namespace DualBank.UECC

open Lib

/-- An array of `n` words, the least significant one first (`uECC_word_t vli[n]`). -/
structure Vli (n : Nat) where
  words : List UInt32
  length_words : words.length = n
deriving DecidableEq

attribute [simp] Vli.length_words

/-- `uECC_MAX_WORDS`, with `secp256r1` as the only curve. -/
def uECCMaxWords : Nat := 8

/-- A word count that the arrays of the source have room for; their counters, of the type
`int8_t`, do not wrap there. -/
class WordCount (n : Nat) : Prop where
  pos : 0 < n
  le_max : n ≤ uECCMaxWords

/-- The word count of `uECC_secp256r1()`. -/
instance wordCount_eight : WordCount 8 := ⟨by decide, Nat.le_refl 8⟩

variable {n : Nat}

namespace Vli

def toNat (a : Vli n) : Nat := wordsToNat a.words

theorem toNat_lt (a : Vli n) : a.toNat < 2 ^ (32 * n) := by
  have h := wordsToNat_lt a.words
  rwa [a.length_words] at h

theorem toNat_inj {a b : Vli n} : a.toNat = b.toNat ↔ a = b := by
  obtain ⟨xs, hx⟩ := a
  obtain ⟨ys, hy⟩ := b
  rw [mk.injEq]
  exact wordsToNat_inj (hx.trans hy.symm)

end Vli

/-! ## Clearing and testing -/

/-- `uECC_vli_clear`. -/
def vliClear (n : Nat) : Vli n := ⟨List.replicate n 0, List.length_replicate⟩

@[simp] theorem toNat_vliClear : (vliClear n).toNat = 0 := wordsToNat_replicate_zero n

theorem foldl_or_words_eq_zero {ws : List UInt32} {a : UInt32} :
    ws.foldl (· ||| ·) a = 0 ↔ a = 0 ∧ ∀ w ∈ ws, w = 0 := by
  induction ws generalizing a with
  | nil => simp
  | cons w ws ih => rw [List.foldl_cons, ih, UInt32.or_eq_zero_iff, List.forall_mem_cons, and_assoc]

/-- `uECC_vli_isZero`. -/
def vliIsZero (vli : Vli n) : Bool := vli.words.foldl (· ||| ·) 0 == 0

theorem vliIsZero_iff {a : Vli n} : vliIsZero a = true ↔ a.toNat = 0 := by
  rw [vliIsZero, beq_iff_eq, foldl_or_words_eq_zero, Vli.toNat, wordsToNat_eq_zero_iff]
  exact and_iff_right rfl

/-- `uECC_vli_testBit`, as a truth value. -/
def vliTestBit (vli : Vli n) (bit : Nat) : Bool :=
  vli.words.getD (bit >>> 5) 0 &&& ((1 : UInt32) <<< UInt32.ofNat (bit &&& 31)) != 0

theorem vliTestBit_eq (a : Vli n) (bit : Nat) : vliTestBit a bit = a.toNat.testBit bit := by
  have hword : bit >>> 5 = bit / 32 := Nat.shiftRight_eq_div_pow bit 5
  have hbit : bit &&& 31 = bit % 32 := Nat.and_two_pow_sub_one_eq_mod bit 5
  have hlt : bit % 32 < 32 := Nat.mod_lt _ (by norm_num)
  have hmask : ((1 : UInt32) <<< UInt32.ofNat (bit % 32)).toNat = 2 ^ (bit % 32) := by
    have hpow : 2 ^ (bit % 32) < 2 ^ 32 := Nat.pow_lt_pow_right (by norm_num) hlt
    have hcount : bit % 32 % 2 ^ 32 % 32 = bit % 32 := by omega
    rw [UInt32.toNat_shiftLeft, UInt32.toNat_ofNat', hcount, UInt32.toNat_one, Nat.one_shiftLeft,
      Nat.mod_eq_of_lt hpow]
  have hsplit : bit % 32 + 32 * (bit / 32) = bit := Nat.mod_add_div bit 32
  have hand : (a.words.getD (bit / 32) 0 &&& (1 : UInt32) <<< UInt32.ofNat (bit % 32)).toNat =
      (a.toNat.testBit bit).toNat * 2 ^ (bit % 32) := by
    rw [UInt32.toNat_and, hmask, getD_toNat, Nat.and_two_pow, Nat.testBit_mod_two_pow,
      Nat.testBit_div_two_pow, hsplit, decide_eq_true hlt, Bool.true_and]
    rfl
  unfold vliTestBit
  rw [hword, hbit, Bool.eq_iff_iff, bne_iff_ne, ne_eq, ← UInt32.toNat_inj, hand]
  cases a.toNat.testBit bit <;> simp

/-! ## Length in bits -/

/-- `vli_numDigits`: the search from the top for a word that is not zero. -/
def vliNumDigits (vli : Vli n) : Nat := (vli.words.reverse.dropWhile (· == 0)).length

/-- The loop over the top word in `uECC_vli_numBits`. -/
def digitBits (digit : UInt32) : Nat :=
  if digit = 0 then 0 else digitBits (digit >>> 1) + 1
termination_by digit.toNat
decreasing_by
  rename_i h
  have hpos : digit.toNat ≠ 0 := fun h' ↦ h (UInt32.toNat_inj.1 h')
  rw [UInt32.toNat_shiftRight, Nat.shiftRight_eq_div_pow]
  exact Nat.div_lt_self (Nat.pos_of_ne_zero hpos) (by decide)

/-- `uECC_vli_numBits`. -/
def vliNumBits (vli : Vli n) : Nat :=
  let numDigits := vliNumDigits vli
  if numDigits = 0 then 0
  else 32 * (numDigits - 1) + digitBits (vli.words.getD (numDigits - 1) 0)

theorem digitBits_eq (d : UInt32) : digitBits d = Nat.size d.toNat := by
  fun_induction digitBits d with
  | case1 => rfl
  | case2 d h ih =>
      have hpos : d.toNat ≠ 0 := fun h' ↦ h (UInt32.toNat_inj.1 h')
      have hshift : (d >>> 1).toNat = d.toNat / 2 := by
        rw [UInt32.toNat_shiftRight, Nat.shiftRight_eq_div_pow]
        rfl
      have hbit : Nat.bit (d.toNat.bodd) (d.toNat / 2) = d.toNat := by
        rw [← Nat.div2_val, Nat.bit_bodd_div2]
      have hsize := Nat.size_bit (b := d.toNat.bodd) (n := d.toNat / 2) (by rwa [hbit])
      rw [hbit] at hsize
      rw [ih, hshift, hsize]

/-- The words above the digits are zero, and the top digit is not. -/
theorem exists_digits (ws : List UInt32) :
    ∃ low : List UInt32, ws = low ++ List.replicate (ws.length - low.length) 0 ∧
      (ws.reverse.dropWhile (· == 0)).length = low.length ∧ ∀ w ∈ low.getLast?, w ≠ 0 := by
  have hsplit := List.takeWhile_append_dropWhile (p := (· == (0 : UInt32))) (l := ws.reverse)
  have hzero : ws.reverse.takeWhile (· == 0) = List.replicate _ 0 :=
    List.eq_replicate_length.2 fun w hw ↦ beq_iff_eq.1 (List.mem_takeWhile_imp (p := (· == 0)) hw)
  have hlen : (ws.reverse.takeWhile (· == 0)).length =
      ws.length - (ws.reverse.dropWhile (· == 0)).length := by
    have h := congrArg List.length hsplit
    rw [List.length_append, List.length_reverse] at h
    omega
  refine ⟨(ws.reverse.dropWhile (· == 0)).reverse, ?_, ?_, ?_⟩
  · rw [List.length_reverse, ← hlen, ← List.reverse_replicate, ← hzero, ← List.reverse_append,
      hsplit, List.reverse_reverse]
  · exact (List.length_reverse).symm
  · intro w hw
    rw [List.getLast?_reverse] at hw
    have h := List.head?_dropWhile_not (· == (0 : UInt32)) ws.reverse
    rw [Option.mem_def.1 hw] at h
    simpa using h

/-- `uECC_vli_numBits` counts the bits of the value. -/
theorem vliNumBits_eq (a : Vli n) : vliNumBits a = Nat.size a.toNat := by
  obtain ⟨low, hwords, hdigits, htop⟩ := exists_digits a.words
  have hval : a.toNat = wordsToNat low := by
    rw [Vli.toNat, hwords, wordsToNat_append, wordsToNat_replicate_zero, Nat.mul_zero,
      Nat.add_zero]
  rw [vliNumBits, vliNumDigits, hdigits, hval]
  rcases List.eq_nil_or_concat low with rfl | ⟨init, w, rfl⟩
  · rfl
  have hw : w ≠ 0 := htop w (by simp)
  have hpos : 0 < w.toNat := Nat.pos_of_ne_zero fun h' ↦ hw (UInt32.toNat_inj.1 h')
  have hget : a.words.getD (init.length) 0 = w := by
    rw [hwords]
    simp [List.getD_eq_getElem?_getD]
  simp only [List.concat_eq_append, List.length_append, List.length_singleton,
    Nat.add_sub_cancel, if_neg (Nat.succ_ne_zero _), hget, digitBits_eq, wordsToNat_append,
    wordsToNat_cons, wordsToNat_nil, Nat.mul_zero, Nat.add_zero]
  have hlow := wordsToNat_lt init
  have hsize : Nat.size w.toNat = Nat.size w.toNat - 1 + 1 :=
    (Nat.sub_add_cancel (Nat.size_pos.2 hpos)).symm
  have hupper := Nat.lt_size_self w.toNat
  have hlower : 2 ^ (Nat.size w.toNat - 1) ≤ w.toNat := Nat.lt_size.1 (by omega)
  refine Nat.le_antisymm ?_ ?_
  · rw [hsize, ← Nat.add_assoc, Nat.succ_le_iff, Nat.lt_size, pow_add]
    exact Nat.le_add_left_of_le (Nat.mul_le_mul_left _ hlower)
  · rw [Nat.size_le, pow_add]
    calc wordsToNat init + 2 ^ (32 * init.length) * w.toNat
        < 2 ^ (32 * init.length) + 2 ^ (32 * init.length) * w.toNat := Nat.add_lt_add_right hlow _
      _ = 2 ^ (32 * init.length) * (w.toNat + 1) := by ring
      _ ≤ _ := Nat.mul_le_mul_left _ hupper

/-! ## Comparison -/

/-- The loop of `uECC_vli_cmp_unsafe`: the words above decide first. -/
def cmpLoop : List UInt32 → List UInt32 → Int
  | l :: ls, r :: rs =>
      if cmpLoop ls rs ≠ 0 then cmpLoop ls rs
      else if l > r then 1
      else if l < r then -1
      else 0
  | _, _ => 0

/-- `uECC_vli_cmp_unsafe`. -/
def vliCmpUnsafe (left right : Vli n) : Int := cmpLoop left.words right.words

theorem cmpLoop_eq {xs ys : List UInt32} (hlen : xs.length = ys.length) :
    cmpLoop xs ys = if wordsToNat xs < wordsToNat ys then -1
      else if wordsToNat xs = wordsToNat ys then 0 else 1 := by
  induction xs generalizing ys with
  | nil =>
      rw [List.eq_nil_of_length_eq_zero hlen.symm]
      rfl
  | cons x xs ih =>
      obtain _ | ⟨y, ys⟩ := ys
      · cases hlen
      have hx : x.toNat < 2 ^ 32 := x.toNat_lt
      have hy : y.toNat < 2 ^ 32 := y.toNat_lt
      simp only [cmpLoop, ih (Nat.succ_injective hlen), wordsToNat_cons, gt_iff_lt,
        UInt32.lt_iff_toNat_lt]
      rcases lt_trichotomy (wordsToNat xs) (wordsToNat ys) with h | h | h
      · rw [if_pos h, if_pos (by decide), if_pos (by omega)]
      · rw [h, if_neg (lt_irrefl _), if_pos rfl, if_neg (not_not_intro rfl)]
        rcases lt_trichotomy x.toNat y.toNat with h' | h' | h'
        · rw [if_neg (by omega), if_pos h', if_pos (by omega)]
        · rw [if_neg (by omega), if_neg (by omega), if_neg (by omega), if_pos (by omega)]
        · rw [if_pos h', if_neg (by omega), if_neg (by omega)]
      · rw [if_neg (not_lt_of_gt h), if_neg (ne_of_gt h), if_pos (by decide), if_neg (by omega),
          if_neg (by omega)]

theorem vliCmpUnsafe_eq (a b : Vli n) :
    vliCmpUnsafe a b = if a.toNat < b.toNat then -1 else if a.toNat = b.toNat then 0 else 1 :=
  cmpLoop_eq (a.length_words.trans b.length_words.symm)

@[simp] theorem vliCmpUnsafe_eq_one {a b : Vli n} : vliCmpUnsafe a b = 1 ↔ b.toNat < a.toNat := by
  rw [vliCmpUnsafe_eq]
  split_ifs <;> simp <;> omega

@[simp] theorem vliCmpUnsafe_eq_zero {a b : Vli n} : vliCmpUnsafe a b = 0 ↔ a = b := by
  rw [vliCmpUnsafe_eq, ← Vli.toNat_inj]
  split_ifs <;> simp <;> omega

@[simp] theorem vliCmpUnsafe_pos {a b : Vli n} : 0 < vliCmpUnsafe a b ↔ b.toNat < a.toNat := by
  rw [vliCmpUnsafe_eq]
  split_ifs <;> simp <;> omega

@[simp] theorem vliCmpUnsafe_neg {a b : Vli n} : vliCmpUnsafe a b < 0 ↔ a.toNat < b.toNat := by
  rw [vliCmpUnsafe_eq]
  split_ifs <;> simp <;> omega

/-- The loop of `uECC_vli_equal`. -/
def diffLoop : List UInt32 → List UInt32 → UInt32
  | l :: ls, r :: rs => diffLoop ls rs ||| (l ^^^ r)
  | _, _ => 0

/-- `uECC_vli_equal`. -/
def vliEqual (left right : Vli n) : Bool := diffLoop left.words right.words == 0

theorem diffLoop_eq_zero {xs ys : List UInt32} (hlen : xs.length = ys.length) :
    diffLoop xs ys = 0 ↔ xs = ys := by
  induction xs generalizing ys with
  | nil =>
      rw [List.eq_nil_of_length_eq_zero hlen.symm]
      exact iff_of_true rfl rfl
  | cons x xs ih =>
      obtain _ | ⟨y, ys⟩ := ys
      · cases hlen
      rw [diffLoop, UInt32.or_eq_zero_iff, ih (Nat.succ_injective hlen), UInt32.xor_eq_zero_iff,
        List.cons.injEq, and_comm]

theorem vliEqual_iff {a b : Vli n} : vliEqual a b = true ↔ a.toNat = b.toNat := by
  rw [vliEqual, beq_iff_eq, diffLoop_eq_zero (a.length_words.trans b.length_words.symm),
    Vli.toNat_inj]
  exact ⟨fun h ↦ by cases a; cases b; simpa using h, fun h ↦ congrArg _ h⟩

/-! ## Sum and difference -/

/-- The loop of `uECC_vli_add`: a carry that leaves `sum` at `left[i]` is passed on as it
is. -/
def addLoop : UInt32 → List UInt32 → List UInt32 → List UInt32 × UInt32
  | carry, l :: ls, r :: rs =>
      let sum := l + r + carry
      let carry := if sum ≠ l then (if sum < l then 1 else 0) else carry
      let rest := addLoop carry ls rs
      (sum :: rest.1, rest.2)
  | carry, _, _ => ([], carry)

/-- The loop of `uECC_vli_sub`. -/
def subLoop : UInt32 → List UInt32 → List UInt32 → List UInt32 × UInt32
  | borrow, l :: ls, r :: rs =>
      let diff := l - r - borrow
      let borrow := if diff ≠ l then (if diff > l then 1 else 0) else borrow
      let rest := subLoop borrow ls rs
      (diff :: rest.1, rest.2)
  | borrow, _, _ => ([], borrow)

theorem length_addLoop {xs ys : List UInt32} {c : UInt32} (hlen : xs.length = ys.length) :
    (addLoop c xs ys).1.length = xs.length := by
  induction xs generalizing ys c with
  | nil => rfl
  | cons x xs ih =>
      obtain _ | ⟨y, ys⟩ := ys
      · cases hlen
      rw [addLoop, List.length_cons, ih (Nat.succ_injective hlen), List.length_cons]

theorem length_subLoop {xs ys : List UInt32} {c : UInt32} (hlen : xs.length = ys.length) :
    (subLoop c xs ys).1.length = xs.length := by
  induction xs generalizing ys c with
  | nil => rfl
  | cons x xs ih =>
      obtain _ | ⟨y, ys⟩ := ys
      · cases hlen
      rw [subLoop, List.length_cons, ih (Nat.succ_injective hlen), List.length_cons]

/-- `uECC_vli_add`: the sum and the carry out. -/
def vliAdd (left right : Vli n) : Vli n × UInt32 :=
  (⟨(addLoop 0 left.words right.words).1,
    (length_addLoop (left.length_words.trans right.length_words.symm)).trans left.length_words⟩,
    (addLoop 0 left.words right.words).2)

/-- `uECC_vli_sub`: the difference and the borrow. -/
def vliSub (left right : Vli n) : Vli n × UInt32 :=
  (⟨(subLoop 0 left.words right.words).1,
    (length_subLoop (left.length_words.trans right.length_words.symm)).trans left.length_words⟩,
    (subLoop 0 left.words right.words).2)

/-- One word of the sum. -/
theorem add_step {l r c : UInt32} (hc : c.toNat ≤ 1) :
    let sum := l + r + c
    let c' := if sum ≠ l then (if sum < l then 1 else 0) else c
    sum.toNat + 2 ^ 32 * c'.toNat = l.toNat + r.toNat + c.toNat ∧ c'.toNat ≤ 1 := by
  have hl : l.toNat < 2 ^ 32 := l.toNat_lt
  have hr : r.toNat < 2 ^ 32 := r.toNat_lt
  intro sum c'
  have hsum : sum.toNat = (l.toNat + r.toNat + c.toNat) % 2 ^ 32 := by
    simp only [sum, UInt32.toNat_add, Nat.mod_add_mod]
  have hc' : c'.toNat = if sum.toNat ≠ l.toNat then (if sum.toNat < l.toNat then 1 else 0)
      else c.toNat := by
    simp only [c', ne_eq, UInt32.lt_iff_toNat_lt, UInt32.toNat_inj]
    split_ifs <;> rfl
  rw [hc', hsum]
  split_ifs <;> omega

/-- One word of the difference. -/
theorem sub_step {l r b : UInt32} (hb : b.toNat ≤ 1) :
    let diff := l - r - b
    let b' := if diff ≠ l then (if diff > l then 1 else 0) else b
    diff.toNat + r.toNat + b.toNat = l.toNat + 2 ^ 32 * b'.toNat ∧ b'.toNat ≤ 1 := by
  have hl : l.toNat < 2 ^ 32 := l.toNat_lt
  have hr : r.toNat < 2 ^ 32 := r.toNat_lt
  intro diff b'
  have hdiff : diff.toNat = (2 ^ 32 - b.toNat + (2 ^ 32 - r.toNat + l.toNat)) % 2 ^ 32 := by
    simp only [diff, UInt32.toNat_sub, Nat.add_mod_mod]
  have hb' : b'.toNat = if diff.toNat ≠ l.toNat then (if l.toNat < diff.toNat then 1 else 0)
      else b.toNat := by
    simp only [b', ne_eq, GT.gt, UInt32.lt_iff_toNat_lt, UInt32.toNat_inj]
    split_ifs <;> rfl
  rw [hb', hdiff]
  split_ifs <;> omega

theorem addLoop_spec {xs ys : List UInt32} {c : UInt32} (hlen : xs.length = ys.length)
    (hc : c.toNat ≤ 1) :
    wordsToNat (addLoop c xs ys).1 + 2 ^ (32 * xs.length) * (addLoop c xs ys).2.toNat =
        wordsToNat xs + wordsToNat ys + c.toNat ∧
      (addLoop c xs ys).2.toNat ≤ 1 := by
  induction xs generalizing ys c with
  | nil =>
      rw [List.eq_nil_of_length_eq_zero hlen.symm]
      simpa [addLoop] using hc
  | cons x xs ih =>
      obtain _ | ⟨y, ys⟩ := ys
      · cases hlen
      obtain ⟨hstep, hcarry⟩ := add_step (l := x) (r := y) hc
      obtain ⟨hrest, hlast⟩ := ih (Nat.succ_injective hlen) hcarry
      refine ⟨?_, hlast⟩
      rw [List.length_cons, show 32 * (xs.length + 1) = 32 + 32 * xs.length by ring, pow_add]
      simp only [addLoop, wordsToNat_cons]
      linear_combination hstep + 2 ^ 32 * hrest

theorem subLoop_spec {xs ys : List UInt32} {b : UInt32} (hlen : xs.length = ys.length)
    (hb : b.toNat ≤ 1) :
    wordsToNat (subLoop b xs ys).1 + wordsToNat ys + b.toNat =
        wordsToNat xs + 2 ^ (32 * xs.length) * (subLoop b xs ys).2.toNat ∧
      (subLoop b xs ys).2.toNat ≤ 1 := by
  induction xs generalizing ys b with
  | nil =>
      rw [List.eq_nil_of_length_eq_zero hlen.symm]
      simpa [subLoop] using hb
  | cons x xs ih =>
      obtain _ | ⟨y, ys⟩ := ys
      · cases hlen
      obtain ⟨hstep, hborrow⟩ := sub_step (l := x) (r := y) hb
      obtain ⟨hrest, hlast⟩ := ih (Nat.succ_injective hlen) hborrow
      refine ⟨?_, hlast⟩
      rw [List.length_cons, show 32 * (xs.length + 1) = 32 + 32 * xs.length by ring, pow_add]
      simp only [subLoop, wordsToNat_cons]
      linear_combination hstep + 2 ^ 32 * hrest

/-- The sum and its carry. -/
theorem vliAdd_spec (a b : Vli n) :
    (vliAdd a b).1.toNat + 2 ^ (32 * n) * (vliAdd a b).2.toNat = a.toNat + b.toNat ∧
      (vliAdd a b).2.toNat ≤ 1 := by
  have h := addLoop_spec (c := 0) (a.length_words.trans b.length_words.symm) (Nat.zero_le 1)
  rwa [a.length_words] at h

/-- The difference and its borrow. -/
theorem vliSub_spec (a b : Vli n) :
    (vliSub a b).1.toNat + b.toNat = a.toNat + 2 ^ (32 * n) * (vliSub a b).2.toNat ∧
      (vliSub a b).2.toNat ≤ 1 := by
  have h := subLoop_spec (b := 0) (a.length_words.trans b.length_words.symm) (Nat.zero_le 1)
  rwa [a.length_words] at h

theorem carry_eq_zero_iff {a b : Vli n} :
    (vliAdd a b).2 = 0 ↔ a.toNat + b.toNat < 2 ^ (32 * n) := by
  obtain ⟨hval, hcarry⟩ := vliAdd_spec a b
  have hlt := (vliAdd a b).1.toNat_lt
  rw [← UInt32.toNat_inj, UInt32.toNat_zero]
  obtain h | h := Nat.le_one_iff_eq_zero_or_eq_one.1 hcarry
  · rw [h] at hval ⊢
    omega
  · rw [h] at hval ⊢
    omega

theorem toNat_vliAdd (a b : Vli n) :
    (vliAdd a b).1.toNat = (a.toNat + b.toNat) % 2 ^ (32 * n) := by
  rw [← (vliAdd_spec a b).1, Nat.add_mul_mod_self_left, Nat.mod_eq_of_lt (Vli.toNat_lt _)]

theorem toNat_vliAdd_of_lt {a b : Vli n} (h : a.toNat + b.toNat < 2 ^ (32 * n)) :
    (vliAdd a b).1.toNat = a.toNat + b.toNat := by
  rw [toNat_vliAdd, Nat.mod_eq_of_lt h]

theorem borrow_eq_zero_iff {a b : Vli n} : (vliSub a b).2 = 0 ↔ b.toNat ≤ a.toNat := by
  obtain ⟨hval, hborrow⟩ := vliSub_spec a b
  have hlt := (vliSub a b).1.toNat_lt
  rw [← UInt32.toNat_inj, UInt32.toNat_zero]
  obtain h | h := Nat.le_one_iff_eq_zero_or_eq_one.1 hborrow
  · rw [h] at hval ⊢
    omega
  · have hb := b.toNat_lt
    rw [h] at hval ⊢
    omega

theorem toNat_vliSub (a b : Vli n) :
    (vliSub a b).1.toNat = (a.toNat + (2 ^ (32 * n) - b.toNat)) % 2 ^ (32 * n) := by
  obtain ⟨hval, -⟩ := vliSub_spec a b
  have hb := b.toNat_lt
  have h : a.toNat + (2 ^ (32 * n) - b.toNat) + 2 ^ (32 * n) * (vliSub a b).2.toNat =
      (vliSub a b).1.toNat + 2 ^ (32 * n) := by omega
  rw [← Nat.add_mul_mod_self_left, h, Nat.add_mod_right, Nat.mod_eq_of_lt (Vli.toNat_lt _)]

theorem toNat_vliSub_of_le {a b : Vli n} (h : b.toNat ≤ a.toNat) :
    (vliSub a b).1.toNat = a.toNat - b.toNat := by
  obtain ⟨hval, -⟩ := vliSub_spec a b
  rw [borrow_eq_zero_iff.2 h, UInt32.toNat_zero, Nat.mul_zero] at hval
  omega

/-! ## Sum and difference modulo a number -/

/-- `uECC_vli_modAdd`. -/
def vliModAdd (left right mod : Vli n) : Vli n :=
  let sum := vliAdd left right
  if sum.2 ≠ 0 ∨ vliCmpUnsafe mod sum.1 ≠ 1 then (vliSub sum.1 mod).1 else sum.1

/-- `uECC_vli_modSub`. -/
def vliModSub (left right mod : Vli n) : Vli n :=
  let diff := vliSub left right
  if diff.2 ≠ 0 then (vliAdd diff.1 mod).1 else diff.1

theorem toNat_vliModAdd {a b m : Vli n} (ha : a.toNat < m.toNat) (hb : b.toNat < m.toNat) :
    (vliModAdd a b m).toNat = (a.toNat + b.toNat) % m.toNat := by
  have hm := m.toNat_lt
  unfold vliModAdd
  dsimp only
  by_cases hcarry : a.toNat + b.toNat < 2 ^ (32 * n)
  · have hsum := toNat_vliAdd_of_lt hcarry
    have hzero := carry_eq_zero_iff.2 hcarry
    split_ifs with hover
    · have hle : m.toNat ≤ (vliAdd a b).1.toNat := by
        simpa [hzero] using hover
      rw [toNat_vliSub_of_le hle, hsum, Nat.mod_eq_sub_mod (hsum ▸ hle), Nat.mod_eq_of_lt]
      omega
    · have hlt : (vliAdd a b).1.toNat < m.toNat := by
        simpa [hzero] using hover
      rw [hsum, Nat.mod_eq_of_lt (hsum ▸ hlt)]
  · have hnz : (vliAdd a b).2 ≠ 0 := fun h ↦ hcarry (carry_eq_zero_iff.1 h)
    have hsum : (vliAdd a b).1.toNat = a.toNat + b.toNat - 2 ^ (32 * n) := by
      rw [toNat_vliAdd, Nat.mod_eq_sub_mod (Nat.le_of_not_lt hcarry), Nat.mod_eq_of_lt]
      omega
    rw [if_pos (.inl hnz), toNat_vliSub, hsum,
      Nat.mod_eq_sub_mod (a := a.toNat + b.toNat) (by omega),
      Nat.mod_eq_of_lt (a := a.toNat + b.toNat - m.toNat) (by omega), Nat.mod_eq_of_lt] <;> omega

theorem toNat_vliModSub {a b m : Vli n} (ha : a.toNat < m.toNat) (hb : b.toNat < m.toNat) :
    (vliModSub a b m).toNat = (a.toNat + (m.toNat - b.toNat)) % m.toNat := by
  have hm := m.toNat_lt
  unfold vliModSub
  dsimp only
  by_cases hle : b.toNat ≤ a.toNat
  · have hzero := borrow_eq_zero_iff.2 hle
    rw [if_neg (not_not_intro hzero), toNat_vliSub_of_le hle,
      Nat.mod_eq_sub_mod (a := a.toNat + (m.toNat - b.toNat)) (by omega),
      Nat.mod_eq_of_lt] <;> omega
  · have hnz : (vliSub a b).2 ≠ 0 := fun h ↦ hle (borrow_eq_zero_iff.1 h)
    have hdiff : (vliSub a b).1.toNat = a.toNat + (2 ^ (32 * n) - b.toNat) := by
      rw [toNat_vliSub, Nat.mod_eq_of_lt]
      omega
    rw [if_pos hnz, toNat_vliAdd, hdiff,
      show a.toNat + (2 ^ (32 * n) - b.toNat) + m.toNat =
        a.toNat + (m.toNat - b.toNat) + 2 ^ (32 * n) by omega, Nat.add_mod_right,
      Nat.mod_eq_of_lt (by omega), Nat.mod_eq_of_lt (by omega)]

/-! ## Shift to the right -/

/-- The loop of `uECC_vli_rshift1`, from the top word down: each word takes the bit that
the word above shifts out. -/
def rshift1Loop : List UInt32 → List UInt32 × UInt32
  | [] => ([], 0)
  | temp :: vs =>
      let rest := rshift1Loop vs
      ((temp >>> 1 ||| rest.2) :: rest.1, temp <<< 31)

theorem length_rshift1Loop (ws : List UInt32) : (rshift1Loop ws).1.length = ws.length := by
  induction ws with
  | nil => rfl
  | cons w ws ih => rw [rshift1Loop, List.length_cons, ih, List.length_cons]

/-- `uECC_vli_rshift1`. -/
def vliRshift1 (vli : Vli n) : Vli n :=
  ⟨(rshift1Loop vli.words).1, (length_rshift1Loop vli.words).trans vli.length_words⟩

/-- The low bit of a word at its top. -/
theorem toNat_shiftLeft_31 (w : UInt32) : (w <<< 31).toNat = w.toNat % 2 * 2 ^ 31 := by
  rw [UInt32.toNat_shiftLeft, show (31 : UInt32).toNat % 32 = 31 from rfl, Nat.shiftLeft_eq]
  omega

/-- A word below the top bit and the top bit. -/
theorem toNat_or_top {v w : UInt32} {b : Nat} (hv : v.toNat < 2 ^ 31)
    (hw : w.toNat = b * 2 ^ 31) : (v ||| w).toNat = v.toNat + b * 2 ^ 31 := by
  rw [UInt32.toNat_or, hw, Nat.or_comm, Nat.mul_comm, ← Nat.two_pow_add_eq_or_of_lt hv,
    Nat.add_comm]

theorem rshift1Loop_spec (ws : List UInt32) :
    wordsToNat (rshift1Loop ws).1 = wordsToNat ws / 2 ∧
      (rshift1Loop ws).2.toNat = wordsToNat ws % 2 * 2 ^ 31 := by
  induction ws with
  | nil => exact ⟨rfl, rfl⟩
  | cons w ws ih =>
      obtain ⟨hval, hout⟩ := ih
      have hw : w.toNat < 2 ^ 32 := w.toNat_lt
      have hhalf : (w >>> 1).toNat = w.toNat / 2 := by
        rw [UInt32.toNat_shiftRight, Nat.shiftRight_eq_div_pow]
        rfl
      have hword : (w >>> 1 ||| (rshift1Loop ws).2).toNat =
          w.toNat / 2 + wordsToNat ws % 2 * 2 ^ 31 := by
        rw [toNat_or_top (by omega) hout, hhalf]
      refine ⟨?_, ?_⟩
      · rw [rshift1Loop, wordsToNat_cons, wordsToNat_cons, hword, hval]
        omega
      · rw [rshift1Loop, toNat_shiftLeft_31, wordsToNat_cons]
        omega

@[simp] theorem toNat_vliRshift1 (a : Vli n) : (vliRshift1 a).toNat = a.toNat / 2 :=
  (rshift1Loop_spec a.words).1

/-- `vli[num_words - 1] |= w << (uECC_WORD_BITS - 1)`. -/
def vliOrTop (vli : Vli n) (w : UInt32) : Vli n :=
  ⟨vli.words.set (n - 1) (vli.words.getD (n - 1) 0 ||| w <<< 31),
    List.length_set.trans vli.length_words⟩

theorem toNat_vliOrTop {a : Vli n} {w : UInt32} (hn : 0 < n)
    (ha : a.toNat < 2 ^ (32 * n - 1)) :
    (vliOrTop a w).toNat = a.toNat + w.toNat % 2 * 2 ^ (32 * n - 1) := by
  have hpow : 2 ^ (32 * n - 1) = 2 ^ (32 * (n - 1)) * 2 ^ 31 := by
    rw [← pow_add]
    congr 1
    omega
  have htop : (a.words.getD (n - 1) 0).toNat < 2 ^ 31 := by
    rw [getD_toNat]
    refine lt_of_le_of_lt (Nat.mod_le _ _) ?_
    rw [Nat.div_lt_iff_lt_mul (Nat.two_pow_pos _), Nat.mul_comm, ← hpow]
    exact ha
  have hset := wordsToNat_set a.words (k := n - 1) (by rw [a.length_words]; omega)
    (a.words.getD (n - 1) 0 ||| w <<< 31)
  rw [toNat_or_top htop (toNat_shiftLeft_31 w)] at hset
  rw [hpow]
  refine Nat.add_right_cancel (m := (a.words.getD (n - 1) 0).toNat * 2 ^ (32 * (n - 1))) ?_
  refine hset.trans ?_
  rw [Vli.toNat]
  ring

/-- A sum with its carry, halved. -/
theorem toNat_orTop_rshift1 {a : Vli n} {w : UInt32} (hn : 0 < n) (hw : w.toNat ≤ 1) :
    (vliOrTop (vliRshift1 a) w).toNat = (a.toNat + 2 ^ (32 * n) * w.toNat) / 2 := by
  have hlt := a.toNat_lt
  have hpow : 2 ^ (32 * n) = 2 * 2 ^ (32 * n - 1) := by
    rw [← pow_succ']
    congr 1
    omega
  rw [toNat_vliOrTop hn (by rw [toNat_vliRshift1]; omega), toNat_vliRshift1, hpow,
    Nat.mod_eq_of_lt (by omega), Nat.mul_assoc, Nat.add_mul_div_left _ _ (by decide), Nat.mul_comm]

end DualBank.UECC
