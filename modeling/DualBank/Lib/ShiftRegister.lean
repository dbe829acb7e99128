import Mathlib.Data.Bool.Basic
import Mathlib.Data.List.GetD
import Mathlib.Logic.Function.Iterate

/-!
# Shift registers

A linear feedback shift register of any width that takes in a string of bits at its low
end, and the errors it detects: two strings that differ only inside a window as wide as
the register leave it in different states.
-/

namespace DualBank.Lib.ShiftRegister

variable {w : Nat}

/-! ## Turns -/

/-- One turn: a shift towards the low end, and the taps where a one falls out of it. -/
def turn (taps x : BitVec w) : BitVec w := (x >>> 1) ^^^ (if x.getLsbD 0 then taps else 0)

/-- A bit at the low end. -/
def low (b : Bool) : BitVec w := (BitVec.ofBool b).setWidth w

/-- The register after a string of bits, the first one fed first. -/
def feed (taps : BitVec w) : BitVec w → List Bool → BitVec w
  | x, [] => x
  | x, b :: bs => feed taps (turn taps (x ^^^ low b)) bs

/-- The word of a string of bits, the first one lowest. -/
def word : List Bool → BitVec w
  | [] => 0
  | b :: bs => low b ^^^ (word bs <<< 1)

theorem getLsbD_low (b : Bool) (i : Nat) :
    (low b : BitVec w).getLsbD i = (decide (i < w) && decide (i = 0) && b) := by
  rw [low, BitVec.getLsbD_setWidth, BitVec.getLsbD_ofBool]
  cases b <;> simp

@[simp] theorem low_false : (low false : BitVec w) = 0 := by
  refine BitVec.eq_of_getLsbD_eq fun i _ ↦ ?_
  rw [getLsbD_low, Bool.and_false, BitVec.ofNat_eq_ofNat, BitVec.getLsbD_zero]

theorem low_xor (a b : Bool) : (low (a ^^ b) : BitVec w) = low a ^^^ low b := by
  refine BitVec.eq_of_getLsbD_eq fun i _ ↦ ?_
  rw [BitVec.getLsbD_xor, getLsbD_low, getLsbD_low, getLsbD_low, Bool.and_xor_distrib_left]

@[simp] theorem turn_zero (taps : BitVec w) : turn taps 0 = 0 := by
  simp [turn]

/-- A turn is linear. -/
theorem turn_xor (taps x y : BitVec w) : turn taps (x ^^^ y) = turn taps x ^^^ turn taps y := by
  have htaps : ∀ a b : Bool, (if (a ^^ b) = true then taps else 0) =
      (if a = true then taps else 0) ^^^ (if b = true then taps else 0) := by
    intro a b
    cases a <;> cases b <;> simp
  unfold turn
  rw [BitVec.getLsbD_xor, htaps, BitVec.ushiftRight_xor_distrib]
  ac_rfl

/-- A turn undoes a shift that loses no bit. -/
theorem turn_shiftLeft (taps : BitVec w) {x : BitVec w} (h : x.msb = false) :
    turn taps (x <<< 1) = x := by
  refine BitVec.eq_of_getLsbD_eq fun i hi ↦ ?_
  rw [BitVec.msb_eq_getLsbD_last] at h
  unfold turn
  simp only [BitVec.getLsbD_xor, BitVec.getLsbD_ushiftRight, BitVec.getLsbD_shiftLeft]
  rcases Nat.lt_or_eq_of_le (Nat.succ_le_of_lt hi) with hlt | heq
  · simp [Nat.add_comm 1 i, hlt]
  · have hlast : i = w - 1 := by omega
    simp [hlast, h]

/-- Where the highest tap is set, no register but the empty one turns into the empty one. -/
theorem eq_zero_of_turn {taps x : BitVec w} (htaps : taps.msb = true) (h : turn taps x = 0) :
    x = 0 := by
  have hbit : ∀ i, (turn taps x).getLsbD i = false := fun i ↦ by
    rw [h, BitVec.ofNat_eq_ofNat, BitVec.getLsbD_zero]
  rw [BitVec.msb_eq_getLsbD_last] at htaps
  have hlow : x.getLsbD 0 = false := by
    -- otherwise the highest bit of the turned register is the highest tap
    by_contra hne
    have hlast := hbit (w - 1)
    rw [Bool.not_eq_false] at hne
    unfold turn at hlast
    rw [if_pos hne, BitVec.getLsbD_xor, htaps, BitVec.getLsbD_ushiftRight,
      BitVec.getLsbD_of_ge x _ (by omega)] at hlast
    cases hlast
  refine BitVec.eq_of_getLsbD_eq fun i _ ↦ ?_
  rw [BitVec.ofNat_eq_ofNat, BitVec.getLsbD_zero]
  cases i with
  | zero => exact hlow
  | succ i =>
      have hi := hbit i
      unfold turn at hi
      rwa [hlow, if_neg Bool.false_ne_true, BitVec.ofNat_eq_ofNat, BitVec.xor_zero,
        BitVec.getLsbD_ushiftRight, Nat.add_comm] at hi

theorem turn_injective {taps : BitVec w} (htaps : taps.msb = true) :
    Function.Injective (turn taps) := by
  intro x y h
  have hzero : turn taps (x ^^^ y) = 0 := by
    rw [turn_xor, h, BitVec.xor_self]
    rfl
  exact BitVec.xor_eq_zero_iff.1 (eq_zero_of_turn htaps hzero)

theorem iterate_turn_ne_zero {taps x : BitVec w} (htaps : taps.msb = true) (hx : x ≠ 0) (n : Nat) :
    (turn taps)^[n] x ≠ 0 := by
  intro h
  refine hx ((turn_injective htaps).iterate n ?_)
  rw [h, Function.iterate_fixed (turn_zero taps)]

/-! ## Strings -/

theorem getLsbD_word (bs : List Bool) (i : Nat) :
    (word bs : BitVec w).getLsbD i = (decide (i < w) && bs.getD i false) := by
  induction bs generalizing i with
  | nil => simp [word]
  | cons b bs ih =>
      rw [word, BitVec.getLsbD_xor, getLsbD_low, BitVec.getLsbD_shiftLeft, ih]
      cases i with
      | zero => simp
      | succ i =>
          have hlt : i + 1 < w → i < w := Nat.lt_of_succ_lt
          by_cases h : i + 1 < w <;> simp [h, hlt]

theorem feed_append (taps x : BitVec w) (as bs : List Bool) :
    feed taps x (as ++ bs) = feed taps (feed taps x as) bs := by
  induction as generalizing x with
  | nil => rfl
  | cons a as ih => exact ih _

/-- Feeding is linear. -/
theorem feed_xor (taps : BitVec w) {as bs : List Bool} (h : as.length = bs.length)
    (x y : BitVec w) :
    feed taps (x ^^^ y) (List.zipWith (· ^^ ·) as bs) = feed taps x as ^^^ feed taps y bs := by
  induction as generalizing bs x y with
  | nil =>
      cases bs with
      | nil => rfl
      | cons b bs => cases h
  | cons a as ih =>
      cases bs with
      | nil => cases h
      | cons b bs =>
          have hstep : x ^^^ y ^^^ low (a ^^ b) = x ^^^ low a ^^^ (y ^^^ low b) := by
            rw [low_xor]
            ac_rfl
          rw [List.zipWith_cons_cons, feed, feed, feed, hstep, turn_xor]
          exact ih (Nat.succ.inj h) _ _

/-- A string that fits into the register may be fed at once. -/
theorem feed_eq_iterate (taps : BitVec w) {bs : List Bool} (h : bs.length ≤ w) (x : BitVec w) :
    feed taps x bs = (turn taps)^[bs.length] (x ^^^ word bs) := by
  induction bs generalizing x with
  | nil => simp [feed, word]
  | cons b bs ih =>
      have hmsb : (word bs : BitVec w).msb = false := by
        rw [BitVec.msb_eq_getLsbD_last, getLsbD_word,
          List.getD_eq_default _ _ (by rw [List.length_cons] at h; omega), Bool.and_false]
      have hword : x ^^^ word (b :: bs) = x ^^^ low b ^^^ (word bs <<< 1) := by
        rw [word, BitVec.xor_assoc]
      rw [feed, ih (Nat.le_of_succ_le h), List.length_cons, Function.iterate_succ_apply, hword,
        turn_xor taps (x ^^^ low b), turn_shiftLeft taps hmsb]

theorem feed_zeros (taps : BitVec w) {bs : List Bool} (h : ∀ b ∈ bs, b = false) (x : BitVec w) :
    feed taps x bs = (turn taps)^[bs.length] x := by
  induction bs generalizing x with
  | nil => rfl
  | cons b bs ih =>
      rw [List.forall_mem_cons] at h
      rw [feed, h.1, low_false, BitVec.ofNat_eq_ofNat, BitVec.xor_zero, ih h.2, List.length_cons,
        Function.iterate_succ_apply]

/-! ## Windows -/

variable {taps : BitVec w} {es : List Bool}

/-- A string with a one, and with none behind the width of the register, does not leave it
empty. -/
theorem feed_ne_zero_of_lt (htaps : taps.msb = true) (hone : ∃ i, es.getD i false = true)
    (hlt : ∀ i, es.getD i false = true → i < w) : feed taps 0 es ≠ 0 := by
  obtain ⟨i, hi⟩ := hone
  have hword : (word (es.take w) : BitVec w) ≠ 0 := fun h ↦ by
    have hbit := congrArg (fun x : BitVec w ↦ x.getLsbD i) h
    have htake : (es.take w).getD i false = true := by
      rw [List.getD_eq_getElem?_getD, List.getElem?_take_of_lt (hlt i hi),
        ← List.getD_eq_getElem?_getD]
      exact hi
    rw [getLsbD_word, htake, decide_eq_true (hlt i hi), BitVec.ofNat_eq_ofNat,
      BitVec.getLsbD_zero] at hbit
    cases hbit
  have hrest : ∀ b ∈ es.drop w, b = false := by
    intro b hb
    obtain ⟨j, hj, rfl⟩ := List.mem_iff_getElem.1 hb
    by_contra hne
    rw [Bool.not_eq_false, List.getElem_drop, ← List.getD_eq_getElem es false] at hne
    have := hlt _ hne
    omega
  rw [← List.take_append_drop w es, feed_append, feed_zeros taps hrest,
    feed_eq_iterate taps (List.length_take_le w es)]
  refine iterate_turn_ne_zero htaps (iterate_turn_ne_zero htaps ?_ _) _
  rwa [BitVec.ofNat_eq_ofNat, BitVec.zero_xor]

/-- A string with a one, and with all its ones in a window as wide as the register, does not
leave it empty. -/
theorem feed_ne_zero (htaps : taps.msb = true) {k : Nat} (hone : ∃ i, es.getD i false = true)
    (hwin : ∀ i, es.getD i false = true → k ≤ i ∧ i < k + w) : feed taps 0 es ≠ 0 := by
  induction k generalizing es with
  | zero =>
      refine feed_ne_zero_of_lt htaps hone fun i hi ↦ ?_
      have := (hwin i hi).2
      omega
  | succ k ih =>
      cases es with
      | nil =>
          obtain ⟨i, hi⟩ := hone
          cases hi
      | cons e es =>
          -- the zero in front of the window leaves the register empty
          have he : e = false := by
            cases e with
            | false => rfl
            | true => exact absurd (hwin 0 rfl).1 (Nat.not_succ_le_zero k)
          have hstep : feed taps 0 (e :: es) = feed taps 0 es := by
            rw [feed, he, low_false, BitVec.xor_self]
            exact congrArg (feed taps · es) (turn_zero taps)
          rw [hstep]
          refine ih ?_ fun i hi ↦ ?_
          · obtain ⟨i, hi⟩ := hone
            cases i with
            | zero => exact absurd (hi.symm.trans he) Bool.true_eq_false_eq_False
            | succ i => exact ⟨i, hi⟩
          · have := hwin (i + 1) hi
            omega

theorem getD_zipWith_xor {as bs : List Bool} (hlen : as.length = bs.length) (i : Nat) :
    (List.zipWith (· ^^ ·) as bs).getD i false = (as.getD i false ^^ bs.getD i false) := by
  have hzip : (List.zipWith (· ^^ ·) as bs).length = as.length := by
    rw [List.length_zipWith, ← hlen, Nat.min_self]
  rcases Nat.lt_or_ge i as.length with hi | hi
  · rw [List.getD_eq_getElem _ _ (hzip.symm ▸ hi), List.getD_eq_getElem _ _ hi,
      List.getD_eq_getElem _ _ (hlen ▸ hi), List.getElem_zipWith]
  · rw [List.getD_eq_default _ _ (hzip.symm ▸ hi), List.getD_eq_default _ _ hi,
      List.getD_eq_default _ _ (hlen ▸ hi), Bool.xor_self]

/-- **Bursts.**  Two strings of one length that differ, and only inside a window as wide as
the register, leave it in different states. -/
theorem feed_ne_of_window (htaps : taps.msb = true) {as bs : List Bool}
    (hlen : as.length = bs.length) (hne : as ≠ bs) {k : Nat}
    (hwin : ∀ i, as.getD i false ≠ bs.getD i false → k ≤ i ∧ i < k + w) (x : BitVec w) :
    feed taps x as ≠ feed taps x bs := by
  have hdiff := getD_zipWith_xor hlen
  have hone : ∃ i, (List.zipWith (· ^^ ·) as bs).getD i false = true := by
    by_contra hnone
    refine hne (List.ext_getElem hlen fun i h₁ h₂ ↦ ?_)
    have hi : (List.zipWith (· ^^ ·) as bs).getD i false = false :=
      Bool.eq_false_iff.2 fun h ↦ hnone ⟨i, h⟩
    rw [hdiff, List.getD_eq_getElem _ _ h₁, List.getD_eq_getElem _ _ h₂] at hi
    exact bne_eq_false_iff_eq.1 hi
  intro heq
  refine feed_ne_zero htaps hone (fun i hi ↦ hwin i ?_) ?_
  · rw [hdiff] at hi
    exact bne_iff_ne.1 hi
  · have hzero := feed_xor taps hlen x x
    rwa [heq, BitVec.xor_self, BitVec.xor_self] at hzero

end DualBank.Lib.ShiftRegister
