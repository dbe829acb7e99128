import Mathlib.Data.Set.Function
import Mathlib.Order.Interval.Set.Defs
import Mathlib.Tactic.SplitIfs

/-!
# Byte memories

A memory is a function from addresses to bytes.  This file collects what a
development about memory-mapped storage needs of it: reading a range as a list,
writing a list over a range, filling a range, and the frame lemmas that relate
them.  Agreement of two memories on a range is Mathlib's `Set.EqOn` over
`Set.Ico`.
-/

namespace DualBank.Lib

/-- A byte-addressed memory. -/
abbrev Mem := Nat → UInt8

namespace Mem

/-- The `n` bytes from address `a` on. -/
def read (m : Mem) (a : Nat) : Nat → List UInt8
  | 0 => []
  | n + 1 => m a :: read m (a + 1) n

/-- The memory with `bs` stored from address `a` on. -/
def write (m : Mem) (a : Nat) : List UInt8 → Mem
  | [] => m
  | b :: bs => write (Function.update m a b) (a + 1) bs

/-- The memory with every byte of `[lo, hi)` set to `b`. -/
def fill (m : Mem) (lo hi : Nat) (b : UInt8) : Mem :=
  fun x ↦ if lo ≤ x ∧ x < hi then b else m x

@[simp] theorem read_zero (m : Mem) (a : Nat) : m.read a 0 = [] := rfl

@[simp] theorem read_succ (m : Mem) (a n : Nat) :
    m.read a (n + 1) = m a :: m.read (a + 1) n := rfl

@[simp] theorem length_read (m : Mem) (a n : Nat) : (m.read a n).length = n := by
  induction n generalizing a with
  | zero => rfl
  | succ n ih => simp [ih]

theorem read_add (m : Mem) (a n k : Nat) :
    m.read a (n + k) = m.read a n ++ m.read (a + n) k := by
  induction n generalizing a with
  | zero => simp
  | succ n ih =>
      rw [Nat.add_right_comm, read_succ, ih, read_succ, List.cons_append]
      congr 3
      omega

theorem drop_read (m : Mem) (a n k : Nat) : (m.read a n).drop k = m.read (a + k) (n - k) := by
  induction k generalizing a n with
  | zero => rfl
  | succ k ih =>
      cases n with
      | zero => rw [read_zero, List.drop_nil, Nat.zero_sub, read_zero]
      | succ n =>
          rw [read_succ, List.drop_succ_cons, ih, Nat.succ_sub_succ, Nat.add_assoc,
            Nat.add_comm 1 k]

theorem take_read (m : Mem) (a n k : Nat) : (m.read a n).take k = m.read a (min k n) := by
  induction k generalizing a n with
  | zero => rw [List.take_zero, Nat.zero_min, read_zero]
  | succ k ih =>
      cases n with
      | zero => rfl
      | succ n => rw [read_succ, List.take_succ_cons, ih, Nat.succ_min_succ, read_succ]

@[simp] theorem getElem_read (m : Mem) (a n i : Nat) (h : i < (m.read a n).length) :
    (m.read a n)[i] = m (a + i) := by
  induction n generalizing a i with
  | zero => simp at h
  | succ n ih =>
      cases i with
      | zero => rfl
      | succ i =>
          simp only [read_succ, List.getElem_cons_succ]
          rw [ih]
          congr 1
          omega

/-- Reading a range is reading it byte by byte. -/
theorem read_eq_iff {m : Mem} {a : Nat} {bs : List UInt8} :
    m.read a bs.length = bs ↔ ∀ i (h : i < bs.length), m (a + i) = bs[i] := by
  constructor
  · intro h i hi
    have hi' : i < (m.read a bs.length).length := by simpa using hi
    rw [← getElem_read m a bs.length i hi']
    simp only [h]
  · intro h
    refine List.ext_getElem (by simp) fun i h₁ h₂ ↦ ?_
    rw [getElem_read]
    exact h i h₂

theorem read_congr {m m' : Mem} {a n : Nat} (h : Set.EqOn m m' (Set.Ico a (a + n))) :
    m.read a n = m'.read a n := by
  induction n generalizing a with
  | zero => rfl
  | succ n ih =>
      rw [read_succ, read_succ, h ⟨Nat.le_refl a, by omega⟩,
        ih fun x hx ↦ h ⟨by have := hx.1; omega, by have := hx.2; omega⟩]

/-- Writing changes only the bytes it writes. -/
theorem write_of_notMem (m : Mem) (a : Nat) (bs : List UInt8) (x : Nat)
    (h : x < a ∨ a + bs.length ≤ x) : m.write a bs x = m x := by
  induction bs generalizing m a with
  | nil => rfl
  | cons b bs ih =>
      have hx : x ≠ a := by simp only [List.length_cons] at h; omega
      rw [write, ih _ _ (by simp only [List.length_cons] at h; omega),
        Function.update_of_ne hx]

theorem write_getElem (m : Mem) (a : Nat) (bs : List UInt8) (i : Nat) (h : i < bs.length) :
    m.write a bs (a + i) = bs[i] := by
  induction bs generalizing m a i with
  | nil => simp at h
  | cons b bs ih =>
      cases i with
      | zero =>
          rw [write, write_of_notMem _ _ _ _ (by omega)]
          simp
      | succ i =>
          simp only [List.getElem_cons_succ, write]
          rw [← ih (Function.update m a b) (a + 1) i (by simpa using h)]
          congr 1
          omega

theorem read_write (m : Mem) (a : Nat) (bs : List UInt8) :
    (m.write a bs).read a bs.length = bs :=
  read_eq_iff.2 fun i h ↦ write_getElem m a bs i h

/-- A read that misses the written range is the read before the write. -/
theorem read_write_of_disjoint (m : Mem) {a : Nat} {bs : List UInt8} {b n : Nat}
    (h : b + n ≤ a ∨ a + bs.length ≤ b) : (m.write a bs).read b n = m.read b n :=
  read_congr fun x hx ↦ write_of_notMem m a bs x (by
    have h₁ := hx.1
    have h₂ := hx.2
    omega)

/-! ## Programming -/

/-- The memory after a NOR device programs `bs` from address `a` on: a programmed
byte keeps only the bits that were set already. -/
def program (m : Mem) (a : Nat) : List UInt8 → Mem
  | [] => m
  | b :: bs => program (Function.update m a (m a &&& b)) (a + 1) bs

/-- Programming changes only the bytes it programs. -/
theorem program_of_notMem (m : Mem) (a : Nat) (bs : List UInt8) (x : Nat)
    (h : x < a ∨ a + bs.length ≤ x) : m.program a bs x = m x := by
  induction bs generalizing m a with
  | nil => rfl
  | cons b bs ih =>
      have hx : x ≠ a := by simp only [List.length_cons] at h; omega
      rw [program, ih _ _ (by simp only [List.length_cons] at h; omega),
        Function.update_of_ne hx]

theorem program_getElem (m : Mem) (a : Nat) (bs : List UInt8) (i : Nat) (h : i < bs.length) :
    m.program a bs (a + i) = m (a + i) &&& bs[i] := by
  induction bs generalizing m a i with
  | nil => simp at h
  | cons b bs ih =>
      cases i with
      | zero =>
          rw [program, program_of_notMem _ _ _ _ (by omega)]
          simp
      | succ i =>
          have hi : i < bs.length := by simpa using h
          have := ih (Function.update m a (m a &&& b)) (a + 1) i hi
          rw [Function.update_of_ne (by omega), show a + 1 + i = a + (i + 1) by omega] at this
          simpa only [program, List.getElem_cons_succ] using this

theorem program_append (m : Mem) (a : Nat) (bs bs' : List UInt8) :
    m.program a (bs ++ bs') = (m.program a bs).program (a + bs.length) bs' := by
  induction bs generalizing m a with
  | nil => rfl
  | cons b bs ih =>
      simp only [List.cons_append, program, ih, List.length_cons]
      congr 1
      omega

/-- Programming erased bytes stores the data. -/
theorem program_eq_of_erased {m : Mem} {a : Nat} {bs : List UInt8} {i : Nat}
    (he : m (a + i) = 0xFF) (h : i < bs.length) : m.program a bs (a + i) = bs[i] := by
  rw [program_getElem m a bs i h, he]
  exact UInt8.neg_one_and

/-- Storing `bs` at `a` only clears bits: every byte keeps all the bits of its new
value. -/
def Clears (m : Mem) (a : Nat) (bs : List UInt8) : Prop :=
  ∀ i (h : i < bs.length), m (a + i) &&& bs[i] = bs[i]

/-- Programming stores exactly the data that only clears bits. -/
theorem clears_iff_read_program {m : Mem} {a : Nat} {bs : List UInt8} :
    m.Clears a bs ↔ (m.program a bs).read a bs.length = bs := by
  rw [read_eq_iff]
  refine forall₂_congr fun i hi ↦ ?_
  rw [program_getElem m a bs i hi]

theorem clears_of_erased {m : Mem} {a : Nat} {bs : List UInt8}
    (he : ∀ i < bs.length, m (a + i) = 0xFF) : m.Clears a bs := fun i hi ↦ by
  rw [he i hi]
  exact UInt8.neg_one_and

theorem Clears.congr {m m' : Mem} {a : Nat} {bs : List UInt8} (h : m.Clears a bs)
    (he : ∀ i < bs.length, m' (a + i) = m (a + i)) : m'.Clears a bs := fun i hi ↦ by
  rw [he i hi, h i hi]

theorem Clears.head {m : Mem} {a : Nat} {b : UInt8} {bs : List UInt8} (h : m.Clears a (b :: bs)) :
    m a &&& b = b := h 0 (by simp)

/-- What is left to store after a prefix has been stored. -/
theorem Clears.right {m : Mem} {a : Nat} (bs : List UInt8) {bs' : List UInt8}
    (h : m.Clears a (bs ++ bs')) : m.Clears (a + bs.length) bs' := fun i hi ↦ by
  have hi' := h (bs.length + i) (by simp only [List.length_append]; omega)
  rw [List.getElem_append_right (Nat.le_add_right _ _), ← Nat.add_assoc] at hi'
  simpa only [Nat.add_sub_cancel_left] using hi'

theorem Clears.left {m : Mem} {a : Nat} (bs : List UInt8) {bs' : List UInt8}
    (h : m.Clears a (bs ++ bs')) : m.Clears a bs := fun i hi ↦ by
  have hi' := h i (by simp only [List.length_append]; omega)
  rwa [List.getElem_append_left hi] at hi'

/-! ## Filling -/

theorem fill_of_mem (m : Mem) {lo hi x : Nat} (b : UInt8) (h₁ : lo ≤ x) (h₂ : x < hi) :
    m.fill lo hi b x = b := by simp [fill, h₁, h₂]

theorem fill_of_notMem (m : Mem) {lo hi x : Nat} (b : UInt8) (h : x < lo ∨ hi ≤ x) :
    m.fill lo hi b x = m x := by
  have hx : ¬(lo ≤ x ∧ x < hi) := by omega
  simp [fill, hx]

/-- A range all of whose bytes are `b` reads as copies of `b`. -/
theorem read_eq_replicate {m : Mem} {a n : Nat} {b : UInt8}
    (h : ∀ x, a ≤ x → x < a + n → m x = b) : m.read a n = List.replicate n b := by
  induction n generalizing a with
  | zero => rfl
  | succ n ih =>
      rw [read_succ, h a (Nat.le_refl a) (by omega),
        ih fun x h₁ h₂ ↦ h x (by omega) (by omega), List.replicate_succ]

/-- An erased range after a part of it has been programmed. -/
theorem read_program {m : Mem} {a n : Nat} {bs : List UInt8} (he : ∀ i < n, m (a + i) = 0xFF)
    (h : bs.length ≤ n) :
    (m.program a bs).read a n = bs ++ List.replicate (n - bs.length) 0xFF := by
  refine List.ext_getElem (by simp; omega) fun i h₁ h₂ ↦ ?_
  have hi : i < n := by simpa using h₁
  rw [getElem_read, List.getElem_append]
  split_ifs with hlt
  · exact program_eq_of_erased (he i hi) hlt
  · rw [List.getElem_replicate, program_of_notMem _ _ _ _ (.inr (by omega)), he i hi]

end Mem

end DualBank.Lib
