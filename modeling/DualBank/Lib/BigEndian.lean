import Mathlib.Algebra.Order.Ring.Nat
import Mathlib.Tactic.Ring
import Mathlib.Tactic.SplitIfs

/-!
# Big-endian numbers

Numbers as strings of bytes, the most significant one first: the value of a string, the
string of a value, and what a byte-wise subtraction from the last byte on finds out about
two values.
-/

namespace DualBank.Lib

/-- The value of a string of bytes. -/
def beNat : List UInt8 → Nat
  | [] => 0
  | b :: bs => b.toNat * 256 ^ bs.length + beNat bs

/-- The last `len` bytes of a number. -/
def beBytes : Nat → Nat → List UInt8
  | 0, _ => []
  | len + 1, n => UInt8.ofNat (n / 256 ^ len) :: beBytes len n

@[simp] theorem length_beBytes (len n : Nat) : (beBytes len n).length = len := by
  induction len with
  | zero => rfl
  | succ len ih => rw [beBytes, List.length_cons, ih]

theorem beNat_lt (bs : List UInt8) : beNat bs < 256 ^ bs.length := by
  induction bs with
  | nil => exact Nat.one_pos
  | cons b bs ih =>
      have hb : b.toNat + 1 ≤ 256 := b.toNat_lt
      calc b.toNat * 256 ^ bs.length + beNat bs
          < b.toNat * 256 ^ bs.length + 256 ^ bs.length := Nat.add_lt_add_left ih _
        _ = (b.toNat + 1) * 256 ^ bs.length := (Nat.succ_mul _ _).symm
        _ ≤ 256 * 256 ^ bs.length := Nat.mul_le_mul_right _ hb
        _ = 256 ^ (bs.length + 1) := (Nat.pow_succ' ..).symm

/-- The bytes of a number have its value, as far as they reach. -/
theorem beNat_beBytes (len n : Nat) : beNat (beBytes len n) = n % 256 ^ len := by
  induction len with
  | zero => exact (Nat.mod_one n).symm
  | succ len ih =>
      have hmod : n % 256 ^ (len + 1) = n % 256 ^ len + 256 ^ len * (n / 256 ^ len % 256) :=
        Nat.mod_pow_succ
      rw [beBytes, beNat, ih, length_beBytes, UInt8.toNat_ofNat', hmod, Nat.add_comm, Nat.mul_comm]

theorem beNat_beBytes_of_lt {len n : Nat} (h : n < 256 ^ len) : beNat (beBytes len n) = n := by
  rw [beNat_beBytes, Nat.mod_eq_of_lt h]

/-- A string is the bytes of its value. -/
theorem beBytes_beNat (bs : List UInt8) : beBytes bs.length (beNat bs) = bs := by
  have hhigh : ∀ len n m, beBytes len (n * 256 ^ len + m) = beBytes len m := by
    intro len
    induction len with
    | zero => exact fun _ _ ↦ rfl
    | succ len ih =>
        intro n m
        have hpos : 0 < 256 ^ len := Nat.pow_pos (by decide)
        have hsplit : n * 256 ^ (len + 1) = n * 256 * 256 ^ len := by
          rw [Nat.pow_succ', Nat.mul_assoc]
        rw [beBytes, beBytes, hsplit, ih, Nat.mul_comm _ (256 ^ len), Nat.mul_add_div hpos]
        congr 1
        refine UInt8.toNat_inj.mp ?_
        rw [UInt8.toNat_ofNat', UInt8.toNat_ofNat']
        exact Nat.mul_add_mod_self_right ..
  induction bs with
  | nil => rfl
  | cons b bs ih =>
      have hpos : 0 < 256 ^ bs.length := Nat.pow_pos (by decide)
      rw [List.length_cons, beBytes, beNat, hhigh, ih, Nat.mul_comm, Nat.mul_add_div hpos,
        Nat.div_eq_of_lt (beNat_lt bs), Nat.add_zero, UInt8.ofNat_toNat]

/-- Only strings of zeros have the value zero. -/
theorem beNat_eq_zero_iff {bs : List UInt8} : beNat bs = 0 ↔ ∀ b ∈ bs, b = 0 := by
  induction bs with
  | nil => exact ⟨fun _ _ h ↦ (by cases h), fun _ ↦ rfl⟩
  | cons b bs ih =>
      have hpos : 0 < 256 ^ bs.length := Nat.pow_pos (by decide)
      rw [beNat, Nat.add_eq_zero_iff, Nat.mul_eq_zero, ih, List.forall_mem_cons]
      refine and_congr_left fun _ ↦ ⟨fun h ↦ ?_, fun h ↦ .inl (by rw [h]; rfl)⟩
      exact UInt8.toNat_inj.mp (h.resolve_right (Nat.ne_of_gt hpos))

/-- The bitwise or of a string is zero exactly when every byte is. -/
theorem foldl_or_eq_zero_iff {bs : List UInt8} {a : UInt8} :
    bs.foldl (· ||| ·) a = 0 ↔ a = 0 ∧ ∀ b ∈ bs, b = 0 := by
  induction bs generalizing a with
  | nil => exact ⟨fun h ↦ ⟨h, fun _ h ↦ (by cases h)⟩, And.left⟩
  | cons b bs ih =>
      rw [List.foldl_cons, ih, UInt8.or_eq_zero_iff, List.forall_mem_cons, and_assoc]

/-- The borrow of a byte-wise subtraction, the last byte first. -/
def borrow (xs ys : List UInt8) : Int :=
  (xs.zip ys).foldr (fun p b ↦ if (p.1.toNat : Int) - p.2.toNat - b < 0 then 1 else 0) 0

/-- A subtraction borrows exactly when the second value is the greater one. -/
theorem borrow_eq {xs ys : List UInt8} (h : xs.length = ys.length) :
    borrow xs ys = if beNat xs < beNat ys then 1 else 0 := by
  induction xs generalizing ys with
  | nil =>
      cases ys with
      | nil => rfl
      | cons y ys => cases h
  | cons x xs ih =>
      cases ys with
      | nil => cases h
      | cons y ys =>
          have hlen : xs.length = ys.length := Nat.succ.inj h
          have hx := beNat_lt xs
          have hy := beNat_lt ys
          have hstep : borrow (x :: xs) (y :: ys) =
              if (x.toNat : Int) - y.toNat - borrow xs ys < 0 then 1 else 0 := rfl
          rw [hstep, ih hlen, beNat, beNat, ← hlen]
          rw [← hlen] at hy
          generalize 256 ^ xs.length = B at *
          -- the first bytes decide, or else the others do
          rcases Nat.lt_trichotomy x.toNat y.toNat with hlt | heq | hgt
          · have hle : (x.toNat + 1) * B ≤ y.toNat * B := Nat.mul_le_mul_right B hlt
            rw [Nat.succ_mul] at hle
            rw [if_pos (by split <;> omega), if_pos (by omega)]
          · rw [heq]
            split_ifs <;> omega
          · have hle : (y.toNat + 1) * B ≤ x.toNat * B := Nat.mul_le_mul_right B hgt
            rw [Nat.succ_mul] at hle
            rw [if_neg (by split <;> omega), if_neg (by omega)]

/-- A byte-wise subtraction, the last byte first: the bytes of the difference, and what is
still borrowed at the end. -/
def subtract (xs ys : List UInt8) : List UInt8 × Int :=
  (xs.zip ys).foldr (fun p r ↦
    let diff := (p.1.toNat : Int) - p.2.toNat - r.2
    if diff < 0 then (UInt8.ofInt (diff + 256) :: r.1, 1) else (UInt8.ofInt diff :: r.1, 0)) ([], 0)

theorem subtract_snd (xs ys : List UInt8) : (subtract xs ys).2 = borrow xs ys := by
  unfold subtract borrow
  induction xs.zip ys with
  | nil => rfl
  | cons p ps ih =>
      rw [List.foldr_cons, List.foldr_cons, ← ih]
      dsimp only
      split_ifs
      · rfl
      · rfl

theorem toNat_ofInt {n : Int} (h₀ : 0 ≤ n) (h₁ : n < 256) : ((UInt8.ofInt n).toNat : Int) = n := by
  have hmod : n % 2 ^ 8 = n := Int.emod_eq_of_lt h₀ h₁
  rw [UInt8.ofInt, hmod, UInt8.toNat_ofNat']
  omega

/-- The bytes of a difference have its value, one unit of the next place added for what is
borrowed. -/
theorem beNat_subtract {xs ys : List UInt8} (h : xs.length = ys.length) :
    (subtract xs ys).1.length = xs.length ∧
      (beNat (subtract xs ys).1 : Int) =
        beNat xs - beNat ys + 256 ^ xs.length * (subtract xs ys).2 := by
  induction xs generalizing ys with
  | nil =>
      cases ys with
      | nil => exact ⟨rfl, rfl⟩
      | cons y ys => cases h
  | cons x xs ih =>
      cases ys with
      | nil => cases h
      | cons y ys =>
          obtain ⟨hlen, hval⟩ := ih (Nat.succ.inj h)
          have hx := x.toNat_lt
          have hy := y.toNat_lt
          have hb : (subtract xs ys).2 = 0 ∨ (subtract xs ys).2 = 1 := by
            rw [subtract_snd, borrow_eq (Nat.succ.inj h)]
            split_ifs
            · exact .inr rfl
            · exact .inl rfl
          have hstep : subtract (x :: xs) (y :: ys) =
              if (x.toNat : Int) - y.toNat - (subtract xs ys).2 < 0 then
                (UInt8.ofInt ((x.toNat : Int) - y.toNat - (subtract xs ys).2 + 256) ::
                  (subtract xs ys).1, 1)
              else (UInt8.ofInt ((x.toNat : Int) - y.toNat - (subtract xs ys).2) ::
                (subtract xs ys).1, 0) := rfl
          rw [hstep]
          split_ifs with hneg
          · refine ⟨congrArg Nat.succ hlen, ?_⟩
            have hbyte := toNat_ofInt (n := (x.toNat : Int) - y.toNat - (subtract xs ys).2 + 256)
              (by omega) (by omega)
            simp only [beNat, hlen, Nat.succ.inj h, Nat.cast_add, Nat.cast_mul, Nat.cast_pow,
              hbyte, hval, List.length_cons] at *
            ring
          · refine ⟨congrArg Nat.succ hlen, ?_⟩
            have hbyte := toNat_ofInt (n := (x.toNat : Int) - y.toNat - (subtract xs ys).2)
              (by omega) (by omega)
            simp only [beNat, hlen, Nat.succ.inj h, Nat.cast_add, Nat.cast_mul, Nat.cast_pow,
              hbyte, hval, List.length_cons] at *
            ring

/-- Where nothing is borrowed at the end, the bytes are those of the difference. -/
theorem subtract_eq_beBytes {xs ys : List UInt8} (h : xs.length = ys.length)
    (hle : beNat ys ≤ beNat xs) :
    (subtract xs ys).1 = beBytes xs.length (beNat xs - beNat ys) := by
  obtain ⟨hlen, hval⟩ := beNat_subtract h
  have hnat : beNat (subtract xs ys).1 = beNat xs - beNat ys := by
    rw [subtract_snd, borrow_eq h, if_neg (Nat.not_lt.2 hle), mul_zero, add_zero] at hval
    omega
  rw [← hnat, ← hlen, beBytes_beNat]

end DualBank.Lib
