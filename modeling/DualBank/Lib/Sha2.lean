import Mathlib.Algebra.Group.Nat.Defs
import Mathlib.Data.List.GetD

/-!
# SHA-256 as the standard defines it

FIPS 180-4, sections 4.1.2, 4.2.2, 5.1.1, 5.3.3 and 6.2.2, on messages of whole bytes:
the message is padded to whole blocks, and every block is compressed into the hash value
under its message schedule.  The constants are computed from the roots of the primes.
-/

namespace DualBank.Lib.Sha2

/-! ## Functions -/

def rotr (n x : UInt32) : UInt32 := (x >>> n) ||| (x <<< (32 - n))

def ch (x y z : UInt32) : UInt32 := (x &&& y) ^^^ (~~~x &&& z)
def maj (x y z : UInt32) : UInt32 := (x &&& y) ^^^ (x &&& z) ^^^ (y &&& z)
def bigSigma0 (x : UInt32) : UInt32 := rotr 2 x ^^^ rotr 13 x ^^^ rotr 22 x
def bigSigma1 (x : UInt32) : UInt32 := rotr 6 x ^^^ rotr 11 x ^^^ rotr 25 x
def sigma0 (x : UInt32) : UInt32 := rotr 7 x ^^^ rotr 18 x ^^^ (x >>> 3)
def sigma1 (x : UInt32) : UInt32 := rotr 17 x ^^^ rotr 19 x ^^^ (x >>> 10)

/-! ## Constants -/

/-- The integer part of the `e`-th root of `x`, given that it starts with `r` and has
`bits` further binary digits. -/
def root (e x : Nat) : Nat → Nat → Nat
  | 0, r => r
  | bits + 1, r => root e x bits (if (r + 2 ^ bits) ^ e ≤ x then r + 2 ^ bits else r)

/-- The first 32 bits of the fractional part of the `e`-th root of `p`. -/
def fracRoot (e p : Nat) : UInt32 := UInt32.ofNat (root e (p * 2 ^ (32 * e)) 36 0)

def isPrime (n : Nat) : Bool := 2 ≤ n && (List.range n).all fun d ↦ d < 2 || n % d != 0

/-- The first 64 primes. -/
def primes : List Nat := (List.range 312).filter isPrime

/-- `K`: cube roots of the primes. -/
def k (t : Nat) : UInt32 := fracRoot 3 (primes.getD t 0)

/-- The eight working variables, and the eight words of a hash value. -/
structure Vars where
  a : UInt32
  b : UInt32
  c : UInt32
  d : UInt32
  e : UInt32
  f : UInt32
  g : UInt32
  h : UInt32
deriving DecidableEq

/-- The initial hash value: square roots of the first eight primes. -/
def initial : Vars :=
  let h := fun t ↦ fracRoot 2 (primes.getD t 0)
  ⟨h 0, h 1, h 2, h 3, h 4, h 5, h 6, h 7⟩

/-! ## Compression -/

/-- The message schedule of a block of sixteen words. -/
def schedule (m : Nat → UInt32) (t : Nat) : UInt32 :=
  if t < 16 then m t
  else
    sigma1 (schedule m (t - 2)) + schedule m (t - 7) + sigma0 (schedule m (t - 15)) +
      schedule m (t - 16)
termination_by t
decreasing_by all_goals omega

def round (w : Nat → UInt32) (v : Vars) (t : Nat) : Vars :=
  let t1 := v.h + bigSigma1 v.e + ch v.e v.f v.g + k t + w t
  let t2 := bigSigma0 v.a + maj v.a v.b v.c
  ⟨t1 + t2, v.a, v.b, v.c, v.d + t1, v.e, v.f, v.g⟩

/-- The hash value after a block. -/
def compress (h : Vars) (m : Nat → UInt32) : Vars :=
  let v := (List.range 64).foldl (round (schedule m)) h
  ⟨v.a + h.a, v.b + h.b, v.c + h.c, v.d + h.d, v.e + h.e, v.f + h.f, v.g + h.g, v.h + h.h⟩

theorem schedule_of_lt (m : Nat → UInt32) {t : Nat} (h : t < 16) : schedule m t = m t := by
  rw [schedule, if_pos h]

theorem schedule_of_ge (m : Nat → UInt32) {t : Nat} (h : ¬t < 16) :
    schedule m t = sigma1 (schedule m (t - 2)) + schedule m (t - 7) +
      sigma0 (schedule m (t - 15)) + schedule m (t - 16) := by
  rw [schedule, if_neg h]

/-- The schedule depends on the sixteen words of the block. -/
theorem schedule_congr {m m' : Nat → UInt32} (h : ∀ t < 16, m t = m' t) (t : Nat) :
    schedule m t = schedule m' t := by
  induction t using Nat.strongRecOn with
  | ind t ih =>
      by_cases ht : t < 16
      · rw [schedule_of_lt m ht, schedule_of_lt m' ht, h t ht]
      · rw [schedule_of_ge m ht, schedule_of_ge m' ht, ih (t - 2) (by omega), ih (t - 7) (by omega),
          ih (t - 15) (by omega), ih (t - 16) (by omega)]

theorem compress_congr {m m' : Nat → UInt32} (h : ∀ t < 16, m t = m' t) (v : Vars) :
    compress v m = compress v m' := by
  have hs : schedule m = schedule m' := funext (schedule_congr h)
  unfold compress
  rw [hs]

/-! ## Messages -/

/-- The word with these bytes, the first one first. -/
def be32 (b₀ b₁ b₂ b₃ : UInt8) : UInt32 :=
  (b₀.toUInt32 <<< 24) ||| (b₁.toUInt32 <<< 16) ||| (b₂.toUInt32 <<< 8) ||| b₃.toUInt32

/-- The `i`-th word of a string of bytes. -/
def wordAt (bs : List UInt8) (i : Nat) : UInt32 :=
  be32 (bs.getD (4 * i) 0) (bs.getD (4 * i + 1) 0) (bs.getD (4 * i + 2) 0) (bs.getD (4 * i + 3) 0)

/-- The bytes of a word, the first one first. -/
def wordBytes (w : UInt32) : List UInt8 :=
  [(w >>> 24).toUInt8, (w >>> 16).toUInt8, (w >>> 8).toUInt8, w.toUInt8]

/-- A number as eight bytes, the most significant one first. -/
def lengthBytes (n : Nat) : List UInt8 := (List.range 8).map fun i ↦ UInt8.ofNat (n / 256 ^ (7 - i))

/-- What is appended to a message of `len` bytes: a one, as few zeros as make whole blocks,
and a number of bits. -/
def padding (len bits : Nat) : List UInt8 :=
  0x80 :: (List.replicate ((119 - len % 64) % 64) 0 ++ lengthBytes bits)

def pad (m : List UInt8) : List UInt8 := m ++ padding m.length (8 * m.length)

/-- The hash value after `n` blocks. -/
def absorb (p : List UInt8) (n : Nat) (h : Vars) : Vars :=
  (List.range n).foldl (fun h i ↦ compress h fun t ↦ wordAt p (16 * i + t)) h

def output (v : Vars) : List UInt8 :=
  wordBytes v.a ++ wordBytes v.b ++ wordBytes v.c ++ wordBytes v.d ++ wordBytes v.e ++
    wordBytes v.f ++ wordBytes v.g ++ wordBytes v.h

/-- The digest of a message. -/
def digest (m : List UInt8) : List UInt8 :=
  output (absorb (pad m) ((pad m).length / 64) initial)

/-! ## Blocks -/

theorem length_padding (len bits : Nat) :
    (padding len bits).length = (119 - len % 64) % 64 + 9 := by
  simp only [padding, lengthBytes, List.length_cons, List.length_append, List.length_replicate,
    List.length_map, List.length_range]

theorem wordAt_append_right (blk bs : List UInt8) {n : Nat} (h : blk.length = 4 * n) (i : Nat) :
    wordAt (blk ++ bs) (n + i) = wordAt bs i := by
  have hget : ∀ j, (blk ++ bs).getD (4 * (n + i) + j) 0 = bs.getD (4 * i + j) 0 := fun j ↦ by
    rw [List.getD_append_right _ _ _ _ (by omega)]
    congr 1
    omega
  unfold wordAt
  rw [hget, hget, hget]
  have := hget 0
  rw [Nat.add_zero, Nat.add_zero] at this
  rw [this]

theorem wordAt_append_left {blk : List UInt8} (bs : List UInt8) {i : Nat}
    (h : 4 * i + 3 < blk.length) : wordAt (blk ++ bs) i = wordAt blk i := by
  unfold wordAt
  rw [List.getD_append _ _ _ _ (by omega), List.getD_append _ _ _ _ (by omega),
    List.getD_append _ _ _ _ (by omega), List.getD_append _ _ _ _ (by omega)]

/-- The first block, and the others. -/
theorem absorb_block (blk bs : List UInt8) (h : blk.length = 64) (n : Nat) (v : Vars) :
    absorb (blk ++ bs) (n + 1) v = absorb bs n (compress v (wordAt blk)) := by
  have hfirst : compress v (fun t ↦ wordAt (blk ++ bs) (16 * 0 + t)) = compress v (wordAt blk) :=
    compress_congr (fun t ht ↦ by
      rw [Nat.mul_zero, Nat.zero_add]
      exact wordAt_append_left bs (by omega)) v
  unfold absorb
  rw [List.range_succ_eq_map, List.foldl_cons, hfirst, List.foldl_map]
  refine congrArg (fun f ↦ List.foldl f _ _) (funext fun v ↦ funext fun i ↦ ?_)
  refine compress_congr (fun t _ ↦ ?_) v
  rw [show 16 * (i + 1) + t = 16 + (16 * i + t) by omega]
  exact wordAt_append_right blk bs (by omega) _

end DualBank.Lib.Sha2
