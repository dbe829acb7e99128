import Mathlib.Data.List.Basic
import DualBank.Crypto.Sha256
import DualBank.Lib.BigEndian
import DualBank.Lib.Sha2

/-!
# The digest of the streaming implementation

`sha256.c` computes the digest of FIPS 180-4: its buffer holds what the full blocks of
the message so far have left, and its state is the hash value after them.
-/

namespace DualBank

open Lib

/-! ## Tables -/

theorem sha256K_eq : sha256K = (List.range 64).map Sha2.k := by decide +kernel

/-- The state as a hash value. -/
def Sha256State.vars (s : Sha256State) : Sha2.Vars := ⟨s.a, s.b, s.c, s.d, s.e, s.f, s.g, s.h⟩

theorem vars_sha256Init : sha256Init.state.vars = Sha2.initial := by decide +kernel

/-! ## Blocks -/

/-- The loaded words are the words of the block. -/
theorem sha256Load_eq (n : Nat) {bs : List UInt8} (h : bs.length = 4 * n) :
    sha256Load bs = (List.range n).map (Sha2.wordAt bs) := by
  induction n generalizing bs with
  | zero => rw [List.length_eq_zero_iff.1 h]; rfl
  | succ n ih =>
      match bs with
      | b₀ :: b₁ :: b₂ :: b₃ :: bs =>
          simp only [List.length_cons] at h
          have hrest : ∀ i, Sha2.wordAt (b₀ :: b₁ :: b₂ :: b₃ :: bs) (i + 1) = Sha2.wordAt bs i :=
            fun i ↦ by
              rw [Nat.add_comm]
              exact Sha2.wordAt_append_right [b₀, b₁, b₂, b₃] bs (n := 1) rfl i
          rw [sha256Load, ih (by omega), List.range_succ_eq_map, List.map_cons, List.map_map]
          refine congrArg₂ List.cons rfl (List.map_congr_left fun i _ ↦ ?_)
          exact (hrest i).symm

/-- Extending the schedule. -/
theorem sha256Extend_eq (m : Nat → UInt32) (n i : Nat) (hi : 16 ≤ i) :
    sha256Extend n ((List.range i).map (Sha2.schedule m)) =
      (List.range (i + n)).map (Sha2.schedule m) := by
  induction n generalizing i with
  | zero => rfl
  | succ n ih =>
      have hget : ∀ j < i, ((List.range i).map (Sha2.schedule m)).getD j 0 = Sha2.schedule m j :=
        fun j hj ↦ by
          rw [List.getD_eq_getElem _ _ (by rw [List.length_map, List.length_range]; exact hj),
            List.getElem_map, List.getElem_range]
      have hnext : (List.range i).map (Sha2.schedule m) ++ [Sha2.schedule m i] =
          (List.range (i + 1)).map (Sha2.schedule m) := by
        rw [List.range_succ, List.map_append, List.map_singleton]
      unfold sha256Extend
      dsimp only
      rw [List.length_map, List.length_range, hget _ (by omega), hget _ (by omega),
        hget _ (by omega), hget _ (by omega)]
      have hword : sig1 (Sha2.schedule m (i - 2)) + Sha2.schedule m (i - 7) +
          sig0 (Sha2.schedule m (i - 15)) + Sha2.schedule m (i - 16) = Sha2.schedule m i :=
        (Sha2.schedule_of_ge m (by omega)).symm
      rw [hword, hnext, ih (i + 1) (by omega), Nat.add_assoc, Nat.add_comm 1 n]

/-- The transform is the compression of a block. -/
theorem sha256Transform_eq (s : Sha256State) {blk : List UInt8} (h : blk.length = 64) :
    (sha256Transform s blk).vars = Sha2.compress s.vars (Sha2.wordAt blk) := by
  have hload : sha256Load blk = (List.range 16).map (Sha2.schedule (Sha2.wordAt blk)) := by
    rw [sha256Load_eq 16 h]
    exact List.map_congr_left fun t ht ↦
      (Sha2.schedule_of_lt _ (List.mem_range.1 ht)).symm
  have hrounds : ∀ (ts : List Nat) (r : Sha256State),
      ((ts.map fun t ↦ (Sha2.k t, Sha2.schedule (Sha2.wordAt blk) t)).foldl
          (fun r km ↦ sha256Round r km.1 km.2) r).vars =
        ts.foldl (Sha2.round (Sha2.schedule (Sha2.wordAt blk))) r.vars := by
    intro ts
    induction ts with
    | nil => exact fun _ ↦ rfl
    | cons t ts ih => exact fun r ↦ ih (sha256Round r _ _)
  unfold sha256Transform Sha2.compress
  dsimp only
  rw [hload, sha256Extend_eq _ 48 16 (Nat.le_refl 16), sha256K_eq, List.zip_map']
  have := hrounds (List.range 64) s
  rw [← this]
  generalize ((List.range 64).map fun t ↦ (Sha2.k t, Sha2.schedule (Sha2.wordAt blk) t)).foldl
    (fun r km ↦ sha256Round r km.1 km.2) s = r
  simp only [Sha256State.vars, UInt32.add_comm]

/-! ## The stream -/

/-- Bytes that do not fill the buffer. -/
theorem sha256Update_short (bs : List UInt8) (ctx : Sha256Ctx)
    (h : ctx.data.length + bs.length < 64) :
    sha256Update ctx bs = { ctx with data := ctx.data ++ bs } := by
  induction bs generalizing ctx with
  | nil => rw [sha256Update, List.append_nil]
  | cons b bs ih =>
      rw [List.length_cons] at h
      have hpush : sha256Push ctx b = { ctx with data := ctx.data ++ [b] } := by
        unfold sha256Push
        dsimp only
        rw [if_neg (by rw [List.length_append, List.length_singleton]; omega)]
      rw [sha256Update, hpush, ih _ (by
        dsimp only
        rw [List.length_append, List.length_singleton]
        omega)]
      dsimp only
      rw [List.append_assoc, List.singleton_append]

/-- Bytes that fill the buffer. -/
theorem sha256Update_block {blk : List UInt8} (h : blk.length = 64) (bitlen : UInt64)
    (s : Sha256State) :
    sha256Update ⟨[], bitlen, s⟩ blk = ⟨[], bitlen + 512, sha256Transform s blk⟩ := by
  obtain ⟨bs, b, rfl⟩ := (List.eq_nil_or_concat' blk).resolve_left fun hnil ↦ by
    rw [hnil] at h; cases h
  rw [List.length_append, List.length_singleton] at h
  rw [sha256Update_append, sha256Update_short bs _ (by rw [List.length_nil]; omega)]
  dsimp only
  rw [List.nil_append]
  unfold sha256Update sha256Update sha256Push
  dsimp only
  rw [if_pos (by rw [List.length_append, List.length_singleton, h])]

/-- The length bytes, of a length modulo 2 ^ 64. -/
theorem be64_ofNat (n : Nat) : be64 (UInt64.ofNat n) = Sha2.lengthBytes n := by
  have hbyte : ∀ k ≤ 56, UInt8.ofNat (n % 2 ^ 64 / 2 ^ k) = UInt8.ofNat (n / 2 ^ k) := fun k hk ↦ by
    apply UInt8.toNat_inj.mp
    have hsplit : 2 ^ 64 = 2 ^ k * 2 ^ (64 - k) := by
      rw [← Nat.pow_add, Nat.add_sub_cancel' (by omega)]
    rw [UInt8.toNat_ofNat', UInt8.toNat_ofNat', hsplit, Nat.mod_mul_right_div_self,
      Nat.mod_mod_of_dvd _ (Nat.pow_dvd_pow 2 (by omega))]
  have hshift : ∀ k : UInt64, (UInt64.ofNat n >>> k).toUInt8 =
      UInt8.ofNat (n % 2 ^ 64 / 2 ^ (k.toNat % 64)) := fun k ↦ by
    apply UInt8.toNat_inj.mp
    rw [UInt64.toNat_toUInt8, UInt64.toNat_shiftRight, UInt64.toNat_ofNat', UInt8.toNat_ofNat',
      Nat.shiftRight_eq_div_pow]
  have hlow : (UInt64.ofNat n).toUInt8 = UInt8.ofNat (n % 2 ^ 64 / 2 ^ 0) := by
    apply UInt8.toNat_inj.mp
    rw [UInt64.toNat_toUInt8, UInt64.toNat_ofNat', UInt8.toNat_ofNat', Nat.pow_zero, Nat.div_one]
  have hlist : Sha2.lengthBytes n =
      [UInt8.ofNat (n / 2 ^ 56), UInt8.ofNat (n / 2 ^ 48), UInt8.ofNat (n / 2 ^ 40),
        UInt8.ofNat (n / 2 ^ 32), UInt8.ofNat (n / 2 ^ 24), UInt8.ofNat (n / 2 ^ 16),
        UInt8.ofNat (n / 2 ^ 8), UInt8.ofNat (n / 2 ^ 0)] := rfl
  rw [hlist, be64, hshift, hshift, hshift, hshift, hshift, hshift, hshift, hlow,
    ← hbyte 56 (by decide), ← hbyte 48 (by decide), ← hbyte 40 (by decide), ← hbyte 32 (by decide),
    ← hbyte 24 (by decide), ← hbyte 16 (by decide), ← hbyte 8 (by decide), ← hbyte 0 (by decide)]
  rfl

theorem be32_eq (w : UInt32) : be32 w = Sha2.wordBytes w := by
  have hand : ∀ x : UInt32, (x &&& 0xFF).toUInt8 = x.toUInt8 := fun x ↦ by
    apply UInt8.toNat_inj.mp
    rw [UInt32.toNat_toUInt8, UInt32.toNat_toUInt8, UInt32.toNat_and]
    exact (congrArg (· % 2 ^ 8) (Nat.and_two_pow_sub_one_eq_mod x.toNat 8)).trans (Nat.mod_mod _ _)
  unfold be32 Sha2.wordBytes
  rw [hand, hand, hand, hand]

/-- The state after the last bytes of a message and its padding. -/
def sha256Last (ctx : Sha256Ctx) : Sha256State :=
  let bitlen := ctx.bitlen + ctx.data.length.toUInt64 * 8
  if ctx.data.length < 56 then
    sha256Transform ctx.state
      (ctx.data ++ [0x80] ++ List.replicate (55 - ctx.data.length) 0 ++ be64 bitlen)
  else
    sha256Transform
      (sha256Transform ctx.state
        (ctx.data ++ [0x80] ++ List.replicate (63 - ctx.data.length) 0))
      (List.replicate 56 0 ++ be64 bitlen)

theorem sha256Final_eq (ctx : Sha256Ctx) :
    sha256Final ctx = Sha2.output (sha256Last ctx).vars := by
  unfold sha256Final
  simp only [be32_eq]
  rfl

/-- Less than a block is padded to one block or two. -/
theorem sha256Last_short (s : Sha256State) {bs : List UInt8} (h : bs.length < 64) {bitlen : UInt64}
    {bits : Nat} (hbits : bitlen + bs.length.toUInt64 * 8 = UInt64.ofNat bits) :
    (sha256Last ⟨bs, bitlen, s⟩).vars = Sha2.absorb (bs ++ Sha2.padding bs.length bits)
      ((bs ++ Sha2.padding bs.length bits).length / 64) s.vars := by
  have hone : ∀ {blk : List UInt8} (v : Sha2.Vars), blk.length = 64 →
      Sha2.absorb blk 1 v = Sha2.compress v (Sha2.wordAt blk) := fun {blk} v hb ↦ by
    have := Sha2.absorb_block blk [] hb 0 v
    rwa [List.append_nil] at this
  unfold sha256Last
  dsimp only
  rw [hbits, be64_ofNat]
  split_ifs with hlt
  · have hz : (119 - bs.length % 64) % 64 = 55 - bs.length := by omega
    have hpad : bs ++ Sha2.padding bs.length bits =
        bs ++ [0x80] ++ List.replicate (55 - bs.length) 0 ++ Sha2.lengthBytes bits := by
      unfold Sha2.padding
      rw [hz]
      simp only [List.append_assoc, List.nil_append, List.cons_append]
    have hlen : (bs ++ Sha2.padding bs.length bits).length = 64 := by
      rw [List.length_append, Sha2.length_padding, hz]
      omega
    rw [hlen, Nat.div_self (by decide), hone _ hlen, hpad,
      sha256Transform_eq s (by rw [← hpad]; exact hlen)]
  · have hz : (119 - bs.length % 64) % 64 = (63 - bs.length) + 56 := by omega
    have hpad : bs ++ Sha2.padding bs.length bits =
        (bs ++ [0x80] ++ List.replicate (63 - bs.length) 0) ++
          (List.replicate 56 0 ++ Sha2.lengthBytes bits) := by
      unfold Sha2.padding
      rw [hz, List.replicate_add]
      simp only [List.append_assoc, List.nil_append, List.cons_append]
    have hfirst : (bs ++ [0x80] ++ List.replicate (63 - bs.length) 0).length = 64 := by
      simp only [List.length_append, List.length_singleton, List.length_replicate]
      omega
    have hsecond : (List.replicate 56 0 ++ Sha2.lengthBytes bits).length = 64 := by
      rw [List.length_append, List.length_replicate]
      rfl
    rw [hpad, List.length_append, hfirst, hsecond, Sha2.absorb_block _ _ hfirst 1, hone _ hsecond,
      sha256Transform_eq _ hsecond, sha256Transform_eq _ hfirst]

/-- The stream from a block boundary on. -/
theorem sha256Last_update (n : Nat) (s : Sha256State) {bs : List UInt8} (hn : bs.length / 64 = n)
    {bitlen : UInt64} {bits : Nat}
    (hbits : bitlen + bs.length.toUInt64 * 8 = UInt64.ofNat bits) :
    (sha256Last (sha256Update ⟨[], bitlen, s⟩ bs)).vars =
      Sha2.absorb (bs ++ Sha2.padding bs.length bits)
        ((bs ++ Sha2.padding bs.length bits).length / 64) s.vars := by
  induction n generalizing s bs bitlen with
  | zero =>
      have h : bs.length < 64 := by omega
      rw [sha256Update_short bs _ (by rw [List.length_nil]; omega)]
      exact sha256Last_short s h hbits
  | succ n ih =>
      -- the first block goes through the transform
      obtain ⟨blk, rest, rfl, hblk⟩ : ∃ blk rest, bs = blk ++ rest ∧ blk.length = 64 :=
        ⟨bs.take 64, bs.drop 64, (List.take_append_drop 64 bs).symm,
          by rw [List.length_take]; omega⟩
      rw [List.length_append, hblk] at hn hbits
      have hpad : Sha2.padding (blk ++ rest).length bits = Sha2.padding rest.length bits := by
        unfold Sha2.padding
        rw [List.length_append, hblk, Nat.add_mod_left]
      have hcount : (blk ++ (rest ++ Sha2.padding rest.length bits)).length / 64 =
          (rest ++ Sha2.padding rest.length bits).length / 64 + 1 := by
        rw [List.length_append, hblk]
        omega
      have hbits' : bitlen + 512 + rest.length.toUInt64 * 8 = UInt64.ofNat bits := by
        have hadd : (64 + rest.length).toUInt64 = 64 + rest.length.toUInt64 :=
          UInt64.ofNat_add 64 rest.length
        rw [← hbits, hadd, UInt64.add_mul, ← UInt64.add_assoc]
        rfl
      rw [sha256Update_append, sha256Update_block hblk,
        ih (sha256Transform s blk) (by omega) hbits',
        hpad, List.append_assoc, hcount, Sha2.absorb_block _ _ hblk, sha256Transform_eq s hblk]

/-- **SHA-256.**  The one-shot hash is the digest of the standard. -/
theorem sha256_eq_digest (m : List UInt8) : sha256 m = Sha2.digest m := by
  have hbits : (0 : UInt64) + m.length.toUInt64 * 8 = UInt64.ofNat (8 * m.length) := by
    rw [UInt64.zero_add, UInt64.mul_comm, UInt64.ofNat_mul]
    rfl
  have h := sha256Last_update (m.length / 64) sha256Init.state rfl hbits
  unfold sha256 Sha2.digest Sha2.pad
  rw [sha256Final_eq, ← vars_sha256Init, ← h]
  rfl

/-- Feeding pieces one after another is feeding their concatenation. -/
theorem sha256Update_flatten (pieces : List (List UInt8)) (ctx : Sha256Ctx) :
    pieces.foldl sha256Update ctx = sha256Update ctx pieces.flatten := by
  induction pieces generalizing ctx with
  | nil => rfl
  | cons p pieces ih => rw [List.foldl_cons, ih, List.flatten_cons, sha256Update_append]

/-- The length field of the padding is the exact number of bits, up to 2 ^ 61 bytes. -/
theorem beNat_lengthBytes {len : Nat} (h : len < 2 ^ 61) :
    beNat (Sha2.lengthBytes (8 * len)) = 8 * len := by
  have hbytes : Sha2.lengthBytes (8 * len) = beBytes 8 (8 * len) := rfl
  rw [hbytes, beNat_beBytes_of_lt (by omega)]

/-- However a message is split, the streamed digest is the digest of the standard. -/
theorem sha256_pieces (pieces : List (List UInt8)) :
    sha256Final (pieces.foldl sha256Update sha256Init) = Sha2.digest pieces.flatten := by
  rw [sha256Update_flatten]
  exact sha256_eq_digest pieces.flatten

end DualBank
