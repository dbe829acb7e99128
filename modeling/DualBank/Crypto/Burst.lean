import DualBank.Crypto.Crc32
import DualBank.Lib.ShiftRegister

/-!
# Bursts

The loop of `crc32_update` is a shift register that takes in the bits of the message, the
least significant bit of a byte first.  So the CRC tells apart two messages whose differing
bits all lie within 32 consecutive places.
-/

namespace DualBank

open Lib.ShiftRegister

/-! ## The register -/

/-- The polynomial, as the taps of the register. -/
def crcTaps : BitVec 32 := 0xEDB88320

theorem msb_crcTaps : crcTaps.msb = true := by decide

theorem toBitVec_crc32Bit (crc : UInt32) : (crc32Bit crc).toBitVec = turn crcTaps crc.toBitVec := by
  have hmask : (0 - (crc &&& 1)).toBitVec =
      if crc.toBitVec.getLsbD 0 then BitVec.allOnes 32 else 0 := by
    have hlow : (crc &&& 1).toBitVec = (BitVec.ofBool (crc.toBitVec.getLsbD 0)).setWidth 32 :=
      BitVec.and_one_eq_setWidth_ofBool_getLsbD
    rw [UInt32.toBitVec_sub, hlow]
    cases crc.toBitVec.getLsbD 0 <;> rfl
  have hshift : (crc >>> 1).toBitVec = crc.toBitVec >>> 1 := rfl
  unfold crc32Bit turn
  dsimp only
  rw [UInt32.toBitVec_xor, UInt32.toBitVec_and, hmask, hshift]
  split_ifs
  · rw [BitVec.and_allOnes]
    rfl
  · rw [BitVec.ofNat_eq_ofNat, BitVec.and_zero]

/-- The bits of a byte, the least significant one first. -/
def byteBits (b : UInt8) : List Bool := (List.range 8).map b.toBitVec.getLsbD

@[simp] theorem length_byteBits (b : UInt8) : (byteBits b).length = 8 := rfl

theorem getD_byteBits (b : UInt8) (i : Nat) : (byteBits b).getD i false = b.toBitVec.getLsbD i := by
  rcases Nat.lt_or_ge i 8 with hi | hi
  · rw [List.getD_eq_getElem _ _ (by rwa [length_byteBits])]
    simp only [byteBits, List.getElem_map, List.getElem_range]
  · rw [List.getD_eq_default _ _ (by rwa [length_byteBits]), BitVec.getLsbD_of_ge _ _ hi]

theorem word_byteBits (b : UInt8) : word (byteBits b) = b.toUInt32.toBitVec := by
  refine BitVec.eq_of_getLsbD_eq fun i _ ↦ ?_
  rw [getLsbD_word, getD_byteBits, UInt8.toBitVec_toUInt32, BitVec.getLsbD_setWidth]

theorem repeat_crc32Bit (n : Nat) (crc : UInt32) :
    (Nat.repeat crc32Bit n crc).toBitVec = (turn crcTaps)^[n] crc.toBitVec := by
  induction n with
  | zero => rfl
  | succ n ih =>
      rw [Nat.repeat, toBitVec_crc32Bit, ih, Function.iterate_succ_apply']

/-- One turn of the outer loop feeds the eight bits of a byte. -/
theorem toBitVec_crc32Byte (crc : UInt32) (b : UInt8) :
    (crc32Byte crc b).toBitVec = feed crcTaps crc.toBitVec (byteBits b) := by
  rw [feed_eq_iterate crcTaps (by rw [length_byteBits]; decide), word_byteBits, length_byteBits,
    crc32Byte, repeat_crc32Bit, UInt32.toBitVec_xor]

/-! ## Messages -/

/-- The bit of a message at a position. -/
def messageBit (m : List UInt8) (p : Nat) : Bool := (m.getD (p / 8) 0).toBitVec.getLsbD (p % 8)

/-- The bits of a message in the order of their positions. -/
def messageBits (m : List UInt8) : List Bool := m.flatMap byteBits

theorem length_messageBits (m : List UInt8) : (messageBits m).length = 8 * m.length := by
  induction m with
  | nil => rfl
  | cons b m ih =>
      rw [messageBits, List.flatMap_cons, List.length_append, length_byteBits, ← messageBits, ih,
        List.length_cons, Nat.mul_succ, Nat.add_comm]

theorem getD_messageBits (m : List UInt8) (p : Nat) :
    (messageBits m).getD p false = messageBit m p := by
  induction m generalizing p with
  | nil => simp [messageBits, messageBit]
  | cons b m ih =>
      rw [messageBits, List.flatMap_cons, ← messageBits]
      rcases Nat.lt_or_ge p 8 with hp | hp
      · rw [List.getD_append _ _ _ _ (by rwa [length_byteBits]), getD_byteBits, messageBit,
          Nat.div_eq_of_lt hp, Nat.mod_eq_of_lt hp]
        rfl
      · obtain ⟨p, rfl⟩ := Nat.exists_eq_add_of_le hp
        rw [List.getD_append_right _ _ _ _ (by rwa [length_byteBits]), length_byteBits,
          Nat.add_sub_cancel_left, ih, messageBit, messageBit, Nat.add_mod_left,
          Nat.add_div_left p (by decide : 0 < 8)]
        rfl

/-- The bits of a message determine it. -/
theorem messageBits_injective : Function.Injective messageBits := by
  intro m m' h
  have hlen : m.length = m'.length := by
    have := congrArg List.length h
    rw [length_messageBits, length_messageBits] at this
    omega
  refine List.ext_getElem hlen fun i h₁ h₂ ↦ UInt8.toBitVec_inj.1 ?_
  refine BitVec.eq_of_getLsbD_eq fun j hj ↦ ?_
  have hbit : messageBit m (8 * i + j) = messageBit m' (8 * i + j) := by
    rw [← getD_messageBits, h, getD_messageBits]
  have hdiv : (8 * i + j) / 8 = i := by omega
  have hmod : (8 * i + j) % 8 = j := by omega
  unfold messageBit at hbit
  rw [hdiv, hmod, List.getD_eq_getElem _ _ h₁, List.getD_eq_getElem _ _ h₂] at hbit
  exact hbit

/-- The loop feeds the bits of the message. -/
theorem toBitVec_crc32Update (crc : UInt32) (m : List UInt8) :
    (crc32Update crc m).toBitVec = feed crcTaps crc.toBitVec (messageBits m) := by
  induction m generalizing crc with
  | nil => rfl
  | cons b m ih =>
      rw [crc32Update, ih, toBitVec_crc32Byte, ← feed_append]
      rfl

/-- `m'` is `m` after a burst: the two are of one length and differ, and all the bits in
which they do lie within 32 consecutive positions. -/
structure Burst (m m' : List UInt8) : Prop where
  length_eq : m.length = m'.length
  ne : m ≠ m'
  within : ∃ k, ∀ p, messageBit m p ≠ messageBit m' p → k ≤ p ∧ p < k + 32

/-- Any change of at most four bytes in a row is a burst. -/
theorem burst_of_bytes {before win win' behind : List UInt8} (hlen : win.length = win'.length)
    (hfour : win.length ≤ 4) (hne : win ≠ win') :
    Burst (before ++ win ++ behind) (before ++ win' ++ behind) where
  length_eq := by
    simp only [List.length_append, hlen]
  ne := fun h ↦ hne (List.append_cancel_left (List.append_cancel_right h))
  within := by
    refine ⟨8 * before.length, fun p hp ↦ ?_⟩
    by_contra hout
    refine hp ?_
    unfold messageBit
    congr 2
    rcases Nat.lt_or_ge (p / 8) before.length with hlt | hge
    · rw [List.append_assoc, List.append_assoc, List.getD_append _ _ _ _ hlt,
        List.getD_append _ _ _ _ hlt]
    · have hfar : before.length + win.length ≤ p / 8 := by omega
      rw [List.getD_append_right _ _ _ _ (by rwa [List.length_append]),
        List.getD_append_right _ _ _ _ (by rwa [List.length_append, ← hlen]),
        List.length_append, List.length_append, hlen]

/-- The CRC of a message changes with every burst. -/
theorem Burst.crc32_ne {m m' : List UInt8} (h : Burst m m') : crc32 m ≠ crc32 m' := by
  obtain ⟨k, hk⟩ := h.within
  intro heq
  have hreg : crc32Update crc32Init m = crc32Update crc32Init m' := by
    unfold crc32 crc32Finalize at heq
    exact UInt32.xor_left_inj _ |>.1 heq
  have hlen : (messageBits m).length = (messageBits m').length := by
    rw [length_messageBits, length_messageBits, h.length_eq]
  have hne : messageBits m ≠ messageBits m' := fun e ↦ h.ne (messageBits_injective e)
  refine feed_ne_of_window msb_crcTaps hlen hne (fun p hp ↦ hk p ?_) crc32Init.toBitVec ?_
  · rwa [getD_messageBits, getD_messageBits] at hp
  · rw [← toBitVec_crc32Update, ← toBitVec_crc32Update, hreg]

end DualBank
