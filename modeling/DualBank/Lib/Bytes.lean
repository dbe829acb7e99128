import Mathlib.Logic.Basic
import DualBank.Lib.Memory

/-!
# Little-endian words

The byte order of a 16-bit and a 32-bit word, as a packed little-endian record
has it, with the round trips between a 32-bit word and its bytes.
-/

namespace DualBank.Lib

/-- The word with the given bytes, least significant first. -/
def le16 (b₀ b₁ : UInt8) : UInt16 := b₀.toUInt16 ||| (b₁.toUInt16 <<< 8)

/-- The word with the given bytes, least significant first. -/
def le32 (b₀ b₁ b₂ b₃ : UInt8) : UInt32 :=
  b₀.toUInt32 ||| (b₁.toUInt32 <<< 8) ||| (b₂.toUInt32 <<< 16) ||| (b₃.toUInt32 <<< 24)

/-- The two bytes of a word, least significant first. -/
def bytes16 (w : UInt16) : List UInt8 := [w.toUInt8, (w >>> 8).toUInt8]

/-- The four bytes of a word, least significant first. -/
def bytes32 (w : UInt32) : List UInt8 :=
  [w.toUInt8, (w >>> 8).toUInt8, (w >>> 16).toUInt8, (w >>> 24).toUInt8]

@[simp] theorem length_bytes16 (w : UInt16) : (bytes16 w).length = 2 := rfl

@[simp] theorem length_bytes32 (w : UInt32) : (bytes32 w).length = 4 := rfl

private theorem toBitVec_eight_mod : UInt32.toBitVec 8 % 32 = 8#32 := rfl
private theorem toBitVec_sixteen_mod : UInt32.toBitVec 16 % 32 = 16#32 := rfl
private theorem toBitVec_twentyFour_mod : UInt32.toBitVec 24 % 32 = 24#32 := rfl

/-- A word is the word of its own bytes. -/
@[simp] theorem le32_bytes (w : UInt32) :
    le32 w.toUInt8 (w >>> 8).toUInt8 (w >>> 16).toUInt8 (w >>> 24).toUInt8 = w := by
  apply UInt32.toBitVec_inj.mp
  refine BitVec.eq_of_getLsbD_eq fun i hi ↦ ?_
  simp only [le32, UInt32.toBitVec_or, UInt32.toBitVec_shiftLeft, UInt32.toBitVec_shiftRight,
    UInt8.toBitVec_toUInt32, UInt32.toBitVec_toUInt8, BitVec.getLsbD_or,
    toBitVec_eight_mod, toBitVec_sixteen_mod, toBitVec_twentyFour_mod]
  -- bit `i` comes from byte `i / 8`, where shifting out and back in cancels
  simp only [BitVec.shiftLeft_eq', BitVec.getLsbD_shiftLeft, BitVec.ushiftRight_eq',
    BitVec.getLsbD_setWidth, BitVec.getLsbD_ushiftRight, BitVec.toNat_ofNat]
  grind

/-- The bytes of the word with four given bytes are those bytes. -/
@[simp] theorem bytes32_le32 (b₀ b₁ b₂ b₃ : UInt8) :
    bytes32 (le32 b₀ b₁ b₂ b₃) = [b₀, b₁, b₂, b₃] := by
  have key : ∀ x y : UInt8, (∀ i < 8, x.toBitVec.getLsbD i = y.toBitVec.getLsbD i) → x = y :=
    fun x y h ↦ UInt8.toBitVec_inj.mp (BitVec.eq_of_getLsbD_eq h)
  simp only [bytes32, List.cons.injEq, and_true]
  refine ⟨key _ _ fun i hi ↦ ?_, key _ _ fun i hi ↦ ?_, key _ _ fun i hi ↦ ?_,
    key _ _ fun i hi ↦ ?_⟩ <;>
  · simp only [le32, UInt32.toBitVec_or, UInt32.toBitVec_shiftLeft, UInt32.toBitVec_shiftRight,
      UInt8.toBitVec_toUInt32, UInt32.toBitVec_toUInt8,
      toBitVec_eight_mod, toBitVec_sixteen_mod, toBitVec_twentyFour_mod]
    simp only [BitVec.shiftLeft_eq', BitVec.getLsbD_shiftLeft, BitVec.ushiftRight_eq',
      BitVec.getLsbD_setWidth, BitVec.getLsbD_ushiftRight, BitVec.toNat_ofNat, BitVec.getLsbD_or]
    grind

private theorem toBitVec16_eight_mod : UInt16.toBitVec 8 % 16 = 8#16 := rfl

/-- A word is the word of its own bytes. -/
@[simp] theorem le16_bytes (w : UInt16) : le16 w.toUInt8 (w >>> 8).toUInt8 = w := by
  apply UInt16.toBitVec_inj.mp
  refine BitVec.eq_of_getLsbD_eq fun i hi ↦ ?_
  simp only [le16, UInt16.toBitVec_or, UInt16.toBitVec_shiftLeft, UInt16.toBitVec_shiftRight,
    UInt8.toBitVec_toUInt16, UInt16.toBitVec_toUInt8, BitVec.getLsbD_or, toBitVec16_eight_mod]
  simp only [BitVec.shiftLeft_eq', BitVec.getLsbD_shiftLeft, BitVec.ushiftRight_eq',
    BitVec.getLsbD_setWidth, BitVec.getLsbD_ushiftRight, BitVec.toNat_ofNat]
  grind

/-- The bytes of the word with two given bytes are those bytes. -/
@[simp] theorem bytes16_le16 (b₀ b₁ : UInt8) : bytes16 (le16 b₀ b₁) = [b₀, b₁] := by
  have key : ∀ x y : UInt8, (∀ i < 8, x.toBitVec.getLsbD i = y.toBitVec.getLsbD i) → x = y :=
    fun x y h ↦ UInt8.toBitVec_inj.mp (BitVec.eq_of_getLsbD_eq h)
  simp only [bytes16, List.cons.injEq, and_true]
  refine ⟨key _ _ fun i hi ↦ ?_, key _ _ fun i hi ↦ ?_⟩ <;>
  · simp only [le16, UInt16.toBitVec_or, UInt16.toBitVec_shiftLeft, UInt16.toBitVec_shiftRight,
      UInt8.toBitVec_toUInt16, UInt16.toBitVec_toUInt8, toBitVec16_eight_mod]
    simp only [BitVec.shiftLeft_eq', BitVec.getLsbD_shiftLeft, BitVec.ushiftRight_eq',
      BitVec.getLsbD_setWidth, BitVec.getLsbD_ushiftRight, BitVec.toNat_ofNat, BitVec.getLsbD_or]
    grind

end DualBank.Lib
