import DualBank.Crypto.Verify
import DualBank.Lib.BigEndian

/-!
# Low signatures

`is_canonical_low_s` subtracts `s` from half the group order byte by byte and looks at the
borrow; as numbers, it compares the two.
-/

namespace DualBank

open Lib

/-- The group order of SECP256R1. -/
def curveOrder : Nat := 0xFFFFFFFF00000000FFFFFFFFFFFFFFFFBCE6FAADA7179E84F3B9CAC2FC632551

theorem beNat_halfOrder : beNat kSecp256r1HalfOrder = curveOrder / 2 := by decide +kernel

/-- The order is odd, so a number and its negative are never both at most half of it. -/
theorem curveOrder_odd : curveOrder = 2 * (curveOrder / 2) + 1 := by decide

theorem curveOrder_lt : curveOrder < 256 ^ 32 := by decide

/-- The check on the two halves of a signature as numbers. -/
theorem isCanonicalLowS_halves {sig : List UInt8} (h : sig.length = firmwareSignatureSize) :
    isCanonicalLowS sig = true ↔ beNat (sig.take 32) ≠ 0 ∧
      beNat ((sig.drop 32).take 32) ≠ 0 ∧ beNat ((sig.drop 32).take 32) ≤ curveOrder / 2 := by
  have hlen : ((sig.drop 32).take 32).length = 32 := by
    rw [List.length_take, List.length_drop, h]
    rfl
  have hor : ∀ bs : List UInt8, bs.foldl (· ||| ·) 0 = 0 ↔ beNat bs = 0 := fun bs ↦ by
    rw [foldl_or_eq_zero_iff, beNat_eq_zero_iff]
    exact and_iff_right rfl
  have hborrow : halfOrderBorrow ((sig.drop 32).take 32) = 0 ↔
      beNat ((sig.drop 32).take 32) ≤ curveOrder / 2 := by
    rw [← beNat_halfOrder, ← Nat.not_lt]
    refine Iff.trans (Eq.congr_left (borrow_eq hlen.symm)) ?_
    split_ifs with hlt
    · exact ⟨fun h ↦ (by cases h), fun h ↦ absurd hlt h⟩
    · exact ⟨fun _ ↦ hlt, fun _ ↦ rfl⟩
  unfold isCanonicalLowS
  simp only [hor]
  split_ifs with hz
  · refine ⟨fun h ↦ (by cases h), fun h ↦ ?_⟩
    exact hz.elim (fun hr ↦ absurd hr h.1) fun hs ↦ absurd hs h.2.1
  · rw [beq_iff_eq, hborrow]
    exact ⟨fun h ↦ ⟨fun hr ↦ hz (.inl hr), fun hs ↦ hz (.inr hs), h⟩, fun h ↦ h.2.2⟩

end DualBank
