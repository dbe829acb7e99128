import Mathlib.Algebra.Field.ZMod
import DualBank.Ecc.Vli
import DualBank.Lib.BinaryInverse

/-!
# Inverses

`uECC_vli_modInv` is the binary loop of `Lib.BinaryInverse` on words: each of its turns is a
turn on the values, although `u + mod` may leave the array on the way.
-/

namespace DualBank.UECC

open Lib

variable {n : Nat}

/-- The array with `1` in its first word. -/
def vliOne (n : Nat) : Vli n :=
  ⟨(List.replicate n 0).set 0 1, List.length_set.trans List.length_replicate⟩

/-- `EVEN`. -/
def vliEven (vli : Vli n) : Bool := vli.words.getD 0 0 &&& 1 == 0

/-- `vli_modInv_update`. -/
def vliModInvUpdate (uv mod : Vli n) : Vli n :=
  let sum := if vliEven uv then (uv, 0) else vliAdd uv mod
  let half := vliRshift1 sum.1
  if sum.2 ≠ 0 then vliOrTop half 1 else half

/-- The four arrays of `uECC_vli_modInv`. -/
structure InvState (n : Nat) where
  a : Vli n
  b : Vli n
  u : Vli n
  v : Vli n

/-- One turn of the loop of `uECC_vli_modInv`. -/
def modInvStep (mod : Vli n) (s : InvState n) : InvState n :=
  if vliEven s.a then
    { s with a := vliRshift1 s.a, u := vliModInvUpdate s.u mod }
  else if vliEven s.b then
    { s with b := vliRshift1 s.b, v := vliModInvUpdate s.v mod }
  else if vliCmpUnsafe s.a s.b > 0 then
    let u := if vliCmpUnsafe s.u s.v < 0 then (vliAdd s.u mod).1 else s.u
    { s with
      a := vliRshift1 (vliSub s.a s.b).1
      u := vliModInvUpdate (vliSub u s.v).1 mod }
  else
    let v := if vliCmpUnsafe s.v s.u < 0 then (vliAdd s.v mod).1 else s.v
    { s with
      b := vliRshift1 (vliSub s.b s.a).1
      v := vliModInvUpdate (vliSub v s.u).1 mod }

/-- The loop of `uECC_vli_modInv`, with a bound on its turns. -/
def modInvLoop (mod : Vli n) : Nat → InvState n → InvState n
  | 0, s => s
  | turns + 1, s =>
      if vliCmpUnsafe s.a s.b = 0 then s else modInvLoop mod turns (modInvStep mod s)

/-- `uECC_vli_modInv`.  Each turn takes a bit off `a` or `b`, so there are at most `64 * n`. -/
def vliModInv (input mod : Vli n) : Vli n :=
  if vliIsZero input then vliClear n
  else (modInvLoop mod (64 * n) ⟨input, mod, vliOne n, vliClear n⟩).u

/-! ## Turns on words and turns on values -/

theorem toNat_vliOne (hn : 0 < n) : (vliOne n).toNat = 1 := by
  have h := wordsToNat_set (List.replicate n 0) (k := 0) (by simpa using hn) 1
  rw [wordsToNat_replicate_zero] at h
  have hzero : ((List.replicate n (0 : UInt32)).getD 0 0).toNat = 0 := by
    rw [getD_toNat, wordsToNat_replicate_zero]
    simp
  rw [hzero] at h
  exact h.trans (by simp)

theorem vliEven_iff {a : Vli n} : vliEven a = true ↔ a.toNat % 2 = 0 := by
  have hword : (a.words.getD 0 0).toNat % 2 = a.toNat % 2 := by
    rw [getD_toNat, Nat.mul_zero, pow_zero, Nat.div_one, Nat.mod_mod_of_dvd _ (by norm_num)]
    rfl
  rw [vliEven, beq_iff_eq, ← UInt32.toNat_inj, UInt32.toNat_and, UInt32.toNat_one,
    Nat.and_one_is_mod, hword, UInt32.toNat_zero]

theorem toNat_vliModInvUpdate {u m : Vli n} (hn : 0 < n) :
    (vliModInvUpdate u m).toNat = halveMod m.toNat u.toNat := by
  unfold vliModInvUpdate halveMod
  simp only [vliEven_iff]
  split_ifs with heven hcarry hcarry
  · exact absurd rfl hcarry
  · exact toNat_vliRshift1 u
  · obtain ⟨hval, hle⟩ := vliAdd_spec u m
    have hone : (vliAdd u m).2.toNat = 1 := by
      have hne : (vliAdd u m).2.toNat ≠ 0 := fun h ↦ hcarry (UInt32.toNat_inj.1 h)
      omega
    rw [toNat_orTop_rshift1 hn (by decide), ← hval, hone, UInt32.toNat_one]
  · have hzero : (vliAdd u m).2 = 0 := not_not.1 hcarry
    rw [toNat_vliRshift1, toNat_vliAdd_of_lt (carry_eq_zero_iff.1 hzero)]

/-- The difference of two residues, where the sum with the modulus may leave the array. -/
theorem toNat_vliDiffMod {u v m : Vli n} (hv : v.toNat < m.toNat) :
    (vliSub (if vliCmpUnsafe u v < 0 then (vliAdd u m).1 else u) v).1.toNat =
      diffMod m.toNat u.toNat v.toNat := by
  have hm := m.toNat_lt
  unfold diffMod
  simp only [vliCmpUnsafe_neg]
  split_ifs with hlt
  · rw [toNat_vliSub, toNat_vliAdd, Nat.mod_add_mod,
      show u.toNat + m.toNat + (2 ^ (32 * n) - v.toNat) =
        u.toNat + m.toNat - v.toNat + 2 ^ (32 * n) by omega, Nat.add_mod_right, Nat.mod_eq_of_lt]
    omega
  · exact toNat_vliSub_of_le (Nat.le_of_not_lt hlt)

/-- The values of the four arrays. -/
def InvState.values (s : InvState n) : GcdState := ⟨s.a.toNat, s.b.toNat, s.u.toNat, s.v.toNat⟩

theorem values_modInvStep {m : Vli n} (hn : 0 < n) {x : Nat} {s : InvState n}
    (h : s.values.Inv m.toNat x) : (modInvStep m s).values = s.values.step m.toNat := by
  have hu : s.u.toNat < m.toNat := h.u_lt
  have hv : s.v.toNat < m.toNat := h.v_lt
  unfold modInvStep GcdState.step
  by_cases ha : s.values.a % 2 = 0
  · rw [if_pos (vliEven_iff.2 ha), if_pos ha]
    simp only [InvState.values, toNat_vliRshift1, toNat_vliModInvUpdate hn]
  rw [if_neg (mt vliEven_iff.1 ha), if_neg ha]
  by_cases hb : s.values.b % 2 = 0
  · rw [if_pos (vliEven_iff.2 hb), if_pos hb]
    simp only [InvState.values, toNat_vliRshift1, toNat_vliModInvUpdate hn]
  rw [if_neg (mt vliEven_iff.1 hb), if_neg hb]
  by_cases hlt : s.values.b < s.values.a
  · rw [if_pos (vliCmpUnsafe_pos.2 hlt), if_pos hlt]
    simp only [InvState.values, toNat_vliRshift1, toNat_vliModInvUpdate hn, toNat_vliDiffMod hv,
      toNat_vliSub_of_le (Nat.le_of_lt hlt)]
  · rw [if_neg (mt vliCmpUnsafe_pos.1 hlt), if_neg hlt]
    simp only [InvState.values, toNat_vliRshift1, toNat_vliModInvUpdate hn, toNat_vliDiffMod hu,
      toNat_vliSub_of_le (Nat.le_of_not_lt hlt)]

theorem values_modInvLoop {m : Vli n} (hn : 0 < n) (hm : m.toNat % 2 = 1) {x : Nat} (turns : Nat)
    {s : InvState n} (h : s.values.Inv m.toNat x) :
    (modInvLoop m turns s).values = s.values.run m.toNat turns := by
  induction turns generalizing s with
  | zero => rfl
  | succ turns ih =>
      have heq : vliCmpUnsafe s.a s.b = 0 ↔ s.values.a = s.values.b := by
        rw [vliCmpUnsafe_eq_zero, ← Vli.toNat_inj]
        rfl
      rw [modInvLoop, GcdState.run]
      simp only [heq]
      split_ifs with hab
      · rfl
      · have hstep := values_modInvStep hn h
        rw [ih (hstep ▸ h.step hm hab), hstep]

/-- `uECC_vli_modInv` gives the inverse modulo every odd number, and zero for zero; the loop
ends within its turns. -/
theorem vliModInv_spec {x m : Vli n} (hodd : m.toNat % 2 = 1) (hm : 1 < m.toNat) :
    (vliModInv x m).toNat < m.toNat ∧
      ((vliModInv x m).toNat : ZMod m.toNat) * x.toNat =
        if x.toNat = 0 then 0 else (Nat.gcd x.toNat m.toNat : Nat) := by
  have hn : 0 < n := by
    refine Nat.pos_of_ne_zero fun hn ↦ ?_
    have hlt := m.toNat_lt
    subst hn
    omega
  unfold vliModInv
  simp only [vliIsZero_iff]
  split_ifs with hx
  · exact ⟨by rw [toNat_vliClear]; omega, by simp⟩
  · have hinit : (⟨x, m, vliOne n, vliClear n⟩ : InvState n).values =
        GcdState.init m.toNat x.toNat := by
      simp only [InvState.values, GcdState.init, toNat_vliOne hn, toNat_vliClear]
    have hpos : 0 < x.toNat := Nat.pos_of_ne_zero hx
    have hinv := GcdState.inv_init hm hpos
    rw [← hinit] at hinv
    have hrun := values_modInvLoop hn hodd (64 * n) hinv
    have hturns : Nat.size x.toNat + Nat.size m.toNat ≤ 64 * n := by
      have hsx : Nat.size x.toNat ≤ 32 * n := Nat.size_le.2 x.toNat_lt
      have hsm : Nat.size m.toNat ≤ 32 * n := Nat.size_le.2 m.toNat_lt
      omega
    have hspec := GcdState.run_init hodd hm hpos hturns
    rw [hinit] at hrun
    rw [← hrun] at hspec
    exact hspec

/-- Modulo a prime it is the inverse of the field. -/
theorem cast_vliModInv {x m : Vli n} {p : Nat} [Fact p.Prime] (hp : m.toNat = p) (hodd : p % 2 = 1)
    (hx : x.toNat < p) :
    (vliModInv x m).toNat < p ∧ ((vliModInv x m).toNat : ZMod p) = (x.toNat : ZMod p)⁻¹ := by
  subst hp
  obtain ⟨hlt, hmul⟩ := vliModInv_spec (x := x) hodd (Nat.Prime.one_lt Fact.out)
  refine ⟨hlt, ?_⟩
  split_ifs at hmul with hzero
  · have hclear : vliModInv x m = vliClear n := if_pos (vliIsZero_iff.2 hzero)
    rw [hclear, toNat_vliClear, hzero, Nat.cast_zero, inv_zero]
  · have hcop : Nat.gcd x.toNat m.toNat = 1 :=
      Nat.Coprime.symm ((Nat.Prime.coprime_iff_not_dvd Fact.out).2 fun hdvd ↦
        absurd (Nat.le_of_dvd (Nat.pos_of_ne_zero hzero) hdvd) (Nat.not_le.2 hx))
    rw [hcop, Nat.cast_one] at hmul
    exact eq_inv_of_mul_eq_one_left hmul

end DualBank.UECC
