import Mathlib.Data.Nat.Size
import Mathlib.Data.ZMod.Basic
import Mathlib.Tactic.LinearCombination

/-!
# Inverses by the binary greatest common divisor

Two numbers `a` and `b` are halved and subtracted until they agree; `u` and `v` follow them
modulo an odd `m`, so that `a = u * x` and `b = v * x` all the time.
-/

namespace DualBank.Lib

/-- Half of a residue modulo an odd number. -/
def halveMod (m u : Nat) : Nat := if u % 2 = 0 then u / 2 else (u + m) / 2

/-- The difference of two residues. -/
def diffMod (m u v : Nat) : Nat := (if u < v then u + m else u) - v

/-- The two numbers and their multipliers. -/
structure GcdState where
  a : Nat
  b : Nat
  u : Nat
  v : Nat

namespace GcdState

/-- One turn of the loop. -/
def step (m : Nat) (s : GcdState) : GcdState :=
  if s.a % 2 = 0 then { s with a := s.a / 2, u := halveMod m s.u }
  else if s.b % 2 = 0 then { s with b := s.b / 2, v := halveMod m s.v }
  else if s.b < s.a then { s with a := (s.a - s.b) / 2, u := halveMod m (diffMod m s.u s.v) }
  else { s with b := (s.b - s.a) / 2, v := halveMod m (diffMod m s.v s.u) }

/-- The loop, for at most `turns` turns. -/
def run (m : Nat) : Nat → GcdState → GcdState
  | 0, s => s
  | turns + 1, s => if s.a = s.b then s else run m turns (s.step m)

/-- What every turn keeps, for the inverse of `x` modulo `m`. -/
structure Inv (m x : Nat) (s : GcdState) : Prop where
  a_pos : 0 < s.a
  b_pos : 0 < s.b
  u_lt : s.u < m
  v_lt : s.v < m
  a_eq : (s.a : ZMod m) = s.u * x
  b_eq : (s.b : ZMod m) = s.v * x
  gcd_eq : Nat.gcd s.a s.b = Nat.gcd x m

variable {m x : Nat} {s : GcdState}

theorem halveMod_lt {u : Nat} (hu : u < m) : halveMod m u < m := by
  unfold halveMod
  split_ifs <;> omega

theorem diffMod_lt {u v : Nat} (hu : u < m) : diffMod m u v < m := by
  unfold diffMod
  split_ifs <;> omega

/-- Twice the half is the residue again. -/
theorem two_mul_halveMod (hm : m % 2 = 1) (u : Nat) :
    (2 : ZMod m) * (halveMod m u : Nat) = u := by
  have h : 2 * halveMod m u = if u % 2 = 0 then u else u + m := by
    unfold halveMod
    split_ifs <;> omega
  have hcast := congrArg (Nat.cast (R := ZMod m)) h
  split_ifs at hcast
  · exact_mod_cast hcast
  · simpa using hcast

theorem cast_diffMod {u v : Nat} (hv : v < m) : (diffMod m u v : ZMod m) = u - v := by
  unfold diffMod
  split_ifs with h
  · rw [Nat.cast_sub (by omega), Nat.cast_add, ZMod.natCast_self, add_zero]
  · rw [Nat.cast_sub (by omega)]

/-- Halving an even number together with its multiplier. -/
theorem half_eq (hm : m % 2 = 1) {c u : Nat} (hc : c % 2 = 0) (h : (c : ZMod m) = u * x) :
    ((c / 2 : Nat) : ZMod m) = (halveMod m u : Nat) * x := by
  have htwo : IsUnit (2 : ZMod m) := by
    have h := (ZMod.isUnit_iff_coprime 2 m).2 (Nat.coprime_two_left.2 (Nat.odd_iff.2 hm))
    exact_mod_cast h
  have hhalf : (2 : ZMod m) * ((c / 2 : Nat) : ZMod m) = c := by
    exact_mod_cast congrArg (Nat.cast (R := ZMod m))
      (Nat.mul_div_cancel' (Nat.dvd_of_mod_eq_zero hc))
  refine htwo.mul_left_cancel ?_
  rw [hhalf, h, ← mul_assoc, two_mul_halveMod hm]

theorem gcd_half {a b : Nat} (ha : a % 2 = 0) (hb : b % 2 = 1) :
    Nat.gcd (a / 2) b = Nat.gcd a b := by
  have hcop : Nat.Coprime 2 b := Nat.coprime_two_left.2 (Nat.odd_iff.2 hb)
  conv_rhs => rw [← Nat.mul_div_cancel' (Nat.dvd_of_mod_eq_zero ha)]
  exact (hcop.gcd_mul_left_cancel _).symm

/-- A turn keeps the invariant, as long as not both numbers are even. -/
theorem Inv.step (hm : m % 2 = 1) (h : Inv m x s) (hne : s.a ≠ s.b) : Inv m x (s.step m) := by
  have hodd : ¬(s.a % 2 = 0 ∧ s.b % 2 = 0) := by
    rintro ⟨ha, hb⟩
    have hdvd := Nat.dvd_gcd (Nat.dvd_of_mod_eq_zero ha) (Nat.dvd_of_mod_eq_zero hb)
    rw [h.gcd_eq] at hdvd
    have := Nat.mod_eq_zero_of_dvd (hdvd.trans (Nat.gcd_dvd_right x m))
    omega
  have hapos := h.a_pos
  have hbpos := h.b_pos
  unfold GcdState.step
  split_ifs with ha hb hlt
  · exact { h with
      a_pos := by dsimp only; omega
      u_lt := halveMod_lt h.u_lt
      a_eq := half_eq hm ha h.a_eq
      gcd_eq := (gcd_half ha (by dsimp only; omega)).trans h.gcd_eq }
  · refine { h with
      b_pos := by dsimp only; omega
      v_lt := halveMod_lt h.v_lt
      b_eq := half_eq hm hb h.b_eq
      gcd_eq := ?_ }
    rw [Nat.gcd_comm, gcd_half hb (by dsimp only; omega), Nat.gcd_comm, h.gcd_eq]
  · refine { h with
      a_pos := by dsimp only; omega
      u_lt := halveMod_lt (diffMod_lt h.u_lt)
      a_eq := half_eq hm (by omega) ?_
      gcd_eq := ?_ }
    · rw [Nat.cast_sub hlt.le, cast_diffMod h.v_lt, h.a_eq, h.b_eq, sub_mul]
    · rw [gcd_half (by omega) (by dsimp only; omega), Nat.gcd_sub_self_left hlt.le, h.gcd_eq]
  · have hle : s.a ≤ s.b := Nat.le_of_not_lt hlt
    refine { h with
      b_pos := by dsimp only; omega
      v_lt := halveMod_lt (diffMod_lt h.v_lt)
      b_eq := half_eq hm (by omega) ?_
      gcd_eq := ?_ }
    · rw [Nat.cast_sub hle, cast_diffMod h.u_lt, h.a_eq, h.b_eq, sub_mul]
    · rw [Nat.gcd_comm, gcd_half (by omega) (by dsimp only; omega), Nat.gcd_sub_self_left hle,
        Nat.gcd_comm, h.gcd_eq]

theorem size_half {a : Nat} (ha : 0 < a) {c : Nat} (hc : c ≤ a / 2) : Nat.size c < Nat.size a := by
  have hlt := Nat.lt_size_self a
  have hpos : 0 < Nat.size a := Nat.size_pos.2 ha
  have hpow : 2 ^ Nat.size a = 2 * 2 ^ (Nat.size a - 1) := by
    rw [← pow_succ', Nat.sub_add_cancel hpos]
  have hle : Nat.size c ≤ Nat.size a - 1 := Nat.size_le.2 (by omega)
  omega

/-- Every turn takes a bit off one of the numbers. -/
theorem size_step (h : Inv m x s) :
    Nat.size (s.step m).a + Nat.size (s.step m).b < Nat.size s.a + Nat.size s.b := by
  have hapos := h.a_pos
  have hbpos := h.b_pos
  unfold GcdState.step
  split_ifs with ha hb hlt
  · exact Nat.add_lt_add_right (size_half hapos le_rfl) _
  · exact Nat.add_lt_add_left (size_half hbpos le_rfl) _
  · exact Nat.add_lt_add_right (size_half hapos (by dsimp only; omega)) _
  · exact Nat.add_lt_add_left (size_half hbpos (by dsimp only; omega)) _

/-- As many turns as the two numbers have bits are enough. -/
theorem run_spec (hm : m % 2 = 1) {turns : Nat} (h : Inv m x s)
    (hturns : Nat.size s.a + Nat.size s.b ≤ turns) :
    Inv m x (run m turns s) ∧ (run m turns s).a = (run m turns s).b := by
  induction turns generalizing s with
  | zero =>
      have hpos : 0 < Nat.size s.a := Nat.size_pos.2 h.a_pos
      omega
  | succ turns ih =>
      rw [run]
      split_ifs with heq
      · exact ⟨h, heq⟩
      · have hsize := size_step h
        exact ih (h.step hm heq) (by omega)

/-- The state that the loop starts in. -/
def init (m x : Nat) : GcdState := ⟨x, m, 1, 0⟩

theorem inv_init (hm : 1 < m) (hx : 0 < x) : Inv m x (init m x) where
  a_pos := hx
  b_pos := Nat.zero_lt_of_lt hm
  u_lt := hm
  v_lt := Nat.zero_lt_of_lt hm
  a_eq := by simp [init]
  b_eq := by simp [init]
  gcd_eq := rfl

/-- At the end the multiplier of `a` is an inverse of `x`, up to the common divisor. -/
theorem run_init (hodd : m % 2 = 1) (hm : 1 < m) (hx : 0 < x) {turns : Nat}
    (hturns : Nat.size x + Nat.size m ≤ turns) :
    (run m turns (init m x)).u < m ∧
      ((run m turns (init m x)).u : ZMod m) * x = (Nat.gcd x m : Nat) := by
  obtain ⟨hinv, heq⟩ := run_spec hodd (inv_init hm hx) hturns
  refine ⟨hinv.u_lt, ?_⟩
  rw [← hinv.a_eq, ← hinv.gcd_eq, ← heq, Nat.gcd_self]

end GcdState

end DualBank.Lib
