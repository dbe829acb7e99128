import Mathlib.Data.List.GetD
import Mathlib.Logic.Function.Basic
import Mathlib.Tactic.SplitIfs

/-!
# Sliding windows

Copies from what was written before, element by element, and the ring buffer that keeps the
end of it for them.
-/

namespace DualBank.Lib.Window

variable {α : Type} [Inhabited α] {hist : List α}

/-! ## Copies -/

/-- What was written `d` elements ago. -/
def back (hist : List α) (d : Nat) : α := hist.getD (hist.length - d) default

theorem back_one (hist : List α) (x : α) : back (hist ++ [x]) 1 = x := by
  rw [back, List.length_append, List.length_singleton, Nat.add_sub_cancel,
    List.getD_append_right _ _ _ _ (Nat.le_refl _), Nat.sub_self]
  rfl

/-- The same element, one element later. -/
theorem back_append {d : Nat} (hd : 0 < d) (hle : d ≤ hist.length) (x : α) :
    back (hist ++ [x]) (d + 1) = back hist d := by
  rw [back, List.length_append, List.length_singleton, Nat.add_sub_add_right,
    List.getD_append _ _ _ _ (by omega)]
  rfl

/-- The `n` elements of a copy from `d` elements ago, which may reach into itself. -/
def copy (hist : List α) (d : Nat) : Nat → List α
  | 0 => []
  | n + 1 => back hist d :: copy (hist ++ [back hist d]) d n

@[simp] theorem copy_zero (hist : List α) (d : Nat) : copy hist d 0 = [] := rfl

theorem copy_succ (hist : List α) (d n : Nat) :
    copy hist d (n + 1) = back hist d :: copy (hist ++ [back hist d]) d n := rfl

@[simp] theorem length_copy (hist : List α) (d n : Nat) : (copy hist d n).length = n := by
  induction n generalizing hist with
  | zero => rfl
  | succ n ih => rw [copy_succ, List.length_cons, ih]

/-! ## The ring buffer -/

/-- Where a ring buffer with its cursor at `cur` keeps what was written `d` elements ago. -/
def slot (size cur d : Nat) : Nat := if d ≤ cur then cur - d else cur + size - d

/-- The cursor behind an element. -/
def nextCur (size cur : Nat) : Nat := if cur + 1 < size then cur + 1 else 0

/-- The ring buffer keeps the last `size` elements. -/
def Holds (size cur : Nat) (buf : Nat → α) (hist : List α) : Prop :=
  ∀ d, 0 < d → d ≤ size → d ≤ hist.length → buf (slot size cur d) = back hist d

theorem slot_lt {size cur d : Nat} (hcur : cur < size) (hd : 0 < d) : slot size cur d < size := by
  unfold slot
  split_ifs <;> omega

theorem Holds.congr {size cur : Nat} {buf buf' : Nat → α} (h : Holds size cur buf hist)
    (hcur : cur < size) (hbuf : ∀ i < size, buf' i = buf i) : Holds size cur buf' hist :=
  fun d hd hsize hle ↦ (hbuf _ (slot_lt hcur hd)).trans (h d hd hsize hle)

theorem holds_nil (size cur : Nat) (buf : Nat → α) : Holds size cur buf [] :=
  fun _ hd _ hle ↦ absurd hle (Nat.not_le.2 hd)

/-- Writing at the cursor keeps the window. -/
theorem Holds.write {size cur : Nat} {buf : Nat → α} (h : Holds size cur buf hist)
    (hcur : cur < size) (x : α) :
    Holds size (nextCur size cur) (Function.update buf cur x) (hist ++ [x]) := by
  intro d hd hsize hle
  rw [List.length_append, List.length_singleton] at hle
  obtain ⟨d, rfl⟩ : ∃ k, d = k + 1 := ⟨d - 1, by omega⟩
  have hslot : slot size (nextCur size cur) (d + 1) = if d = 0 then cur else slot size cur d := by
    unfold slot nextCur
    split_ifs <;> omega
  by_cases hlast : d = 0
  · rw [hslot, if_pos hlast, Function.update_self, hlast, back_one]
  · have hne : slot size cur d ≠ cur := by
      unfold slot
      split_ifs <;> omega
    rw [hslot, if_neg hlast, Function.update_of_ne hne, back_append (by omega) (by omega)]
    exact h d (by omega) (by omega) (by omega)

end DualBank.Lib.Window
