import Mathlib.Algebra.Order.Group.Nat
import Mathlib.Data.UInt
import DualBank.Patch.HpatchLite

/-!
# The patch format

What a patch of HPatchLite means, and the byte strings that stand for it.  A patch is a list
of covers: the new image is made of new bytes, and of stretches of the old image, taken over
as they are or with differences added to them.
-/

namespace DualBank

/-! ## Meaning -/

/-- What a cover does with its stretch of the old image. -/
inductive CoverBody where
  | copy (length : Nat)
  | add (sub : List UInt8)

namespace CoverBody

def length : CoverBody → Nat
  | copy length => length
  | add sub => sub.length

/-- The bytes of the diff. -/
def sub : CoverBody → List UInt8
  | copy _ => []
  | add sub => sub

/-- The new bytes, from the stretch of the old image. -/
def apply (stretch : List UInt8) : CoverBody → List UInt8
  | copy _ => stretch
  | add sub => addData stretch sub

/-- The part on the first `k` bytes of the stretch. -/
def take (k : Nat) : CoverBody → CoverBody
  | copy _ => copy k
  | add sub => add (sub.take k)

/-- The part behind them. -/
def drop (k : Nat) : CoverBody → CoverBody
  | copy length => copy (length - k)
  | add sub => add (sub.drop k)

variable {body : CoverBody} {k : Nat}

theorem length_take (hk : k ≤ body.length) : (body.take k).length = k := by
  cases body with
  | copy length => rfl
  | add sub => exact List.length_take_of_le hk

theorem length_drop : (body.drop k).length = body.length - k := by
  cases body with
  | copy length => rfl
  | add sub => exact List.length_drop

theorem drop_eq_copy_iff : (∃ n, body.drop k = .copy n) ↔ ∃ n, body = .copy n := by
  cases body with
  | copy length => exact iff_of_true ⟨_, rfl⟩ ⟨_, rfl⟩
  | add sub => exact iff_of_false nofun nofun

theorem length_apply {stretch : List UInt8} (h : stretch.length = body.length) :
    (body.apply stretch).length = body.length := by
  cases body with
  | copy length => exact h
  | add sub =>
      rw [apply, addData, List.length_zipWith, h, length, Nat.min_self]

theorem apply_append {stretch stretch' : List UInt8} (h : stretch.length = k)
    (hk : k ≤ body.length) :
    body.apply (stretch ++ stretch') =
      (body.take k).apply stretch ++ (body.drop k).apply stretch' := by
  cases body with
  | copy length => rfl
  | add sub =>
      have hlen : (sub.take k).length = k := List.length_take_of_le hk
      have hsub := List.take_append_drop k sub
      show addData (stretch ++ stretch') sub = addData stretch (sub.take k) ++
        addData stretch' (sub.drop k)
      rw [addData, addData, addData, ← List.zipWith_append (h.trans hlen.symm), hsub]

end CoverBody

/-- New bytes, and the cover behind them. -/
structure PatchCover where
  before : List UInt8
  oldPos : Nat
  body : CoverBody

namespace PatchCover

variable (c : PatchCover) (old : List UInt8)

/-- The stretch of the old image. -/
def stretch : List UInt8 := (old.drop c.oldPos).take c.body.length

def newBytes : List UInt8 := c.before ++ c.body.apply (c.stretch old)

/-- The stretch is there. -/
def Fits : Prop := c.oldPos + c.body.length ≤ old.length

variable {c old}

theorem length_stretch (h : c.Fits old) : (c.stretch old).length = c.body.length := by
  unfold Fits at h
  rw [stretch, List.length_take, List.length_drop]
  omega

theorem length_newBytes (h : c.Fits old) :
    (c.newBytes old).length = c.before.length + c.body.length := by
  rw [newBytes, List.length_append, CoverBody.length_apply (length_stretch h)]

end PatchCover

/-- The image that a patch makes of the old one. -/
def newImage (old : List UInt8) (covers : List PatchCover) : List UInt8 :=
  covers.flatMap fun c ↦ c.newBytes old

@[simp] theorem newImage_nil (old : List UInt8) : newImage old [] = [] := rfl

theorem newImage_cons (old : List UInt8) (c : PatchCover) (covers : List PatchCover) :
    newImage old (c :: covers) = c.newBytes old ++ newImage old covers := List.flatMap_cons

/-! ## Numbers -/

/-- The bytes read on from the value `v` to the value `w`: groups of seven bits, the high bit
set on all but the last. -/
inductive Packed : Nat → List UInt8 → Nat → Prop
  | last {v : Nat} {b : UInt8} (hb : b.toNat < 128) : Packed v [b] (v * 128 + b.toNat)
  | more {v w : Nat} {b : UInt8} {bs : List UInt8} (hb : 128 ≤ b.toNat)
      (h : Packed (v * 128 + (b.toNat - 128)) bs w) : Packed v (b :: bs) w

theorem Packed.le {v w : Nat} {bs : List UInt8} (h : Packed v bs w) : v ≤ w := by
  induction h with
  | last hb => omega
  | more hb h ih => omega

/-! ## Covers -/

/-- The byte strings of a cover, where the last one ended at `oldPosBack`. -/
inductive CoverCode (oldPosBack : Nat) (c : PatchCover) : List UInt8 → Prop
  | mk {lengthCode oldPosCode newPosCode : List UInt8} {tag : UInt8} {d : Nat}
      (hlength : Packed 0 lengthCode c.body.length)
      (hdistance : if tag &&& 32 = 0 then oldPosCode = [] ∧ d = (tag &&& 31).toNat
        else Packed (tag &&& 31).toNat oldPosCode d)
      (holdPos : if tag &&& 64 = 0 then c.oldPos = oldPosBack + d else c.oldPos + d = oldPosBack)
      (hbody : tag >>> 7 ≠ 0 ↔ ∃ n, c.body = .copy n)
      (hnewPos : Packed 0 newPosCode c.before.length) :
      CoverCode oldPosBack c
        (lengthCode ++ (tag :: (oldPosCode ++ (newPosCode ++ (c.before ++ c.body.sub)))))

/-- The byte strings of some covers. -/
inductive CoversCode : Nat → List PatchCover → List UInt8 → Prop
  | nil {oldPosBack : Nat} : CoversCode oldPosBack [] []
  | cons {oldPosBack : Nat} {c : PatchCover} {covers : List PatchCover} {bs cs : List UInt8}
      (hc : CoverCode oldPosBack c bs) (hcs : CoversCode (c.oldPos + c.body.length) covers cs) :
      CoversCode oldPosBack (c :: covers) (bs ++ cs)

/-- The byte strings of a patch. -/
inductive PatchCode (covers : List PatchCover) : List UInt8 → Prop
  | mk {countCode bs : List UInt8} (hcount : Packed 0 countCode covers.length)
      (hcovers : CoversCode 0 covers bs) : PatchCode covers (countCode ++ bs)

end DualBank
