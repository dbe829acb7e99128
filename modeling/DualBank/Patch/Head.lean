import Mathlib.Data.List.GetD
import DualBank.Patch.Staged

/-!
# The head of a patch

What `hpatch_lite_open` requests and reads.  The bytes of the tag and the bits of the version
are read and not looked at.
-/

namespace DualBank

open Lib FlashBackend

/-- The patch starts with the header `hI` of version 1. -/
def HasTag (patch : List UInt8) : Prop :=
  4 ≤ patch.length ∧ patch.getD 0 0 = 0x68 ∧ patch.getD 1 0 = 0x49 ∧ patch.getD 3 0 >>> 6 = 1

/-- A byte of the header buffer after the first read. -/
def headByte (M : PatchMemory) (patch : List UInt8) (i : Nat) : UInt8 :=
  (readInto M.headBuf (patch.take 4)).getD i 0

/-- The compress type. -/
def compressTypeByte (M : PatchMemory) (patch : List UInt8) : UInt8 := headByte M patch 2

/-- The byte with the two lengths. -/
def lengthsByte (M : PatchMemory) (patch : List UInt8) : UInt8 := headByte M patch 3

/-- `lenn`: the bytes of the new size. -/
def lenn (b : UInt8) : Nat := (b &&& 7).toNat

/-- `lenu`: the bytes of the uncompressed size. -/
def lenu (b : UInt8) : Nat := ((b >>> 3) &&& 7).toNat

/-- `hpatch_lite_open` behind the first read. -/
def openRest (compressType : UInt8) (lenn lenu : Nat) : PatchProgram (Option (UInt8 × UInt32)) :=
  (askDiff lenn).bind fun
    | none => .ret none
    | some data =>
      (askDiff lenu).bind fun
        | none => .ret none
        | some _ => .ret (some (compressType, hpiReadSize data data.length))

theorem hpiReadSize_readInto (buf data : List UInt8) :
    hpiReadSize (readInto buf data) data.length = hpiReadSize data data.length := by
  rw [hpiReadSize, hpiReadSize, readInto, List.take_left, List.take_length]

/-- Behind the first read only the compress type and the two lengths matter. -/
theorem hpatchLiteOpen_eq (headBuf : List UInt8) :
    hpatchLiteOpen headBuf = (askDiff 4).bind fun
      | none => .ret none
      | some data => openRest ((readInto headBuf data).getD 2 0)
          (lenn ((readInto headBuf data).getD 3 0)) (lenu ((readInto headBuf data).getD 3 0)) := by
  unfold hpatchLiteOpen openRest
  simp only [hpiReadSize_readInto]
  rfl

/-! ## The bytes behind it -/

/-- The new size, in the bytes that there are of it. -/
def headNewSize (M : PatchMemory) (patch : List UInt8) : UInt32 :=
  let data := (patch.drop 4).take (lenn (lengthsByte M patch))
  hpiReadSize data data.length

/-- What follows the header. -/
def behindHead (M : PatchMemory) (patch : List UInt8) : List UInt8 :=
  ((patch.drop 4).drop (lenn (lengthsByte M patch))).drop (lenu (lengthsByte M patch))

/-- The reads of the header find something of what they ask for. -/
def HeadRead (M : PatchMemory) (patch : List UInt8) : Prop :=
  patch ≠ [] ∧ (lenn (lengthsByte M patch) = 0 ∨ patch.drop 4 ≠ []) ∧
    (lenu (lengthsByte M patch) = 0 ∨ (patch.drop 4).drop (lenn (lengthsByte M patch)) ≠ [])

/-- What the header says on the diff behind it: the raw diff, or a compressed one with a
dictionary that is not too large. -/
def BodyTaken (ct : UInt8) (body : List UInt8) : Prop :=
  ct = hpiCompressTypeNo ∨ ct = hpiCompressTypeTuz ∧
    ∃ b₀ b₁ b₂ b₃ code, body = b₀ :: b₁ :: b₂ :: b₃ :: code ∧ le32 b₀ b₁ b₂ b₃ ≤ deltaTuzDictMax

section Staged

variable {σ : Type} [FlashBackend σ] (M : PatchMemory) (listener : DeltaListener)
  (patch : List UInt8) (dev : σ)

omit [FlashBackend σ]

theorem stagedRead_of (n : Nat) (h : n = 0 ∨ patch ≠ []) :
    stagedRead n ⟨listener, patch, dev⟩ =
      (some (patch.take n), ⟨listener, patch.drop n, dev⟩) := by
  unfold stagedRead
  by_cases h0 : n = 0
  · rw [if_pos h0, h0]
    rfl
  · rw [if_neg h0, if_neg (h.resolve_left h0)]

theorem stagedRead_of_not (n : Nat) (h : ¬(n = 0 ∨ patch ≠ [])) :
    stagedRead n ⟨listener, patch, dev⟩ = (none, ⟨listener, patch, dev⟩) := by
  obtain ⟨h0, hempty⟩ := not_or.1 h
  unfold stagedRead
  rw [if_neg h0, if_pos (not_not.1 hempty)]

end Staged

section Runs

variable {σ : Type} [FlashBackend σ] (M : PatchMemory) (listener : DeltaListener)
  (patch : List UInt8) (dev : σ)

theorem run_askDiff {α : Type} (n : Nat) (f : Option (List UInt8) → PatchProgram α)
    (t : StagedState σ) : ((askDiff n).bind f).run stagedAnswer t =
      (f (stagedRead n t).1).run stagedAnswer (stagedRead n t).2 := rfl

/-- What `hpatch_lite_open` reads of a header. -/
theorem hpatchLiteOpen_staged (h : HeadRead M patch) :
    (hpatchLiteOpen M.headBuf).run stagedAnswer ⟨listener, patch, dev⟩ =
      (some (compressTypeByte M patch, headNewSize M patch),
        ⟨listener, behindHead M patch, dev⟩) := by
  obtain ⟨hne, hnew, huncompressed⟩ := h
  rw [hpatchLiteOpen_eq, run_askDiff, stagedRead_of _ _ _ _ (.inr hne)]
  unfold openRest
  dsimp only
  rw [run_askDiff]
  have hfirst := stagedRead_of listener _ dev _ hnew
  have hsecond := stagedRead_of listener _ dev _ huncompressed
  unfold lengthsByte headByte at hfirst hsecond
  rw [hfirst]
  dsimp only
  rw [run_askDiff, hsecond]
  rfl

/-- Where a read finds nothing, the patch is not opened. -/
theorem hpatchLiteOpen_staged_none (h : ¬HeadRead M patch) :
    ((hpatchLiteOpen M.headBuf).run stagedAnswer ⟨listener, patch, dev⟩).1 = none := by
  rw [hpatchLiteOpen_eq, run_askDiff]
  by_cases hne : patch = []
  · rw [stagedRead_of_not _ _ _ _ (not_or.2 ⟨Nat.succ_ne_zero 3, not_not.2 hne⟩)]
    rfl
  rw [stagedRead_of _ _ _ _ (.inr hne)]
  unfold openRest
  dsimp only
  rw [run_askDiff]
  by_cases hnew : lenn (lengthsByte M patch) = 0 ∨ patch.drop 4 ≠ []
  · have huncompressed := fun hread ↦ h ⟨hne, hnew, hread⟩
    have hfirst := stagedRead_of listener _ dev _ hnew
    have hsecond := stagedRead_of_not listener _ dev _ huncompressed
    unfold lengthsByte headByte at hfirst hsecond
    rw [hfirst]
    dsimp only
    rw [run_askDiff, hsecond]
    rfl
  · have hfirst := stagedRead_of_not listener _ dev _ hnew
    unfold lengthsByte headByte at hfirst
    rw [hfirst]
    rfl

/-! ## Requests -/

variable {α : Type}

theorem run_askDiff_log (n : Nat) (f : Option (List UInt8) → PatchProgram α) (t : StagedState σ)
    (log : List Nat) : ((askDiff n).bind f).run (Calls.withLog stagedAnswer PatchOp.addRequest)
      (t, log) = (f (stagedRead n t).1).run (Calls.withLog stagedAnswer PatchOp.addRequest)
        ((stagedRead n t).2, log ++ [n]) := rfl

theorem requests_openRest (ct : UInt8) (n u : Nat) (body : List UInt8) (log : List Nat) :
    ((openRest ct n u).run (Calls.withLog stagedAnswer PatchOp.addRequest)
      (⟨listener, body, dev⟩, log)).2.2 =
        log ++ n :: if n = 0 ∨ body ≠ [] then [u] else [] := by
  unfold openRest
  rw [run_askDiff_log]
  by_cases hread : n = 0 ∨ body ≠ []
  · rw [stagedRead_of listener body dev n hread, if_pos hread]
    dsimp only
    rw [run_askDiff_log]
    cases (stagedRead u ⟨listener, body.drop n, dev⟩).1 with
    | none => exact List.append_assoc log [n] [u]
    | some _ => exact List.append_assoc log [n] [u]
  · rw [stagedRead_of_not listener body dev n hread, if_neg hread]
    rfl

/-- The sizes that `hpatch_lite_open` requests: of the header, of the first length, and of the
second one where the read of the first succeeds. -/
theorem requests_eq (M : PatchMemory) (fuel n : Nat) (h : patch ≠ []) :
    (patchTrace stagedAnswer StagedState.listener M fuel n ⟨listener, patch, dev⟩).requests =
      4 :: lenn (lengthsByte M patch) ::
        if lenn (lengthsByte M patch) = 0 ∨ 4 < patch.length then [lenu (lengthsByte M patch)]
        else [] := by
  have hleft : patch.drop 4 ≠ [] ↔ 4 < patch.length := by
    rw [ne_eq, List.drop_eq_nil_iff, Nat.not_le]
  unfold patchTrace
  dsimp only
  rw [hpatchLiteOpen_eq, run_askDiff_log, stagedRead_of listener patch dev 4 (.inr h)]
  refine (requests_openRest _ _ _ _ _ _ _).trans ?_
  simp only [hleft]
  rfl

end Runs

end DualBank
