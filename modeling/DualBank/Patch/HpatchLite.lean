import DualBank.Patch.Tinyuz

/-!
# HPatchLite

`hpatch_lite_patch` of `third_party/hpatch_lite/hpatch_lite.c`, built without
`_IS_RUN_MEM_SAFE_CHECK`, over the raw diff or through tinyuz, and the engine of
`delta_patch.c` that it makes with tinyuz.
-/

namespace DualBank

open Lib Stateful

/-- `DELTA_PATCH_CACHE_SIZE`. -/
def deltaPatchCacheSize : Nat := 1024 * 16

/-- `DELTA_TUZ_DEC_BUF`. -/
def deltaTuzDecBuf : Nat := 1024

/-- `diff_data`: the raw stream, or a tinyuz stream over it. -/
abbrev DiffData : Type := Option TuzTStream

/-- `read_diff`: `diff_stream_read`, or `hpatch_tuz_stream_decompress`. -/
def readDiff (M : PatchMemory) (fuel : Nat) : InputStreamRead DiffData := fun dataSize diffData ↦
  match diffData with
  | none => (askDiff dataSize).bind fun data ↦ .ret (some data, none)
  | some tuz => (tuz.decompress M fuel dataSize).bind fun r ↦ .ret (r.1, some r.2)

/-- The state of `hpatch_lite_patch`: its cache of the diff. -/
abbrev HpatchM (α : Type) : Type := PatchM (InputCache DiffData) α

section Patch

variable (M : PatchMemory) (fuel : Nat)

/-- `_cache_read_1byte` on the diff. -/
def diffRead1byte : HpatchM UInt32 := do
  let b ← InputCache.read1byte (readDiff M fuel)
  return b.toUInt32

/-- `_cache_unpackUInt`. -/
def cacheUnpackUInt : Nat → UInt32 → UInt32 → HpatchM UInt32
  | 0, _, _ => stop
  | n + 1, v, isNext =>
    if isNext = 0 then return v
    else do
      let b ← diffRead1byte M fuel
      cacheUnpackUInt n ((v <<< (7 : UInt32)) ||| (b &&& 127)) (b >>> 7)

/-- Whether there is unread diff, after an update of an empty cache. -/
def refill : HpatchM Bool := do
  let self ← Stateful.get
  if self.unread.length = 0 then InputCache.update (readDiff M fuel) else return true

/-- A call of `write_new`. -/
def writeNew (data : List UInt8) : HpatchM Bool := lift (Calls.ask (PatchOp.writeNew data))

/-- A call of `read_old`. -/
def readOld (oldPos : UInt32) (dataSize : Nat) : HpatchM (Option (List UInt8)) :=
  lift (Calls.ask (PatchOp.readOld oldPos.toNat dataSize))

/-- `diff->cache_begin += decodeStep`. -/
def skip (decodeStep : Nat) : HpatchM PUnit :=
  Stateful.modify fun self ↦ { self with unread := self.unread.drop decodeStep }

/-- `_patch_copy_diff`. -/
def patchCopyDiff : Nat → Nat → HpatchM Bool
  | 0, _ => stop
  | n + 1, copyLength =>
    if copyLength = 0 then return true
    else do
      let ready ← refill M fuel
      if !ready then return false
      else do
        let self ← Stateful.get
        let decodeStep := min self.unread.length copyLength
        let ok ← writeNew (self.unread.take decodeStep)
        if !ok then return false
        else do
          skip decodeStep
          patchCopyDiff n (copyLength - decodeStep)

/-- `addData`: the second list added to the first. -/
def addData (dst src : List UInt8) : List UInt8 := List.zipWith (· + ·) dst src

/-- `decodeStep` of `_patch_add_old_withClip` before it is clipped. -/
def addStep (isNotNeedSubDiff : Bool) : HpatchM Nat := do
  if isNotNeedSubDiff then do
    let self ← Stateful.get
    return self.cacheEnd
  else do
    let _ ← refill M fuel
    let self ← Stateful.get
    return self.unread.length

/-- `_patch_add_old_withClip`. -/
def patchAddOldWithClip (isNotNeedSubDiff : Bool) : Nat → UInt32 → Nat → HpatchM Bool
  | 0, _, _ => stop
  | n + 1, oldPos, addLength =>
    if addLength = 0 then return true
    else do
      let step ← addStep M fuel isNotNeedSubDiff
      if step = 0 then return false
      else do
        let decodeStep := min step addLength
        let old ← readOld oldPos decodeStep
        match old with
        | none => return false
        | some old => do
          let self ← Stateful.get
          let ok ← writeNew (if isNotNeedSubDiff then old
            else addData old (self.unread.take decodeStep))
          if !ok then return false
          else do
            skip (if isNotNeedSubDiff then 0 else decodeStep)
            patchAddOldWithClip isNotNeedSubDiff n (oldPos + decodeStep.toUInt32)
              (addLength - decodeStep)

/-- A cover, as it is read. -/
structure Cover where
  oldPos : UInt32
  newPos : UInt32
  length : UInt32
  isNotNeedSubDiff : Bool

/-- The cover at these positions back. -/
def readCover (newPosBack oldPosBack : UInt32) : HpatchM Cover := do
  let coverLength ← cacheUnpackUInt M fuel fuel 0 1
  let tag ← diffRead1byte M fuel
  let oldPos ← cacheUnpackUInt M fuel fuel (tag &&& 31) (tag &&& 32)
  let newPos ← cacheUnpackUInt M fuel fuel 0 1
  return {
    oldPos := if tag &&& 64 ≠ 0 then oldPosBack - oldPos else oldPos + oldPosBack
    newPos := newPos + newPosBack
    length := coverLength
    isNotNeedSubDiff := tag >>> 7 ≠ 0 }

/-- The new bytes in front of a cover. -/
def patchBefore (newPosBack : UInt32) (cover : Cover) : HpatchM Bool :=
  if newPosBack < cover.newPos then patchCopyDiff M fuel fuel (cover.newPos - newPosBack).toNat
  else return true

/-- The loop over the covers; the position behind the last one, or `none` on a failure. -/
def patchCovers : Nat → UInt32 → UInt32 → HpatchM (Option UInt32)
  | 0, newPosBack, _ => return some newPosBack
  | coverCount + 1, newPosBack, oldPosBack => do
    let cover ← readCover M fuel newPosBack oldPosBack
    let copied ← patchBefore M fuel newPosBack cover
    if !copied then return none
    else do
      let added ← patchAddOldWithClip M fuel cover.isNotNeedSubDiff fuel cover.oldPos
        cover.length.toNat
      if !added then return none
      else patchCovers coverCount (cover.newPos + cover.length) (cover.oldPos + cover.length)

/-- `hpatch_lite_patch`. -/
def hpatchLitePatch (newSize : UInt32) : HpatchM Bool := do
  let coverCount ← cacheUnpackUInt M fuel fuel 0 1
  let newPosBack ← patchCovers M fuel coverCount.toNat 0 0
  match newPosBack with
  | none => return false
  | some newPosBack => do
    let self ← Stateful.get
    return newSize == newPosBack && self.successFinish

end Patch

/-! ## Invariants -/

/-- What holds between two steps of `hpatch_lite_patch`, and `K` where it stops short: an
update of the cache keeps it, and neither what is unread nor the images show in it. -/
structure DiffInvariant {S : Type} (M : PatchMemory) (fuel : Nat)
    (answer : (op : PatchOp) → S → op.Res × S) (I K : InputCache DiffData → S → Prop) : Prop where
  stop : ∀ self s, I self s → K self s
  update : KeepsIn answer I K (InputCache.update (readDiff M fuel))
  unread : ∀ self unread s, I self s → I { self with unread := unread } s
  old : ∀ self oldPos n s, I self s → I self (answer (.readOld oldPos n) s).2
  new : ∀ self data s, I self s → I self (answer (.writeNew data) s).2

namespace DiffInvariant

variable {S : Type} {M : PatchMemory} {fuel : Nat} {answer : (op : PatchOp) → S → op.Res × S}
  {I K : InputCache DiffData → S → Prop} (h : DiffInvariant M fuel answer I K)
include h

theorem keepsIn_takeByte : KeepsIn answer I K InputCache.takeByte :=
  keepsIn_get_bind fun _ _ hI ↦ endsIn_modify_bind (endsIn_pure (h.unread _ _ _ hI))

theorem keepsIn_diffRead1byte : KeepsIn answer I K (diffRead1byte M fuel) := by
  refine KeepsIn.bind (keepsIn_get_bind fun self s hI ↦ ?_) fun _ ↦ keepsIn_pure _
  split
  · exact h.keepsIn_takeByte self s hI
  · refine KeepsIn.bind h.update (fun ok ↦ ?_) self s hI
    split
    · exact h.keepsIn_takeByte
    · exact keepsIn_pure _

theorem keepsIn_cacheUnpackUInt (n : Nat) (v isNext : UInt32) :
    KeepsIn answer I K (cacheUnpackUInt M fuel n v isNext) := by
  induction n generalizing v isNext with
  | zero => exact keepsIn_stop h.stop
  | succ n ih =>
      unfold cacheUnpackUInt
      split
      · exact keepsIn_pure _
      · exact h.keepsIn_diffRead1byte.bind fun _ ↦ ih _ _

theorem keepsIn_refill : KeepsIn answer I K (refill M fuel) := by
  refine keepsIn_get_bind fun self s hI ↦ ?_
  split
  · exact h.update self s hI
  · exact endsIn_pure hI

theorem keepsIn_skip (decodeStep : Nat) : KeepsIn answer I K (skip decodeStep) :=
  keepsIn_modify fun _ _ hI ↦ h.unread _ _ _ hI

theorem keepsIn_writeNew (data : List UInt8) : KeepsIn answer I K (writeNew data) :=
  fun _ _ hI ↦ endsIn_lift (h.new _ _ _ hI)

theorem keepsIn_readOld (oldPos : UInt32) (n : Nat) : KeepsIn answer I K (readOld oldPos n) :=
  fun _ _ hI ↦ endsIn_lift (h.old _ _ _ _ hI)

theorem keepsIn_patchCopyDiff (n copyLength : Nat) :
    KeepsIn answer I K (patchCopyDiff M fuel n copyLength) := by
  induction n generalizing copyLength with
  | zero => exact keepsIn_stop h.stop
  | succ n ih =>
      unfold patchCopyDiff
      split
      · exact keepsIn_pure _
      refine h.keepsIn_refill.bind fun ready ↦ ?_
      split
      · exact keepsIn_pure _
      refine keepsIn_get_bind fun self s hI ↦ (h.keepsIn_writeNew _).bind (fun ok ↦ ?_) self s hI
      split
      · exact keepsIn_pure _
      · exact (h.keepsIn_skip _).bind fun _ ↦ ih _

theorem keepsIn_addStep (isNotNeedSubDiff : Bool) :
    KeepsIn answer I K (addStep M fuel isNotNeedSubDiff) := by
  unfold addStep
  split
  · exact keepsIn_get_bind fun _ _ hI ↦ endsIn_pure hI
  · exact h.keepsIn_refill.bind fun _ ↦ keepsIn_get_bind fun _ _ hI ↦ endsIn_pure hI

theorem keepsIn_patchAddOldWithClip (isNotNeedSubDiff : Bool) (n : Nat) (oldPos : UInt32)
    (addLength : Nat) :
    KeepsIn answer I K (patchAddOldWithClip M fuel isNotNeedSubDiff n oldPos addLength) := by
  induction n generalizing oldPos addLength with
  | zero => exact keepsIn_stop h.stop
  | succ n ih =>
      unfold patchAddOldWithClip
      split
      · exact keepsIn_pure _
      refine (h.keepsIn_addStep isNotNeedSubDiff).bind fun step ↦ ?_
      split
      · exact keepsIn_pure _
      refine (h.keepsIn_readOld _ _).bind fun old ↦ ?_
      split
      · exact keepsIn_pure _
      refine keepsIn_get_bind fun self s hI ↦ (h.keepsIn_writeNew _).bind (fun ok ↦ ?_) self s hI
      split
      · exact keepsIn_pure _
      · exact (h.keepsIn_skip _).bind fun _ ↦ ih _ _

theorem keepsIn_readCover (newPosBack oldPosBack : UInt32) :
    KeepsIn answer I K (readCover M fuel newPosBack oldPosBack) := by
  refine (h.keepsIn_cacheUnpackUInt _ _ _).bind fun length ↦ ?_
  refine h.keepsIn_diffRead1byte.bind fun tag ↦ ?_
  refine (h.keepsIn_cacheUnpackUInt _ _ _).bind fun oldPos ↦ ?_
  exact (h.keepsIn_cacheUnpackUInt _ _ _).bind fun newPos ↦ keepsIn_pure _

theorem keepsIn_patchCovers (coverCount : Nat) (newPosBack oldPosBack : UInt32) :
    KeepsIn answer I K (patchCovers M fuel coverCount newPosBack oldPosBack) := by
  induction coverCount generalizing newPosBack oldPosBack with
  | zero => exact keepsIn_pure _
  | succ coverCount ih =>
      refine (h.keepsIn_readCover _ _).bind fun cover ↦ KeepsIn.bind ?_ fun copied ↦ ?_
      · unfold patchBefore
        split
        · exact h.keepsIn_patchCopyDiff _ _
        · exact keepsIn_pure _
      split
      · exact keepsIn_pure _
      refine (h.keepsIn_patchAddOldWithClip _ _ _ _).bind fun added ↦ ?_
      split
      · exact keepsIn_pure _
      · exact ih _ _

/-- Whatever the diff is, `hpatch_lite_patch` keeps the invariant. -/
theorem keepsIn_hpatchLitePatch (newSize : UInt32) :
    KeepsIn answer I K (hpatchLitePatch M fuel newSize) := by
  refine (h.keepsIn_cacheUnpackUInt _ _ _).bind fun coverCount ↦ ?_
  refine (h.keepsIn_patchCovers _ _ _).bind fun newPosBack ↦ ?_
  split
  · exact keepsIn_pure _
  · exact keepsIn_get_bind fun _ _ hI ↦ endsIn_pure hI

end DiffInvariant

/-! ## More fuel -/

section Le

variable (M : PatchMemory) (fuel : Nat)

theorem readDiff_le (dataSize : Nat) :
    Le (readDiff M fuel dataSize) (readDiff M (fuel + 1) dataSize)
  | none => .refl _
  | some tuz => (TuzTStream.decompress_le M fuel dataSize tuz).map fun _ ↦ rfl

theorem diffRead1byte_le : Le (diffRead1byte M fuel) (diffRead1byte M (fuel + 1)) :=
  (InputCache.read1byte_le (readDiff_le M fuel)).bind fun _ ↦ Le.refl _

theorem cacheUnpackUInt_le (n : Nat) (v isNext : UInt32) :
    Le (cacheUnpackUInt M fuel n v isNext) (cacheUnpackUInt M (fuel + 1) (n + 1) v isNext) := by
  induction n generalizing v isNext with
  | zero => exact le_stop _
  | succ n ih => exact (Le.refl _).ite ((diffRead1byte_le M fuel).bind fun _ ↦ ih _ _)

theorem refill_le : Le (refill M fuel) (refill M (fuel + 1)) :=
  (Le.refl _).bind fun _ ↦ (InputCache.update_le (readDiff_le M fuel)).ite (Le.refl _)

theorem patchCopyDiff_le (n copyLength : Nat) :
    Le (patchCopyDiff M fuel n copyLength) (patchCopyDiff M (fuel + 1) (n + 1) copyLength) := by
  induction n generalizing copyLength with
  | zero => exact le_stop _
  | succ n ih =>
      refine (Le.refl _).ite ((refill_le M fuel).bind fun _ ↦ (Le.refl _).ite ?_)
      refine (Le.refl _).bind fun _ ↦ (Le.refl _).bind fun _ ↦ (Le.refl _).ite ?_
      exact (Le.refl _).bind fun _ ↦ ih _

theorem addStep_le (isNotNeedSubDiff : Bool) :
    Le (addStep M fuel isNotNeedSubDiff) (addStep M (fuel + 1) isNotNeedSubDiff) :=
  (Le.refl _).ite ((refill_le M fuel).bind fun _ ↦ Le.refl _)

theorem patchAddOldWithClip_le (isNotNeedSubDiff : Bool) (n : Nat) (oldPos : UInt32)
    (addLength : Nat) :
    Le (patchAddOldWithClip M fuel isNotNeedSubDiff n oldPos addLength)
      (patchAddOldWithClip M (fuel + 1) isNotNeedSubDiff (n + 1) oldPos addLength) := by
  induction n generalizing oldPos addLength with
  | zero => exact le_stop _
  | succ n ih =>
      refine (Le.refl _).ite ((addStep_le M fuel _).bind fun _ ↦ (Le.refl _).ite ?_)
      refine (Le.refl _).bind fun old ↦ ?_
      cases old with
      | none => exact Le.refl _
      | some old =>
          refine (Le.refl _).bind fun _ ↦ (Le.refl _).bind fun _ ↦ (Le.refl _).ite ?_
          exact (Le.refl _).bind fun _ ↦ ih _ _

theorem readCover_le (newPosBack oldPosBack : UInt32) :
    Le (readCover M fuel newPosBack oldPosBack) (readCover M (fuel + 1) newPosBack oldPosBack) := by
  refine (cacheUnpackUInt_le M fuel _ _ _).bind fun _ ↦ (diffRead1byte_le M fuel).bind fun _ ↦ ?_
  refine (cacheUnpackUInt_le M fuel _ _ _).bind fun _ ↦ ?_
  exact (cacheUnpackUInt_le M fuel _ _ _).bind fun _ ↦ Le.refl _

theorem patchCovers_le (coverCount : Nat) (newPosBack oldPosBack : UInt32) :
    Le (patchCovers M fuel coverCount newPosBack oldPosBack)
      (patchCovers M (fuel + 1) coverCount newPosBack oldPosBack) := by
  induction coverCount generalizing newPosBack oldPosBack with
  | zero => exact Le.refl _
  | succ coverCount ih =>
      refine (readCover_le M fuel _ _).bind fun cover ↦ Le.bind ?_ fun _ ↦ (Le.refl _).ite ?_
      · exact (patchCopyDiff_le M fuel _ _).ite (Le.refl _)
      refine (patchAddOldWithClip_le M fuel _ _ _ _).bind fun _ ↦ (Le.refl _).ite ?_
      exact ih _ _

/-- What `hpatch_lite_patch` returns does not change with more fuel. -/
theorem hpatchLitePatch_le (newSize : UInt32) :
    Le (hpatchLitePatch M fuel newSize) (hpatchLitePatch M (fuel + 1) newSize) :=
  (cacheUnpackUInt_le M fuel _ _ _).bind fun _ ↦
    (patchCovers_le M fuel _ _ _).bind fun _ ↦ Le.refl _

end Le

end DualBank
