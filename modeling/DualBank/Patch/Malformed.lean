import DualBank.Patch.Contained
import DualBank.Patch.Head
import DualBank.Patch.Rebuilt

/-!
# Malformed patches

A patch is not authenticated before it is applied.  The checks of the libraries that would
refuse a malformed one are compiled out, and this file says what is left of them: which
patches keep `hpatch_lite_open` within its header buffer and tinyuz within its dictionary,
and what becomes of a patch without the tag of the format.
-/

namespace DualBank

open Lib FlashBackend

/-- `hpi_kHeadSize`, which is also the size of the header buffer. -/
def hpiKHeadSize : Nat := 4

namespace DeltaJob

variable {σ : Type} [FlashBackend σ] (J : DeltaJob σ) (s : σ) (M : PatchMemory)

/-- What a patch whose decoders are safe keeps to. -/
structure Refuses : Prop where
  /-- No request of `hpatch_lite_open` is larger than its buffer. -/
  requests : ∀ fuel, ∀ n ∈ (J.apply s M fuel).requests, n ≤ hpiKHeadSize
  /-- No access of tinyuz is outside of the dictionary. -/
  accesses : ∀ fuel, ∀ a ∈ (J.apply s M fuel).accesses, a.InRange
  /-- Without the tag `delta_apply_patch` returns false. -/
  result : ¬HasTag (J.patch s) → ∃ least, ∀ fuel ≥ least,
    (J.apply s M fuel).result = some false ∧
      (deltaApplyPatch (M.engine fuel) J.activeBase J.inactiveBase J.patchTotal
        J.expectedNewTotal s).1 = false

/-- The patch is opened, for an image of the size that is expected, and the diff in it is
handed to the decoders. -/
structure Opens : Prop where
  checked : J.Checked s
  head : HeadRead M (J.patch s)
  size : (headNewSize M (J.patch s)).toNat = J.expectedNewTotal
  body : BodyTaken (compressTypeByte M (J.patch s)) (behindHead M (J.patch s))

/-- Both lengths in the header fit, the second as far as it is used. -/
def LengthsFit : Prop :=
  J.Checked s → lenn (lengthsByte M (J.patch s)) ≤ hpiKHeadSize ∧
    (lenn (lengthsByte M (J.patch s)) = 0 ∨ 4 < J.patchTotal →
      lenu (lengthsByte M (J.patch s)) ≤ hpiKHeadSize)

/-- What a patch has to be for that. -/
structure WellFormed : Prop where
  lengths : J.LengthsFit s M
  /-- The distances that are read off compressed code stay inside the dictionary. -/
  copies : J.Opens s M → compressTypeByte M (J.patch s) = hpiCompressTypeTuz →
    ∀ dictSize code, TuzBody dictSize code (behindHead M (J.patch s)) →
      DistancesReach dictSize code
  /-- The tag is there, or the patch does not get as far as its decoders. -/
  tag : HasTag (J.patch s) ∨ ¬J.Opens s M

/-- The patch is of the format, and fits the images on a device that works. -/
structure Applicable : Prop where
  healthy : Healthy s
  checked : J.Checked s
  blank : ∀ i < J.expectedNewTotal, byte s (J.inactiveBase + i) = 0xFF
  format : ∃ newSize covers, PatchFile newSize covers (J.patch s) ∧
    (∀ c ∈ covers, c.Fits (J.oldImage s)) ∧
      (newImage (J.oldImage s) covers).length = J.expectedNewTotal ∧
        newSize.toNat = J.expectedNewTotal

/-- What of that is needed in any case. -/
structure Needs : Prop where
  lengths : J.LengthsFit s M
  /-- What HPatchLite asks for at first is expanded, whatever comes of it. -/
  copies : J.Opens s M → compressTypeByte M (J.patch s) = hpiCompressTypeTuz →
    ∀ dictSize code, TuzBody dictSize code (behindHead M (J.patch s)) →
      FirstDistancesReach dictSize code
  /-- A patch that only lacks the tag is applied. -/
  tag : J.Applicable s → HasTag (J.patch s)

variable {J s M}

/-- The requests fit where the two lengths do. -/
theorem requests_iff (fuel : Nat) :
    (∀ n ∈ (J.apply s M fuel).requests, n ≤ hpiKHeadSize) ↔
      J.LengthsFit s M := by
  unfold LengthsFit
  by_cases hchecked : J.Checked s
  · have hne : J.patch s ≠ [] := fun h ↦ hchecked.1 (by rw [← J.length_patch s, h]; rfl)
    rw [apply_eq, applyTo, if_pos hchecked, requests_eq _ _ _ _ _ _ hne, J.length_patch s,
      imp_iff_right hchecked, List.forall_mem_cons, List.forall_mem_cons,
      and_iff_right (show 4 ≤ hpiKHeadSize from Nat.le_refl 4)]
    refine and_congr_right fun _ ↦ ?_
    split
    · rw [imp_iff_right ‹_›, List.forall_mem_singleton]
    · exact iff_of_true (List.forall_mem_nil _) fun h ↦ absurd h ‹_›
  · rw [apply, if_neg hchecked]
    exact iff_of_true (List.forall_mem_nil _) fun h ↦ absurd h hchecked

/-! ## Runs -/

/-- A run on the bytes of the patch. -/
theorem apply_staged (hchecked : J.Checked s) (fuel : Nat) :
    J.apply s M fuel = patchTrace stagedAnswer StagedState.listener M fuel J.expectedNewTotal
      ⟨(J.start s).listener, J.patch s, s⟩ := by
  rw [apply_eq, applyTo, if_pos hchecked]

/-- The accesses stay inside the dictionary where the distances do. -/
theorem WellFormed.inRange (h : J.WellFormed s M) (fuel : Nat) :
    ∀ a ∈ (J.apply s M fuel).accesses, a.InRange := by
  by_cases hchecked : J.Checked s
  · rw [apply_staged hchecked]
    unfold patchTrace deltaTrace
    dsimp only
    rw [Calls.run_bind]
    by_cases hhead : HeadRead M (J.patch s)
    · rw [hpatchLiteOpen_staged M _ _ _ hhead]
      dsimp only
      split_ifs with hsize
      · exact List.forall_mem_nil _
      · rw [Calls.run_bind]
        refine inRange_deltaRunPatchTrace _ _ _ _ _ fun htuz dictSize code hbody ↦ ?_
        exact h.copies ⟨hchecked, hhead, not_not.1 hsize, .inr ⟨htuz, hbody.taken⟩⟩ htuz dictSize
          code hbody
    · rw [hpatchLiteOpen_staged_none M _ _ _ hhead]
      exact List.forall_mem_nil _
  · rw [apply, if_neg hchecked]
    exact List.forall_mem_nil _

/-- A patch that does not get as far as its decoders is refused. -/
theorem result_of_not_opens (h : ¬J.Opens s M) (fuel : Nat) :
    (J.apply s M fuel).result = some false := by
  by_cases hchecked : J.Checked s
  · rw [apply_staged hchecked]
    unfold patchTrace deltaTrace
    dsimp only
    rw [Calls.run_bind]
    by_cases hhead : HeadRead M (J.patch s)
    · rw [hpatchLiteOpen_staged M _ _ _ hhead]
      dsimp only
      split_ifs with hsize
      · rfl
      · have hbody := fun hbody ↦ h ⟨hchecked, hhead, not_not.1 hsize, hbody⟩
        rw [Calls.run_bind]
        have hfalse := result_deltaRunPatchTrace M fuel (headNewSize M (J.patch s))
          (J.start s).listener s hbody
        show Option.map _ (Option.map _ _) = _
        rw [hfalse]
        rfl
    · rw [hpatchLiteOpen_staged_none M _ _ _ hhead]
      rfl
  · rw [apply, if_neg hchecked]
    rfl

/-- A result of a run is what `delta_apply_patch` returns, with any more fuel. -/
theorem returns_of_result {fuel fuel' : Nat} {b : Bool} (h : (J.apply s M fuel).result = some b)
    (hle : fuel ≤ fuel') : (J.apply s M fuel').result = some b ∧
      (deltaApplyPatch (M.engine fuel') J.activeBase J.inactiveBase J.patchTotal J.expectedNewTotal
        s).1 = b := by
  rw [deltaApplyPatch_eq, apply_of_le h hle, h]
  exact ⟨rfl, rfl⟩

/-- Compressed code is handed to tinyuz once the patch is opened. -/
theorem firstDistancesReach (hin : ∀ fuel, ∀ a ∈ (J.apply s M fuel).accesses, a.InRange)
    (h : J.Opens s M) (htuz : compressTypeByte M (J.patch s) = hpiCompressTypeTuz)
    {dictSize : UInt32} {code : List UInt8}
    (hbody : TuzBody dictSize code (behindHead M (J.patch s))) :
    FirstDistancesReach dictSize code := by
  refine hbody.reach (headNewSize M (J.patch s)) (J.start s).listener s (M := M) fun fuel ↦ ?_
  have hfuel := hin fuel
  rw [apply_staged h.checked] at hfuel
  unfold patchTrace deltaTrace at hfuel
  dsimp only at hfuel
  rw [Calls.run_bind, hpatchLiteOpen_staged M _ _ _ h.head] at hfuel
  dsimp only at hfuel
  rw [if_neg (not_not.2 h.size), Calls.run_bind, htuz] at hfuel
  exact hfuel

/-- A patch that only lacks the tag is applied. -/
theorem Applicable.true (h : J.Applicable s) : ∃ fuel₀, ∀ fuel ≥ fuel₀,
    (deltaApplyPatch (M.engine fuel) J.activeBase J.inactiveBase J.patchTotal J.expectedNewTotal
      s).1 = true := by
  obtain ⟨newSize, covers, hpatch, hfits, hnew, hsize⟩ := h.format
  obtain ⟨ct, fuel₀, hruns⟩ := exists_run M h.checked.2.2.2.2 (rebuilds_start h.healthy h.blank)
    hpatch hfits hnew hsize
  refine ⟨fuel₀, fun fuel hfuel ↦ ?_⟩
  obtain ⟨st₁, st₂, l, hopen, hrun, left, hleft⟩ := hruns fuel hfuel
  exact (deltaApplyPatch_of_run M h.checked hnew hsize hopen hrun hleft).1

theorem Refuses.tag (h : J.Refuses s M) (happ : J.Applicable s) : HasTag (J.patch s) := by
  by_contra htag
  obtain ⟨least, hleast⟩ := h.result htag
  obtain ⟨fuel₀, hfuel₀⟩ := happ.true (M := M)
  have hfalse := (hleast (max least fuel₀) (Nat.le_max_left _ _)).2
  rw [hfuel₀ (max least fuel₀) (Nat.le_max_right _ _)] at hfalse
  cases hfalse

variable (J s M)

end DeltaJob

/-- A flash with the header of an image at slot A, and a patch at this address. -/
def stagedFlash (addr : Nat) (patch : List UInt8) : Mem :=
  Mem.write (Mem.write (fun _ ↦ 0xFF) slotAAddr [0xEF, 0xBE, 0xAD, 0xDE, 1, 0, 0, 0, 1, 0, 0, 0])
    addr patch

theorem patch_stagedFlash {J : DeltaJob Hw} {patch : List UInt8} (h : patch.length = J.patchTotal) :
    J.patch (Hw.reset (stagedFlash J.blobBase patch)) = patch := by
  rw [DeltaJob.patch, ← h]
  exact Mem.read_write _ _ patch

/-- A patch to the eight bytes 0xAA from slot A to slot B, compressed: one of them is data, and
seven are copied over the distance 1. -/
def copyPatch : List UInt8 :=
  [0x68, 0x49, 0x01, 0x41, 8, 4, 0, 0, 0,
    0xDF, 0x01, 0x00, 0x00, 0x08, 0xAA, 0x61, 0x01, 0x00, 0, 0]

def copyJob : DeltaJob Hw where
  activeBase := slotAAddr
  inactiveBase := slotBAddr
  patchTotal := 20
  expectedNewTotal := 8
  slots := slots_slotA_slotB
  fits := by decide

theorem wellFormed_copyJob :
    copyJob.WellFormed (Hw.reset (stagedFlash copyJob.blobBase copyPatch)) zeroMemory := by
  have hpatch := @patch_stagedFlash copyJob copyPatch rfl
  refine ⟨fun _ ↦ ?_, fun _ _ dictSize code hbody ↦ ?_, .inl ?_⟩
  · rw [hpatch]
    decide
  · rw [hpatch] at hbody
    have hcode : behindHead zeroMemory copyPatch =
        [4, 0, 0, 0, 0xDF, 0x01, 0x00, 0x00, 0x08, 0xAA, 0x61, 0x01, 0x00, 0, 0] := by decide
    rw [hcode] at hbody
    have hread : CodeReader.readAll CodeStep.isKnown 9
        (.start [0xDF, 0x01, 0x00, 0x00, 0x08, 0xAA, 0x61, 0x01, 0x00, 0, 0]) =
          some (List.replicate 5 none ++ List.replicate 7 (some 1)) := by decide +kernel
    have hreach : AllReach (le32 4 0 0 0) 0
        (List.replicate 5 none ++ List.replicate 7 (some 1)) := by
      decide +kernel
    cases hbody with
    | mk hsize _ _ => exact hsize ▸ distancesReach_of_readAll hread hreach
  · rw [hpatch]
    exact ⟨by decide, rfl, rfl, rfl⟩

/-- A patch whose lengths byte is 0x47: version 1, and seven bytes for the new size. -/
def longLength : List UInt8 := [0x68, 0x49, 0x00, 0x47, 0, 2, 0, 0, 0, 0, 0, 0]

def longJob : DeltaJob Hw where
  activeBase := slotAAddr
  inactiveBase := slotBAddr
  patchTotal := 12
  expectedNewTotal := firmwareHeaderSize
  slots := slots_slotA_slotB
  fits := by decide

/-- A compressed patch with a dictionary of one byte whose first code copies over the distance
5: the indices of the two reads lie before the dictionary. -/
example : (patchTrace stagedAnswer StagedState.listener zeroMemory 20 512
    ⟨⟨slotAAddr, slotBAddr, 0, 512, 511⟩,
      [0x68, 0x49, 0x01, 0x42, 0x00, 0x02, 0x01, 0x00, 0x00, 0x00, 0x00, 0x05],
      Hw.reset (stagedFlash slotBAddr [])⟩).accesses.map DictAccess.index =
        [0xFFFFFFFB, 0, 0xFFFFFFFB, 0] := by
  decide +kernel

/-- A patch without the tag that is applied. -/
example : (patchTrace stagedAnswer StagedState.listener zeroMemory 20 1
    ⟨⟨slotAAddr, slotBAddr, 0, 1, 511⟩, [0, 0, 0, 0x01, 0x01, 1, 0, 0, 1, 0xAA],
      Hw.reset (stagedFlash slotBAddr [])⟩).result = some true := by
  decide +kernel

end DualBank
