import DualBank.Ota.InPlace
import DualBank.Patch.HpatchLite

/-!
# Applying a staged patch

`delta_apply_patch` with the libraries filled in: what it returns, the sizes that
`hpatch_lite_open` requests, and the dictionary accesses of tinyuz.  A run on a device is a
run on the string of bytes that is staged there as the patch.
-/

namespace DualBank

open Lib FlashBackend Stateful

/-- Memory that holds zeros. -/
def zeroMemory : PatchMemory := ⟨[0, 0, 0, 0], fun _ ↦ 0, fun _ _ ↦ 0⟩

/-! ## The program -/

section Program

variable (M : PatchMemory) (fuel : Nat)

/-- `hpatch_lite_patch` in its half of `temp_cache`, with the stream it leaves. -/
def hpatchLitePatchFrom (newSize : UInt32) (diffData : DiffData) :
    PatchProgram (Option Bool × DiffData) :=
  (hpatchLitePatch M fuel newSize (.start (deltaPatchCacheSize / 2) diffData)).bind fun r ↦
    .ret (r.1, r.2.inputStream)

/-- The accesses on the record of a stream. -/
def DiffData.accesses : DiffData → List DictAccess
  | none => []
  | some tuz => tuz.accesses

/-- `delta_run_patch` with the dictionary accesses; `none` where it has not returned with
the fuel, or never will because an assertion fails. -/
def deltaRunPatchTrace (ct : UInt8) (newSize : UInt32) :
    PatchProgram (Option Bool × List DictAccess) :=
  if ct = hpiCompressTypeTuz then
    tuzTStreamReadDictSize.bind fun
      | none => .ret (none, [])
      | some dictSize =>
        let dictSize := if dictSize - 1 ≥ tuzKMaxOfDictSize then 0 else dictSize
        if dictSize = 0 ∨ dictSize > deltaTuzDictMax then .ret (some false, [])
        else
          match TuzTStream.start M dictSize deltaTuzDecBuf with
          | none => .ret (none, [])
          | some tuz => (hpatchLitePatchFrom M fuel newSize (some tuz)).bind fun r ↦
            .ret (r.1, DiffData.accesses r.2)
  else if ct ≠ hpiCompressTypeNo then .ret (some false, [])
  else (hpatchLitePatchFrom M fuel newSize none).bind fun r ↦ .ret (r.1, DiffData.accesses r.2)

/-- A size of the dictionary that `delta_run_patch` keeps. -/
theorem dictSize_kept {dictSize : UInt32} (hpos : 0 < dictSize)
    (hmax : dictSize ≤ deltaTuzDictMax) :
    ¬dictSize - 1 ≥ tuzKMaxOfDictSize ∧ ¬(dictSize = 0 ∨ dictSize > deltaTuzDictMax) := by
  have hne : dictSize ≠ 0 := fun hzero ↦ UInt32.lt_irrefl _ (hzero ▸ hpos)
  have hsub := toNat_sub_one hne
  have hle := UInt32.le_iff_toNat_le.1 hmax
  have hlimit : deltaTuzDictMax.toNat = tuzKMaxOfDictSize.toNat := rfl
  refine ⟨?_, not_or.2 ⟨hne, UInt32.not_lt.2 hmax⟩⟩
  rw [ge_iff_le, UInt32.le_iff_toNat_le]
  omega

/-- What `delta_apply_patch` runs: whether the libraries report success, and the new size
of the patch. -/
def deltaTrace (expectedNewTotal : Nat) :
    PatchProgram (Option (Bool × UInt32) × List DictAccess) :=
  (hpatchLiteOpen M.headBuf).bind fun
    | none => .ret (some (false, 0), [])
    | some (ct, newSize) =>
      if newSize.toNat ≠ expectedNewTotal then .ret (some (false, 0), [])
      else (deltaRunPatchTrace M fuel ct newSize).bind fun r ↦
        .ret (r.1.map fun ok ↦ (ok, newSize), r.2)

/-- The engine of `delta_patch.c` that the two libraries make; a run that does not return
counts as a failure here. -/
def PatchMemory.engine : PatchEngine where
  headBuf := M.headBuf
  TuzStream := TuzTStream
  tuzTStreamReadDictSize := tuzTStreamReadDictSize.bind fun v ↦ .ret (v.getD 0)
  tuzTStreamOpen dictSize := .ret (TuzTStream.start M dictSize deltaTuzDecBuf)
  hpatchLitePatch diffData newSize :=
    (hpatchLitePatchFrom M fuel newSize diffData).bind fun r ↦ .ret (r.1.getD false)

/-- On the record or not, `delta_run_patch` returns the same. -/
theorem deltaRunPatch_engine (ct : UInt8) (newSize : UInt32) :
    deltaRunPatch (M.engine fuel) ct newSize =
      (deltaRunPatchTrace M fuel ct newSize).bind fun r ↦ .ret (r.1.getD false) := by
  unfold deltaRunPatch deltaRunPatchTrace
  split_ifs with htuz hno
  · unfold hpatchTuzReservedMemSize PatchMemory.engine
    dsimp only
    simp only [Calls.bind_assoc, Calls.ret_bind]
    congr 1
    funext v
    cases v with
    | none => rfl
    | some dictSize =>
        simp only [Option.getD_some]
        split_ifs with h₁ h₂
        · rfl
        · rfl
        · rfl
        · cases TuzTStream.start M dictSize deltaTuzDecBuf with
          | none => rfl
          | some tuz =>
              dsimp only
              rw [Calls.bind_assoc]
              rfl
  · rfl
  · rw [Calls.bind_assoc]
    rfl

end Program

/-! ## More fuel -/

section Approx

variable (M : PatchMemory) (fuel : Nat)

theorem hpatchLitePatchFrom_approx (newSize : UInt32) (diffData : DiffData) :
    Approx (hpatchLitePatchFrom M fuel newSize diffData)
      (hpatchLitePatchFrom M (fuel + 1) newSize diffData) :=
  (hpatchLitePatch_le M fuel newSize _).map fun _ ↦ rfl

theorem deltaRunPatchTrace_approx (ct : UInt8) (newSize : UInt32) :
    Approx (deltaRunPatchTrace M fuel ct newSize) (deltaRunPatchTrace M (fuel + 1) ct newSize) := by
  unfold deltaRunPatchTrace
  split_ifs
  · refine Approx.bind_left _ fun v ↦ ?_
    cases v with
    | none => exact .refl _
    | some dictSize =>
        dsimp only
        generalize (if dictSize - 1 ≥ tuzKMaxOfDictSize then 0 else dictSize) = size
        split
        · exact .refl _
        · cases TuzTStream.start M size deltaTuzDecBuf with
          | none => exact .refl _
          | some tuz => exact (hpatchLitePatchFrom_approx M fuel newSize _).map fun _ ↦ rfl
  · exact .refl _
  · exact (hpatchLitePatchFrom_approx M fuel newSize _).map fun _ ↦ rfl

theorem deltaTrace_approx (expectedNewTotal : Nat) :
    Approx (deltaTrace M fuel expectedNewTotal) (deltaTrace M (fuel + 1) expectedNewTotal) := by
  refine Approx.bind_left _ fun r ↦ ?_
  rcases r with _ | ⟨ct, newSize⟩
  · exact .refl _
  · dsimp only
    split
    · exact .refl _
    · exact (deltaRunPatchTrace_approx M fuel ct newSize).map fun _ ↦ rfl

end Approx

/-- The final comparison of the sizes, and what the libraries report. -/
def DeltaListener.accepts (listener : DeltaListener) (r : Bool × UInt32) : Bool :=
  r.1 && (listener.newWritten == listener.newExpected && r.2.toNat == listener.newWritten)

/-! ## Runs -/

/-- What a run of `delta_apply_patch` shows. -/
structure PatchTrace where
  /-- The sizes that `hpatch_lite_open` requests from `diff_stream_read`. -/
  requests : List Nat
  /-- The accesses of tinyuz to its dictionary. -/
  accesses : List DictAccess
  /-- What is returned; `none` where the run has not returned with the fuel, or never
  will because an assertion fails. -/
  result : Option Bool

/-- The run of a patch that is refused before it is opened. -/
def PatchTrace.refused : PatchTrace := ⟨[], [], some false⟩

/-- The size of a request, if the call is one. -/
def PatchOp.addRequest (requests : List Nat) : (op : PatchOp) → op.Res → List Nat
  | .readDiff dataSize, _ => requests ++ [dataSize]
  | .readOld _ _, _ => requests
  | .writeNew _, _ => requests

/-- A run in an environment that answers the callbacks. -/
def patchTrace {S : Type} (answer : (op : PatchOp) → S → op.Res × S) (listener : S → DeltaListener)
    (M : PatchMemory) (fuel : Nat) (expectedNewTotal : Nat) (st : S) : PatchTrace :=
  let opened := (hpatchLiteOpen M.headBuf).run (Calls.withLog answer PatchOp.addRequest) (st, [])
  let r := (deltaTrace M fuel expectedNewTotal).run answer st
  { requests := opened.2.2
    accesses := r.1.2
    result := r.1.1.map (listener r.2).accepts }

/-- A run that has returned is the same with more fuel. -/
theorem patchTrace_succ {S : Type} {answer : (op : PatchOp) → S → op.Res × S}
    {listener : S → DeltaListener} {M : PatchMemory} {fuel n : Nat} {st : S} {b : Bool}
    (h : (patchTrace answer listener M fuel n st).result = some b) :
    patchTrace answer listener M (fuel + 1) n st = patchTrace answer listener M fuel n st := by
  obtain ⟨r, hr, -⟩ := Option.map_eq_some_iff.1 h
  unfold patchTrace
  rw [(deltaTrace_approx M fuel n).run answer st hr]

/-- Related environments show the same. -/
theorem patchTrace_sim {S T : Type} {answer : (op : PatchOp) → S → op.Res × S}
    {other : (op : PatchOp) → T → op.Res × T} {listener : S → DeltaListener}
    {listener' : T → DeltaListener} {R : S → T → Prop}
    (hR : ∀ op s t, R s t → (answer op s).1 = (other op t).1 ∧ R (answer op s).2 (other op t).2)
    (hlistener : ∀ s t, R s t → listener s = listener' t) (M : PatchMemory) (fuel n : Nat) {s : S}
    {t : T} (h : R s t) :
    patchTrace answer listener M fuel n s = patchTrace other listener' M fuel n t := by
  have hlog := Calls.run_sim
    (R := fun (s : S × List Nat) (t : T × List Nat) ↦ R s.1 t.1 ∧ s.2 = t.2)
    (Calls.withLog_sim answer PatchOp.addRequest hR) (hpatchLiteOpen M.headBuf)
    (s := (s, [])) (t := (t, [])) ⟨h, rfl⟩
  obtain ⟨hres, hnext⟩ := Calls.run_sim hR (deltaTrace M fuel n) h
  unfold patchTrace
  dsimp only
  rw [hlog.2.2, hres, hlistener _ _ hnext]

section Device

variable {σ : Type} [FlashBackend σ]

/-- The callbacks over a patch as a string of bytes. -/
structure StagedState (σ : Type) where
  listener : DeltaListener
  /-- The bytes that `diff_stream_read` has not returned yet. -/
  patch : List UInt8
  dev : σ

/-- `diff_stream_read` on a string of bytes. -/
def stagedRead (dataSize : Nat) (st : StagedState σ) : Option (List UInt8) × StagedState σ :=
  if dataSize = 0 then (some [], st)
  else if st.patch = [] then (none, st)
  else (some (st.patch.take dataSize), { st with patch := st.patch.drop dataSize })

/-- The state the other two callbacks work on. -/
def StagedState.toDelta (st : StagedState σ) : DeltaState σ := ⟨st.listener, ⟨0, 0, 0⟩, st.dev⟩

/-- The answer to a call of the library. -/
def stagedAnswer : (op : PatchOp) → StagedState σ → op.Res × StagedState σ
  | .readDiff n, st => stagedRead n st
  | .readOld pos n, st => (readOldCb pos n st.toDelta, st)
  | .writeNew data, st =>
    let r := writeNewCb data st.toDelta
    (r.1, { st with listener := r.2.listener, dev := r.2.dev })

namespace DeltaJob

variable (J : DeltaJob σ) (s : σ)

/-- The checks of `delta_apply_patch` before the patch is opened. -/
def Checked : Prop :=
  J.patchTotal ≠ 0 ∧ J.expectedNewTotal ≠ 0 ∧
    (FirmwareHeader.ofMem (byte s) J.activeBase).magic = firmwareMagic ∧
    (FirmwareHeader.ofMem (byte s) J.activeBase).imageSize ≠ 0 ∧ J.activeTotal s ≤ slotSize

instance : Decidable (J.Checked s) := inferInstanceAs (Decidable (_ ∧ _ ∧ _ ∧ _ ∧ _))

variable {J s} in
/-- The patch of a job has room behind the image. -/
theorem checked_iff :
    J.Checked s ↔ DeltaChecks J.activeBase J.patchTotal J.expectedNewTotal s :=
  and_congr_right fun _ ↦ and_congr_right fun _ ↦ (and_iff_right J.fits).symm

/-- The bytes that are staged as the patch. -/
def patch : List UInt8 := (byte s).read J.blobBase J.patchTotal

theorem length_patch : (J.patch s).length = J.patchTotal := Mem.length_read _ _ _

/-- A run of `delta_apply_patch`. -/
def apply (M : PatchMemory) (fuel : Nat) : PatchTrace :=
  if J.Checked s then
    patchTrace patchAnswer DeltaState.listener M fuel J.expectedNewTotal (J.start s)
  else .refused

/-- A run of `delta_apply_patch` with these bytes as the patch. -/
def applyTo (M : PatchMemory) (fuel : Nat) (patch : List UInt8) : PatchTrace :=
  if J.Checked s then
    patchTrace stagedAnswer StagedState.listener M fuel J.expectedNewTotal
      ⟨(J.start s).listener, patch, s⟩
  else .refused

variable {J s}

/-- A state on the device, and the same with the patch as a string. -/
def SameAt (J : DeltaJob σ) (s : σ) (st : DeltaState σ) (t : StagedState σ) : Prop :=
  ∃ log : PatchLog, J.Inv s st log ∧ t.listener = st.listener ∧ t.dev = st.dev ∧
    t.patch = (J.patch s).drop log.diff.length

/-- What is left of the string lies where the stream stands. -/
theorem SameAt.patch_eq {st : DeltaState σ} {t : StagedState σ} {log : PatchLog}
    (hinv : J.Inv s st log) (hpatch : t.patch = (J.patch s).drop log.diff.length) :
    t.patch = (byte st.dev).read (st.stream.base + st.stream.pos)
      (st.stream.len - st.stream.pos) := by
  rw [hpatch, DeltaJob.patch, Mem.drop_read, hinv.stream]
  refine Mem.read_congr fun x hx ↦ (hinv.frame x (.inr ?_)).symm
  exact Nat.le_trans end_le_blobBase (Nat.le_trans (Nat.le_add_right _ _) hx.1)

/-- What `diff_stream_read` gets is what the string goes on with. -/
theorem SameAt.read {st : DeltaState σ} {t : StagedState σ} (h : J.SameAt s st t) (n : Nat) :
    (diffStreamRead n st).1 = (stagedRead n t).1 ∧
      J.SameAt s (diffStreamRead n st).2 (stagedRead n t).2 := by
  obtain ⟨log, hinv, hlistener, hdev, hpatch⟩ := h
  have hleft := SameAt.patch_eq hinv hpatch
  have hnext := hinv.readDiff n
  have hlen : t.patch.length = st.stream.len - st.stream.pos := by rw [hleft, Mem.length_read]
  unfold diffStreamRead at hnext ⊢
  unfold stagedRead
  dsimp only at hnext ⊢
  by_cases h0 : n = 0
  · rw [if_pos h0] at hnext ⊢
    rw [if_pos h0]
    exact ⟨rfl, log, hinv, hlistener, hdev, hpatch⟩
  rw [if_neg h0] at hnext ⊢
  rw [if_neg h0]
  have hwant : (if n > st.stream.len - st.stream.pos then st.stream.len - st.stream.pos else n) =
      min n t.patch.length := by
    rw [hlen]
    split_ifs <;> omega
  rw [hwant] at hnext ⊢
  by_cases hempty : t.patch = []
  · have hzero : min n t.patch.length = 0 := by rw [hempty, List.length_nil, Nat.min_zero]
    rw [if_pos hzero] at hnext ⊢
    rw [if_pos hempty]
    exact ⟨rfl, log, hinv, hlistener, hdev, hpatch⟩
  · have hpos : ¬min n t.patch.length = 0 := by
      have := List.length_pos_iff.2 hempty
      omega
    rw [if_neg hpos] at hnext ⊢
    rw [if_neg hempty]
    have hdata : (byte st.dev).read (st.stream.base + st.stream.pos) (min n t.patch.length) =
        t.patch.take n := by
      rw [hlen]
      conv_rhs => rw [hleft]
      rw [Mem.take_read]
    refine ⟨congrArg some hdata, _, hnext, hlistener, hdev, ?_⟩
    show t.patch.drop n = (J.patch s).drop (log.diff ++ _).length
    rw [Option.getD_some, List.length_append, Mem.length_read, ← List.drop_drop, ← hpatch]
    by_cases hle : n ≤ t.patch.length
    · rw [Nat.min_eq_left hle]
    · rw [Nat.min_eq_right (Nat.le_of_not_le hle), List.drop_length,
        List.drop_of_length_le (Nat.le_of_not_le hle)]

/-- The callbacks answer the same on the device and on the string. -/
theorem SameAt.answer (op : PatchOp) (st : DeltaState σ) (t : StagedState σ) (h : J.SameAt s st t) :
    (patchAnswer op st).1 = (stagedAnswer op t).1 ∧
      J.SameAt s (patchAnswer op st).2 (stagedAnswer op t).2 := by
  cases op with
  | readDiff n => exact h.read n
  | readOld pos n =>
      obtain ⟨log, hinv, hlistener, hdev, hpatch⟩ := h
      refine ⟨?_, log, hinv, hlistener, hdev, hpatch⟩
      show readOldCb pos n st = readOldCb pos n t.toDelta
      unfold readOldCb StagedState.toDelta
      rw [hlistener, hdev]
  | writeNew data =>
      obtain ⟨log, hinv, hlistener, hdev, hpatch⟩ := h
      have hnext := hinv.writeNew data
      have hsame : writeNewCb data t.toDelta =
          ((writeNewCb data st).1, { (writeNewCb data st).2 with stream := ⟨0, 0, 0⟩ }) := by
        unfold writeNewCb StagedState.toDelta
        rw [hlistener, hdev]
        dsimp only
        split_ifs <;> rfl
      show (writeNewCb data st).1 = (writeNewCb data t.toDelta).1 ∧ _
      refine ⟨by rw [hsame], _, hnext, ?_, ?_, hpatch⟩
      · show (writeNewCb data t.toDelta).2.listener = _
        rw [hsame]
        rfl
      · show (writeNewCb data t.toDelta).2.dev = _
        rw [hsame]
        rfl

/-- A run on a device is a run on the bytes that are staged there. -/
theorem apply_eq (M : PatchMemory) (fuel : Nat) :
    J.apply s M fuel = J.applyTo s M fuel (J.patch s) := by
  unfold apply applyTo
  by_cases hchecked : J.Checked s
  · rw [if_pos hchecked, if_pos hchecked]
    exact patchTrace_sim SameAt.answer (fun st t ⟨_, _, h, _⟩ ↦ h.symm) M fuel _
      ⟨.empty, J.inv_start s, rfl, rfl, rfl⟩
  · rw [if_neg hchecked, if_neg hchecked]

/-- A run of `delta_apply_patch` that has returned is the same with more fuel, so the result
does not depend on it. -/
theorem apply_of_le {M : PatchMemory} {fuel fuel' : Nat} {b : Bool}
    (h : (J.apply s M fuel).result = some b) (hle : fuel ≤ fuel') :
    J.apply s M fuel' = J.apply s M fuel := by
  induction fuel', hle using Nat.le_induction with
  | base => rfl
  | succ fuel' _ ih =>
      rw [← ih] at h
      rw [← ih]
      unfold apply at h ⊢
      by_cases hchecked : J.Checked s
      · rw [if_pos hchecked] at h ⊢
        rw [if_pos hchecked]
        exact patchTrace_succ h
      · rw [if_neg hchecked, if_neg hchecked]

/-- `delta_apply_patch` on the engine of the two libraries returns what the run returns. -/
theorem deltaApplyPatch_eq (M : PatchMemory) (fuel : Nat) :
    (deltaApplyPatch (M.engine fuel) J.activeBase J.inactiveBase J.patchTotal J.expectedNewTotal
      s).1 = (J.apply s M fuel).result.getD false := by
  by_cases hchecked : J.Checked s
  · rw [J.deltaApplyPatch_start _ (checked_iff.1 hchecked)]
    unfold deltaOpened apply patchTrace
    rw [if_pos hchecked]
    dsimp only
    unfold deltaTrace
    rw [Calls.run_bind]
    have hhead : (M.engine fuel).headBuf = M.headBuf := rfl
    rw [hhead]
    rcases (hpatchLiteOpen M.headBuf).run patchAnswer (J.start s) with ⟨_ | ⟨ct, newSize⟩, st⟩
    · rfl
    · dsimp only
      by_cases hsize : newSize.toNat ≠ J.expectedNewTotal
      · rw [if_pos hsize, if_pos hsize]
        rfl
      · rw [if_neg hsize, if_neg hsize, deltaRunPatch_engine, Calls.run_bind, Calls.run_bind]
        rcases (deltaRunPatchTrace M fuel ct newSize).run patchAnswer st with ⟨⟨_ | ok, l⟩, st'⟩
        · rfl
        · rfl
  · have hrefused : (J.apply s M fuel).result.getD false = false := by
      rw [apply, if_neg hchecked]
      rfl
    rw [hrefused, deltaApplyPatch_of_not_checks _ _ fun h ↦ hchecked (checked_iff.2 h)]

end DeltaJob

end Device

end DualBank
