import DualBank.Ota.Delta

/-!
# Patching in place

The patch blob lies at the tail of the slot whose head the new image is written to,
and the library may read and write in any order.  What it reads is still the blob as
it was received and the running image, and what it writes stays clear of both: the
two regions are disjoint, and each callback bounds its own range.  None of this needs
a flash without faults.
-/

namespace DualBank

open Lib FlashBackend

/-- A patch to apply: the two slots, and the sizes that `handle_start_delta` admits. -/
structure DeltaJob (σ : Type) [FlashBackend σ] where
  activeBase : Nat
  inactiveBase : Nat
  patchTotal : Nat
  expectedNewTotal : Nat
  slots : activeBase = slotAAddr ∧ inactiveBase = slotBAddr ∨
    activeBase = slotBAddr ∧ inactiveBase = slotAAddr
  fits : expectedNewTotal + patchTotal ≤ flashOtaSlotSpan σ

/-- What the library was given and what it wrote, in order. -/
structure PatchLog where
  /-- The bytes that the calls of `diff_stream_read` returned. -/
  diff : List UInt8
  /-- The reads of the old image, each with its position. -/
  old : List (Nat × List UInt8)
  /-- The data that `write_new_cb` accepted. -/
  new : List UInt8

namespace PatchLog

def empty : PatchLog := ⟨[], [], []⟩

def add (log : PatchLog) : (op : PatchOp) → op.Res → PatchLog
  | .readDiff _, (r : Option (List UInt8)) => { log with diff := log.diff ++ r.getD [] }
  | .readOld pos _, (r : Option (List UInt8)) =>
    { log with old := log.old ++ (r.map fun bs ↦ (pos, bs)).toList }
  | .writeNew data, (r : Bool) => { log with new := log.new ++ (if r then data else []) }

end PatchLog

namespace DeltaJob

variable {σ : Type} [FlashBackend σ] (J : DeltaJob σ) (s₀ : σ)

/-- The flash address of the patch blob. -/
def blobBase : Nat := J.inactiveBase + flashOtaSlotSpan σ - J.patchTotal

/-- The size of the active image. -/
def activeTotal : Nat := (FirmwareHeader.ofMem (byte s₀) J.activeBase).logicalTotal

/-- The state `delta_apply_patch` hands to the libraries. -/
def start : DeltaState σ where
  listener := ⟨J.activeBase, J.inactiveBase, 0, J.expectedNewTotal, J.activeTotal s₀⟩
  stream := ⟨J.blobBase, 0, J.patchTotal⟩
  dev := s₀

/-- What holds between two callbacks. -/
structure Inv (st : DeltaState σ) (log : PatchLog) : Prop where
  listener : st.listener =
    ⟨J.activeBase, J.inactiveBase, log.new.length, J.expectedNewTotal, J.activeTotal s₀⟩
  stream : st.stream = ⟨J.blobBase, log.diff.length, J.patchTotal⟩
  diff_le : log.diff.length ≤ J.patchTotal
  diff : (byte s₀).read J.blobBase log.diff.length = log.diff
  old : ∀ r ∈ log.old, r.1 + r.2.length ≤ J.activeTotal s₀ ∧
    (byte s₀).read (J.activeBase + r.1) r.2.length = r.2
  new_le : log.new.length ≤ J.expectedNewTotal
  new : (byte st.dev).read J.inactiveBase log.new.length = log.new
  frame : ∀ x, x < J.inactiveBase ∨ J.inactiveBase + J.expectedNewTotal ≤ x →
    byte st.dev x = byte s₀ x

theorem inv_start : J.Inv s₀ (J.start s₀) .empty where
  listener := rfl
  stream := rfl
  diff_le := Nat.zero_le _
  diff := rfl
  old r hr := by cases hr
  new_le := Nat.zero_le _
  new := rfl
  frame _ _ := rfl

variable {J s₀} {st : DeltaState σ} {log : PatchLog}

/-- The blob lies behind what may be written. -/
theorem end_le_blobBase : J.inactiveBase + J.expectedNewTotal ≤ J.blobBase := by
  have h := J.fits
  unfold blobBase
  omega

/-- The active slot lies outside what may be written. -/
theorem active_outside {x : Nat} (h₁ : J.activeBase ≤ x) (h₂ : x < J.activeBase + slotSize) :
    x < J.inactiveBase ∨ J.inactiveBase + J.expectedNewTotal ≤ x := by
  have hfit := J.fits
  have hspan := span_le_slotSize (σ := σ)
  have hAB := slotA_before_slotB
  rcases J.slots with ⟨ha, hb⟩ | ⟨ha, hb⟩
  · exact .inl (by omega)
  · exact .inr (by omega)

/-! ## One callback -/

/-- The next bytes of the blob, as long as there are any. -/
theorem Inv.diff_append (h : J.Inv s₀ st log) {k : Nat}
    (hk : log.diff.length + k ≤ J.patchTotal) :
    J.Inv s₀ { st with stream := { st.stream with pos := st.stream.pos + k } }
      { log with diff :=
          log.diff ++ (byte st.dev).read (st.stream.base + st.stream.pos) k } := by
  have hbase : st.stream.base = J.blobBase := by rw [h.stream]
  have hpos : st.stream.pos = log.diff.length := by rw [h.stream]
  have hlen : st.stream.len = J.patchTotal := by rw [h.stream]
  -- the bytes read now are those that were there at the start
  have hread : (byte st.dev).read (J.blobBase + log.diff.length) k =
      (byte s₀).read (J.blobBase + log.diff.length) k := by
    refine Mem.read_congr fun x hx ↦ h.frame x (.inr ?_)
    exact Nat.le_trans end_le_blobBase (Nat.le_trans (Nat.le_add_right _ _) hx.1)
  rw [hbase, hpos, hread]
  refine { h with stream := ?_, diff_le := ?_, diff := ?_ }
  · simp only [List.length_append, Mem.length_read, hlen, hbase]
  · simp only [List.length_append, Mem.length_read]
    exact hk
  · simp only [List.length_append, Mem.length_read]
    rw [Mem.read_add, h.diff]

theorem Inv.readDiff (h : J.Inv s₀ st log) (n : Nat) :
    J.Inv s₀ (diffStreamRead n st).2 (log.add (.readDiff n) (diffStreamRead n st).1) := by
  have hsame : J.Inv s₀ st { log with diff := log.diff ++ [] } := by
    rw [List.append_nil]; exact h
  have hpos : st.stream.pos = log.diff.length := by rw [h.stream]
  have hlen : st.stream.len = J.patchTotal := by rw [h.stream]
  have hle := h.diff_le
  unfold diffStreamRead
  dsimp only
  by_cases h0 : n = 0
  · rw [if_pos h0]; exact hsame
  · rw [if_neg h0]
    generalize hw : (if n > st.stream.len - st.stream.pos then st.stream.len - st.stream.pos
      else n) = want
    have hwle : want ≤ st.stream.len - st.stream.pos := by split_ifs at hw <;> omega
    by_cases hz : want = 0
    · rw [if_pos hz]; exact hsame
    · rw [if_neg hz]
      exact h.diff_append (by omega)

theorem Inv.readOld (h : J.Inv s₀ st log) (hactive : J.activeTotal s₀ ≤ slotSize)
    (readFromPos n : Nat) :
    J.Inv s₀ st (log.add (.readOld readFromPos n) (readOldCb readFromPos n st)) := by
  have hbase : st.listener.activeBase = J.activeBase := by rw [h.listener]
  have htotal : st.listener.activeLogicalTotal = J.activeTotal s₀ := by rw [h.listener]
  have hsame : J.Inv s₀ st { log with old := log.old ++ [] } := by
    rw [List.append_nil]; exact h
  unfold readOldCb
  rw [hbase, htotal]
  by_cases h₁ : readFromPos > J.activeTotal s₀
  · rw [if_pos h₁]; exact hsame
  · rw [if_neg h₁]
    by_cases h₂ : n > J.activeTotal s₀ - readFromPos
    · rw [if_pos h₂]; exact hsame
    · rw [if_neg h₂]
      refine { h with old := fun r hr ↦ ?_ }
      rcases List.mem_append.1 hr with hr | hr
      · exact h.old r hr
      · have hr' : r = (readFromPos, (byte st.dev).read (J.activeBase + readFromPos) n) :=
          List.mem_singleton.1 hr
        subst hr'
        simp only [Mem.length_read]
        refine ⟨by omega, Mem.read_congr fun x hx ↦ (h.frame x (active_outside ?_ ?_)).symm⟩
        · exact Nat.le_trans (Nat.le_add_right _ _) hx.1
        · have := hx.2; omega

theorem Inv.writeNew (h : J.Inv s₀ st log) (data : List UInt8) :
    J.Inv s₀ (writeNewCb data st).2 (log.add (.writeNew data) (writeNewCb data st).1) := by
  have hsame : J.Inv s₀ st { log with new := log.new ++ [] } := by
    rw [List.append_nil]; exact h
  have hbase : st.listener.inactiveBase = J.inactiveBase := by rw [h.listener]
  have hwritten : st.listener.newWritten = log.new.length := by rw [h.listener]
  have hexp : st.listener.newExpected = J.expectedNewTotal := by rw [h.listener]
  have hle := h.new_le
  unfold writeNewCb
  rw [hbase, hwritten, hexp]
  by_cases hlong : data.length > J.expectedNewTotal - log.new.length
  · rw [if_pos hlong]
    exact hsame
  · rw [if_neg hlong]
    dsimp only
    -- the write stays behind what was written and in front of the end of the image
    have hfr : ∀ x, x < J.inactiveBase + log.new.length ∨
        J.inactiveBase + log.new.length + data.length ≤ x →
        byte (flashProgramBytes (J.inactiveBase + log.new.length) data st.dev).2 x =
          byte st.dev x := fun x hx ↦ programBytes_frame st.dev hx
    have hold : (byte (flashProgramBytes (J.inactiveBase + log.new.length) data st.dev).2).read
        J.inactiveBase log.new.length = log.new := by
      rw [Mem.read_congr fun x hx ↦ hfr x (.inl hx.2), h.new]
    have hframe : ∀ x, x < J.inactiveBase ∨ J.inactiveBase + J.expectedNewTotal ≤ x →
        byte (flashProgramBytes (J.inactiveBase + log.new.length) data st.dev).2 x =
          byte s₀ x := fun x hx ↦ by rw [hfr x (by omega), h.frame x hx]
    by_cases hok : (flashProgramBytes (J.inactiveBase + log.new.length) data st.dev).1 = .ok
    · rw [if_neg (not_not.mpr hok)]
      refine { h with listener := ?_, new_le := ?_, new := ?_, frame := hframe }
      · simp only [PatchLog.add, if_true, List.length_append, h.listener]
      · simp only [PatchLog.add, if_true, List.length_append]
        omega
      · simp only [PatchLog.add, if_true, List.length_append]
        rw [Mem.read_add, hold, programBytes_read hok]
    · rw [if_pos hok]
      refine { h with listener := ?_, new_le := ?_, new := ?_, frame := hframe }
      · simp only [PatchLog.add, Bool.false_eq_true, if_false, List.append_nil, h.listener]
      · simp only [PatchLog.add, Bool.false_eq_true, if_false, List.append_nil]
        exact hle
      · simp only [PatchLog.add, Bool.false_eq_true, if_false, List.append_nil]
        exact hold

/-! ## Runs -/

variable (J s₀) in
/-- The device and the log after a program of the library. -/
def after {α : Type} (p : PatchProgram α) : DeltaState σ × PatchLog :=
  (p.run (Calls.withLog patchAnswer PatchLog.add) (J.start s₀, .empty)).2

/-- Every callback keeps the invariant, so every program does. -/
theorem inv_after (hactive : J.activeTotal s₀ ≤ slotSize) {α : Type} (p : PatchProgram α) :
    J.Inv s₀ (J.after s₀ p).1 (J.after s₀ p).2 :=
  Calls.run_inv (I := fun s : DeltaState σ × PatchLog ↦ J.Inv s₀ s.1 s.2)
    (fun op s h ↦ by
      cases op with
      | readDiff n => exact h.readDiff n
      | readOld pos n => exact h.readOld hactive pos n
      | writeNew data => exact h.writeNew data)
    p (inv_start J s₀)

theorem after_fst {α : Type} (p : PatchProgram α) :
    (J.after s₀ p).1 = (p.run patchAnswer (J.start s₀)).2 :=
  (Calls.run_withLog patchAnswer PatchLog.add p (J.start s₀) .empty).2

end DeltaJob

/-! ## Applying a patch -/

/-- All that `delta_apply_patch` runs, as one program; it returns the new size of the
patch when the libraries report success. -/
def deltaProgram (E : PatchEngine) (expectedNewTotal : Nat) : PatchProgram (Option UInt32) :=
  (hpatchLiteOpen E.headBuf).bind fun
    | none => .ret none
    | some (ct, newSize) =>
      if newSize.toNat ≠ expectedNewTotal then .ret none
      else (deltaRunPatch E ct newSize).bind fun ok ↦ .ret (if ok then some newSize else none)

section Apply

variable {σ : Type} [FlashBackend σ] {E : PatchEngine} {J : DeltaJob σ} {s : σ}

variable (J E) in
theorem DeltaJob.deltaApplyPatch_start
    (h : DeltaChecks J.activeBase J.patchTotal J.expectedNewTotal s) :
    deltaApplyPatch E J.activeBase J.inactiveBase J.patchTotal J.expectedNewTotal s =
      deltaOpened E J.expectedNewTotal (J.start s) :=
  deltaApplyPatch_of_checks E J.inactiveBase h

/-- A patch that is applied has passed the checks of `delta_apply_patch`, and the
program has written what was expected. -/
theorem deltaApplyPatch_true
    (h : (deltaApplyPatch E J.activeBase J.inactiveBase J.patchTotal J.expectedNewTotal s).1 =
      true) :
    J.activeTotal s ≤ slotSize ∧
      (deltaApplyPatch E J.activeBase J.inactiveBase J.patchTotal J.expectedNewTotal s).2 =
        (J.after s (deltaProgram E J.expectedNewTotal)).1.dev ∧
      (J.after s (deltaProgram E J.expectedNewTotal)).1.listener.newWritten =
        J.expectedNewTotal := by
  have hchecks : DeltaChecks J.activeBase J.patchTotal J.expectedNewTotal s := by
    by_contra hfailed
    rw [deltaApplyPatch_of_not_checks E J.inactiveBase hfailed] at h
    cases h
  rw [J.deltaApplyPatch_start E hchecks] at h ⊢
  rw [DeltaJob.after_fst]
  refine ⟨hchecks.2.2.2.2.2, ?_⟩
  unfold deltaOpened at h ⊢
  unfold deltaProgram
  dsimp only at h ⊢
  rw [Calls.run_bind]
  cases ho : ((hpatchLiteOpen E.headBuf).run patchAnswer (J.start s)).1 with
  | none => rw [ho] at h; cases h
  | some r =>
      obtain ⟨ct, newSize⟩ := r
      rw [ho] at h
      dsimp only at h ⊢
      by_cases hne : newSize.toNat ≠ J.expectedNewTotal
      · rw [if_pos hne] at h; cases h
      · rw [if_neg hne] at h ⊢
        rw [if_neg hne, Calls.run_bind]
        simp only [Bool.and_eq_true, beq_iff_eq] at h
        refine ⟨rfl, ?_⟩
        rw [Calls.run_ret, ← h.2.2]
        exact not_not.mp hne

/-- What no call of the libraries breaks holds of the device that `delta_apply_patch` leaves. -/
theorem deltaApplyPatch_inv (E : PatchEngine) (activeBase inactiveBase patchTotal n : Nat) {s : σ}
    {I : DeltaState σ → Prop} (hI : ∀ op st, I st → I (patchAnswer op st).2) {C : σ → Prop}
    (hC : ∀ st, I st → C st.dev) (hs : ∀ activeTotal,
      I ⟨⟨activeBase, inactiveBase, 0, n, activeTotal⟩,
        ⟨inactiveBase + flashOtaSlotSpan σ - patchTotal, 0, patchTotal⟩, s⟩) :
    C (deltaApplyPatch E activeBase inactiveBase patchTotal n s).2 := by
  have hrun : ∀ {α : Type} (p : PatchProgram α) st, I st → I (p.run patchAnswer st).2 :=
    fun p st h ↦ Calls.run_inv hI p h
  by_cases hchecks : DeltaChecks activeBase patchTotal n s
  · have hopened := hrun (hpatchLiteOpen E.headBuf) _
      (hs (FirmwareHeader.ofMem (byte s) activeBase).logicalTotal)
    rw [deltaApplyPatch_of_checks E inactiveBase hchecks]
    unfold deltaOpened
    dsimp only
    split
    · exact hC _ hopened
    · split_ifs
      · exact hC _ hopened
      · exact hC _ (hrun _ _ hopened)
  · rw [deltaApplyPatch_of_not_checks E inactiveBase hchecks]
    exact hC _ (hs 0)

/-- Whatever the libraries do, only the head of the inactive slot changes. -/
theorem deltaApplyPatch_frame (E : PatchEngine) (activeBase inactiveBase patchTotal n : Nat) (s : σ)
    {x : Nat} (hx : x < inactiveBase ∨ inactiveBase + n ≤ x) :
    byte (deltaApplyPatch E activeBase inactiveBase patchTotal n s).2 x = byte s x := by
  -- the bounds of the writes are in the listener, which only counts them
  let I : DeltaState σ → Prop := fun st ↦ st.listener.inactiveBase = inactiveBase ∧
    st.listener.newExpected = n ∧ st.listener.newWritten ≤ n ∧ byte st.dev x = byte s x
  refine deltaApplyPatch_inv E activeBase inactiveBase patchTotal n (I := I)
    (C := fun dev ↦ byte dev x = byte s x) ?_ (fun _ h ↦ h.2.2.2)
    fun _ ↦ ⟨rfl, rfl, Nat.zero_le n, rfl⟩
  rintro op st ⟨hb, hn, hw, hf⟩
  cases op with
  | readDiff k =>
      simp only [patchAnswer, diffStreamRead]
      split_ifs <;> exact ⟨hb, hn, hw, hf⟩
  | readOld pos k => exact ⟨hb, hn, hw, hf⟩
  | writeNew data =>
      simp only [patchAnswer, writeNewCb, hb, hn]
      split_ifs with hlong hok
      · exact ⟨hb, hn, hw, hf⟩
      all_goals
        have hfr :
            byte (flashProgramBytes (inactiveBase + st.listener.newWritten) data st.dev).2 x =
              byte s x := (programBytes_frame st.dev (by omega)).trans hf
      · exact ⟨hb, hn, hw, hfr⟩
      · exact ⟨rfl, rfl, by dsimp only; omega, hfr⟩

theorem healthy_deltaApplyPatch (E : PatchEngine) (activeBase inactiveBase patchTotal n : Nat)
    {s : σ} (h : Healthy s) :
    Healthy (deltaApplyPatch E activeBase inactiveBase patchTotal n s).2 := by
  refine deltaApplyPatch_inv E activeBase inactiveBase patchTotal n
    (I := fun st : DeltaState σ ↦ Healthy st.dev) (C := fun dev ↦ Healthy dev) ?_ (fun _ h ↦ h)
    fun _ ↦ h
  intro op st hst
  cases op with
  | readDiff k =>
      simp only [patchAnswer, diffStreamRead]
      split_ifs <;> exact hst
  | readOld pos k => exact hst
  | writeNew data =>
      simp only [patchAnswer, writeNewCb]
      split_ifs
      · exact hst
      · exact healthy_programBytes _ _ hst
      · exact healthy_programBytes _ _ hst

end Apply

/-- The span of an image: its header and the payload the header announces. -/
def imageSpan (m : Mem) (slotAddr : Nat) : Nat :=
  firmwareHeaderSize + (FirmwareHeader.ofMem m slotAddr).imageSize.toNat

/-- **Patching in place.**  Once `delta_apply_patch` has checked the active image, and
whatever calls a library makes of the three callbacks: the diff bytes it gets are a
prefix of the patch blob that was on flash at the start, in order; every read of the
old image gives bytes of the active image, inside its span; and the accepted writes
fill the inactive slot from its base on, up to the expected size, with nothing else
changed.  The patch is reported as applied only if the expected size was written. -/
theorem delta_in_place {σ : Type} [FlashBackend σ] (J : DeltaJob σ) (s : σ)
    (hactive : J.activeTotal s ≤ slotSize) :
    (∀ (α : Type) (p : PatchProgram α),
      (J.after s p).2.diff =
        ((byte s).read J.blobBase J.patchTotal).take (J.after s p).2.diff.length ∧
      (∀ r ∈ (J.after s p).2.old, r.1 + r.2.length ≤ imageSpan (byte s) J.activeBase ∧
        r.2 = (byte s).read (J.activeBase + r.1) r.2.length) ∧
      (J.after s p).2.new.length ≤ J.expectedNewTotal ∧
      (byte (J.after s p).1.dev).read J.inactiveBase (J.after s p).2.new.length =
        (J.after s p).2.new ∧
      ∀ x, x < J.inactiveBase ∨ J.inactiveBase + J.expectedNewTotal ≤ x →
        byte (J.after s p).1.dev x = byte s x) ∧
    ∀ E : PatchEngine,
      (deltaApplyPatch E J.activeBase J.inactiveBase J.patchTotal J.expectedNewTotal s).1 = true →
      (deltaApplyPatch E J.activeBase J.inactiveBase J.patchTotal J.expectedNewTotal s).2 =
        (J.after s (deltaProgram E J.expectedNewTotal)).1.dev ∧
      (J.after s (deltaProgram E J.expectedNewTotal)).2.new.length = J.expectedNewTotal := by
  constructor
  · intro α p
    have h := J.inv_after hactive p
    refine ⟨?_, fun r hr ↦ ?_, h.new_le, h.new, h.frame⟩
    · obtain ⟨k, hk⟩ := Nat.exists_eq_add_of_le h.diff_le
      rw [hk, Mem.read_add, h.diff]
      exact List.take_left.symm
    · obtain ⟨hle, hread⟩ := h.old r hr
      exact ⟨Nat.le_trans hle (Nat.mod_le _ _), hread.symm⟩
  · intro E hE
    obtain ⟨-, hdev, hwritten⟩ := deltaApplyPatch_true hE
    have h := J.inv_after hactive (deltaProgram E J.expectedNewTotal)
    rw [h.listener] at hwritten
    exact ⟨hdev, hwritten⟩

theorem slots_slotA_slotB : slotAAddr = slotAAddr ∧ slotBAddr = slotBAddr ∨
    slotAAddr = slotBAddr ∧ slotBAddr = slotAAddr :=
  .inl ⟨rfl, rfl⟩

end DualBank
