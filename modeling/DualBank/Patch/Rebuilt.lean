import DualBank.Patch.Applied
import DualBank.Patch.Decompressed
import DualBank.Patch.Head

/-!
# Rebuilding an image

`delta_apply_patch` on a staged patch of the format, raw or compressed: it returns true, and
the image that the patch makes of the active one is at the base of the inactive slot.
-/

namespace DualBank

open Lib FlashBackend Stateful InputCache

namespace DeltaJob

variable {σ : Type} [FlashBackend σ] (J : DeltaJob σ) (s : σ)

/-- The active image. -/
def oldImage : List UInt8 := (byte s).read J.activeBase (J.activeTotal s)

@[simp] theorem length_oldImage : (J.oldImage s).length = J.activeTotal s := Mem.length_read _ _ _

/-! ## The device under the libraries -/

/-- So much of the new image is written and so much of the patch unread, on a device that
works and is erased where the image goes on. -/
structure Rebuilds (new rest : List UInt8) (st : DeltaState σ) : Prop where
  log : ∃ log, J.Inv s st log ∧ log.new = new ∧ (J.patch s).drop log.diff.length = rest
  healthy : Healthy st.dev
  blank : ∀ i, new.length ≤ i → i < J.expectedNewTotal → byte st.dev (J.inactiveBase + i) = 0xFF

variable {J s} {new rest : List UInt8} {st : DeltaState σ}

theorem rebuilds_start (hh : Healthy s)
    (hblank : ∀ i < J.expectedNewTotal, byte s (J.inactiveBase + i) = 0xFF) :
    J.Rebuilds s [] (J.patch s) (J.start s) :=
  ⟨⟨.empty, J.inv_start s, rfl, rfl⟩, hh, fun i _ hi ↦ hblank i hi⟩

theorem diffStreamRead_dev (n : Nat) (st : DeltaState σ) :
    (diffStreamRead n st).2.dev = st.dev := by
  unfold diffStreamRead
  dsimp only
  split_ifs <;> rfl

/-- `diff_stream_read` as long as there is something to read. -/
theorem Rebuilds.read (h : J.Rebuilds s new rest st) {n : Nat} (hn : n = 0 ∨ rest ≠ []) :
    (diffStreamRead n st).1 = some (rest.take n) ∧
      J.Rebuilds s new (rest.drop n) (diffStreamRead n st).2 := by
  obtain ⟨⟨log, hinv, rfl, hrest⟩, hh, hblank⟩ := h
  have hsame : J.SameAt s st ⟨st.listener, rest, st.dev⟩ := ⟨log, hinv, rfl, rfl, hrest.symm⟩
  have hread : (diffStreamRead n st).1 = some (rest.take n) := by
    rw [(hsame.read n).1]
    unfold stagedRead
    by_cases hzero : n = 0
    · rw [if_pos hzero, hzero]
      rfl
    · rw [if_neg hzero, if_neg (hn.resolve_left hzero)]
  have hnext := hinv.readDiff n
  refine ⟨hread, ⟨_, hnext, rfl, ?_⟩, ?_, ?_⟩
  · rw [hread]
    show (J.patch s).drop (log.diff ++ rest.take n).length = _
    rw [List.length_append, ← List.drop_drop, hrest, List.length_take]
    rcases Nat.le_total n rest.length with hle | hle
    · rw [Nat.min_eq_left hle]
    · rw [Nat.min_eq_right hle, List.drop_length, List.drop_of_length_le hle]
  · rw [diffStreamRead_dev]
    exact hh
  · rw [diffStreamRead_dev]
    exact hblank

/-- A read that gets all it asks for. -/
theorem Rebuilds.read_append {data : List UInt8} (h : J.Rebuilds s new (data ++ rest) st) :
    (diffStreamRead data.length st).1 = some data ∧
      J.Rebuilds s new rest (diffStreamRead data.length st).2 := by
  have hn : data.length = 0 ∨ data ++ rest ≠ [] := by
    by_cases hdata : data = []
    · exact .inl (hdata ▸ rfl)
    · exact .inr fun hnil ↦ hdata (List.append_eq_nil_iff.1 hnil).1
  obtain ⟨hread, h⟩ := h.read hn
  rw [List.take_left] at hread
  rw [List.drop_left] at h
  exact ⟨hread, h⟩

theorem Rebuilds.readOld (h : J.Rebuilds s new rest st) (hactive : J.activeTotal s ≤ slotSize)
    {pos n : Nat} (hle : pos + n ≤ (J.oldImage s).length) :
    readOldCb pos n st = some (((J.oldImage s).drop pos).take n) := by
  obtain ⟨⟨log, hinv, -, -⟩, -, -⟩ := h
  rw [length_oldImage] at hle
  unfold readOldCb
  rw [hinv.listener]
  dsimp only
  rw [if_neg (by omega), if_neg (by omega), oldImage, Mem.drop_read, Mem.take_read,
    Nat.min_eq_left (by omega)]
  refine congrArg some (Mem.read_congr fun x hx ↦ hinv.frame x (active_outside ?_ ?_))
  · exact Nat.le_trans (Nat.le_add_right _ _) hx.1
  · have := hx.2
    omega

theorem Rebuilds.writeNew (h : J.Rebuilds s new rest st) {data : List UInt8}
    (hle : (new ++ data).length ≤ J.expectedNewTotal) :
    (writeNewCb data st).1 = true ∧ J.Rebuilds s (new ++ data) rest (writeNewCb data st).2 := by
  obtain ⟨⟨log, hinv, rfl, hrest⟩, hh, hblank⟩ := h
  rw [List.length_append] at hle
  have hfits := J.fits
  have hok : (flashProgramBytes (J.inactiveBase + log.new.length) data st.dev).1 = .ok := by
    refine programBytes_of_healthy hh fun i hi ↦ ?_
    rw [Nat.add_assoc]
    refine ⟨hblank _ (Nat.le_add_right _ _) (by omega), ?_⟩
    rcases J.slots with ⟨-, hslot⟩ | ⟨-, hslot⟩
    · rw [hslot]
      exact writable_slotB _ (by omega)
    · rw [hslot]
      exact writable_slotA _ (by omega)
  have hnext := hinv.writeNew data
  have hwrite : writeNewCb data st = (true,
      { st with
        listener := { st.listener with newWritten := st.listener.newWritten + data.length }
        dev := (flashProgramBytes (J.inactiveBase + log.new.length) data st.dev).2 }) := by
    unfold writeNewCb
    rw [hinv.listener]
    dsimp only
    rw [if_neg (by omega), if_neg (not_not.2 hok)]
  rw [hwrite] at hnext ⊢
  refine ⟨rfl, ⟨_, hnext, rfl, hrest⟩, healthy_programBytes _ _ hh, fun i hi hlt ↦ ?_⟩
  rw [List.length_append] at hi
  refine (programBytes_frame st.dev (.inr ?_)).trans (hblank i (by omega) hlt)
  omega

/-- What was written and what the diff has still to give, raw or through tinyuz. -/
def DiffSource (J : DeltaJob σ) (s : σ) (fuel : Nat) (new rest : List UInt8) :
    DiffData → DeltaState σ → Prop
  | none, st => J.Rebuilds s new rest st
  | some tuz, st => TuzTStream.Gives (fun bytes _ st ↦ J.Rebuilds s new bytes st) fuel rest tuz st

theorem serves_diffRead (new : List UInt8) :
    Serves patchAnswer TuzTStream.diffRead fun bytes _ st ↦ J.Rebuilds s new bytes st := by
  intro rest _ st n h hrest hn
  obtain ⟨hread, h⟩ := h.read (n := n) (.inr hrest)
  refine returns_lift ⟨rest.take n, rest.drop n, hread, ?_, (List.take_append_drop n rest).symm, h⟩
  rw [Ne, List.take_eq_nil_iff, not_or]
  exact ⟨Nat.ne_of_gt hn, hrest⟩

theorem patchEnv (hactive : J.activeTotal s ≤ slotSize) (M : PatchMemory) (fuel : Nat) :
    PatchEnv patchAnswer (readDiff M fuel) (J.oldImage s) J.expectedNewTotal
      (J.DiffSource s fuel) where
  readDiff new rest diffData st n h hrest hn := by
    cases diffData with
    | none =>
        obtain ⟨hread, hnext⟩ := h.read (n := n) (.inr hrest)
        refine ⟨_, none, _, rfl, rest.take n, rest.drop n, hread, ?_, ?_, hnext⟩
        · rw [Ne, List.take_eq_nil_iff, not_or]
          exact ⟨Nat.ne_of_gt hn, hrest⟩
        · exact (List.take_append_drop n rest).symm
    | some tuz =>
        obtain ⟨_, tuz', st', hrun, got, left, rfl, hleft, hend, hgives⟩ :=
          TuzTStream.Gives.decompress (serves_diffRead new) M n h hrest
        refine ⟨some got, some tuz', st', ?_, got, left, rfl, ?_, hleft, hgives⟩
        · unfold readDiff
          rw [Calls.run_bind, hrun]
          rfl
        · rintro rfl
          rcases hend with rfl | hzero
          · exact hrest hleft
          · exact Nat.ne_of_lt hn hzero
  readOld {new rest diffData st pos n} h hle := by
    cases diffData with
    | none => exact ⟨h.readOld hactive hle, h⟩
    | some tuz =>
        obtain ⟨bytes, _, hbytes⟩ := h.exists_src
        exact ⟨hbytes.readOld hactive hle, h⟩
  writeNew {new rest diffData st data} h hle := by
    cases diffData with
    | none => exact h.writeNew hle
    | some tuz =>
        obtain ⟨bytes, _, hbytes⟩ := h.exists_src
        exact ⟨(hbytes.writeNew hle).1, h.map fun _ _ h ↦ (h.writeNew hle).2⟩

/-! ## The format -/

end DeltaJob

/-- The header of a patch: the compress type, the new size, and bytes that do not matter. -/
inductive PatchHead (ct : UInt8) (newSize : UInt32) : List UInt8 → Prop
  | mk {b₀ b₁ lengths : UInt8} {size uncompressed : List UInt8} (hsize : size.length = lenn lengths)
      (huncompressed : uncompressed.length = lenu lengths)
      (hnew : hpiReadSize size size.length = newSize) :
      PatchHead ct newSize (b₀ :: b₁ :: ct :: lengths :: (size ++ uncompressed))

/-- The byte strings of a patch to this size, raw or compressed. -/
inductive PatchFile (newSize : UInt32) (covers : List PatchCover) : List UInt8 → Prop
  | no {head code : List UInt8} (hhead : PatchHead hpiCompressTypeNo newSize head)
      (hcode : PatchCode covers code) : PatchFile newSize covers (head ++ code)
  | tuz {head code bytes : List UInt8} {b₀ b₁ b₂ b₃ : UInt8}
      (hhead : PatchHead hpiCompressTypeTuz newSize head) (hcode : PatchCode covers code)
      (hlen : code.length < 2 ^ 32) (hpos : 0 < le32 b₀ b₁ b₂ b₃)
      (hmax : le32 b₀ b₁ b₂ b₃ ≤ deltaTuzDictMax)
      (hbytes : TuzBytes (le32 b₀ b₁ b₂ b₃).toNat code bytes) :
      PatchFile newSize covers (head ++ (b₀ :: b₁ :: b₂ :: b₃ :: bytes))

theorem CoversCode.length_le {oldPosBack : Nat} {covers : List PatchCover} {bs : List UInt8}
    (h : CoversCode oldPosBack covers bs) : covers.length ≤ bs.length := by
  induction h with
  | nil => exact Nat.le_refl 0
  | cons hc hcs ih =>
      cases hc
      simp only [List.length_append, List.length_cons]
      omega

theorem PatchCode.length_le {covers : List PatchCover} {code : List UInt8}
    (h : PatchCode covers code) : covers.length ≤ code.length := by
  obtain ⟨-, hcovers⟩ := h
  exact Nat.le_trans hcovers.length_le (List.length_append ▸ Nat.le_add_left _ _)

namespace DeltaJob

variable {σ : Type} [FlashBackend σ] {J : DeltaJob σ} {s : σ} {new rest : List UInt8}
  {st : DeltaState σ}

/-! ## The run -/

/-- A request that gets all it asks for. -/
theorem Rebuilds.askDiff {data : List UInt8} (h : J.Rebuilds s new (data ++ rest) st) :
    ∃ st', J.Rebuilds s new rest st' ∧ ∀ {α : Type} (f : Option (List UInt8) → PatchProgram α),
      ((askDiff data.length).bind f).run patchAnswer st = (f (some data)).run patchAnswer st' := by
  obtain ⟨hread, h⟩ := h.read_append
  refine ⟨_, h, fun f ↦ ?_⟩
  rw [← hread]
  rfl

theorem Rebuilds.hpatchLiteOpen (headBuf : List UInt8) {head : List UInt8} {ct : UInt8}
    {newSize : UInt32} (hhead : PatchHead ct newSize head)
    (h : J.Rebuilds s new (head ++ rest) st) :
    ∃ st', (hpatchLiteOpen headBuf).run patchAnswer st = (some (ct, newSize), st') ∧
      J.Rebuilds s new rest st' := by
  obtain @⟨b₀, b₁, lengths, size, uncompressed, hsize, huncompressed, rfl⟩ := hhead
  simp only [List.cons_append, List.append_assoc] at h
  have hfour : J.Rebuilds s new ([b₀, b₁, ct, lengths] ++ (size ++ (uncompressed ++ rest))) st := h
  obtain ⟨st₁, h, hhead⟩ := hfour.askDiff
  obtain ⟨st₂, h, hnew⟩ := h.askDiff
  obtain ⟨st₃, h, hlast⟩ := h.askDiff
  refine ⟨st₃, ?_, h⟩
  rw [hpatchLiteOpen_eq]
  refine (hhead _).trans ?_
  show (openRest ct (lenn lengths) (lenu lengths)).run patchAnswer st₁ = _
  unfold openRest
  rw [← hsize, hnew]
  dsimp only
  rw [← huncompressed, hlast]
  rfl

theorem Rebuilds.tuzTStreamReadDictSize {b₀ b₁ b₂ b₃ : UInt8} (hpos : 0 < le32 b₀ b₁ b₂ b₃)
    (h : J.Rebuilds s new (b₀ :: b₁ :: b₂ :: b₃ :: rest) st) :
    ∃ st', tuzTStreamReadDictSize.run patchAnswer st = (some (le32 b₀ b₁ b₂ b₃), st') ∧
      J.Rebuilds s new rest st' := by
  have hfour : J.Rebuilds s new ([b₀, b₁, b₂, b₃] ++ rest) st := h
  obtain ⟨st', h, hrun⟩ := hfour.askDiff
  refine ⟨st', (hrun _).trans ?_, h⟩
  have hlen : ¬[b₀, b₁, b₂, b₃].length ≠ tuzKDictSizeSavedBytes := not_not.2 rfl
  dsimp only
  rw [if_neg hlen]
  show (if le32 b₀ b₁ b₂ b₃ > 0 then some (le32 b₀ b₁ b₂ b₃) else none, st') = _
  rw [if_pos hpos]

section Patch

variable (M : PatchMemory) {fuel : Nat} {covers : List PatchCover} {code : List UInt8}
  {newSize : UInt32} {diffData : DiffData}

/-- `hpatch_lite_patch` on the code of the covers. -/
theorem DiffSource.hpatchLitePatchFrom (h : J.DiffSource s fuel [] code diffData st)
    (hactive : J.activeTotal s ≤ slotSize) (hcode : PatchCode covers code)
    (hlen : code.length < 2 ^ 32) (hfits : ∀ c ∈ covers, c.Fits (J.oldImage s))
    (hnew : (newImage (J.oldImage s) covers).length = J.expectedNewTotal)
    (hsize : newSize.toNat = J.expectedNewTotal)
    (hfuel : code.length + J.expectedNewTotal < fuel) :
    ∃ diffData' st', (hpatchLitePatchFrom M fuel newSize diffData).run patchAnswer st =
        ((some true, diffData'), st') ∧
      ∃ left, J.Rebuilds s (newImage (J.oldImage s) covers) left st' := by
  have hslot : slotSize < 2 ^ 32 := by decide
  have htotal := newSize.toNat_lt
  have hcache : deltaPatchCacheSize / 2 ≠ 0 := by decide
  obtain ⟨_, self, st', hrun, rfl, -, left, -, hsrc⟩ :=
    hpatchLitePatch_returns (patchEnv hactive M fuel) hcode
      (Nat.lt_of_le_of_lt hcode.length_le hlen) hfits
      (by rw [length_oldImage]; omega) (by omega) (hsize.trans hnew.symm) (Nat.le_of_eq hsize)
      (by omega) (by omega) (at_start hcache h)
  refine ⟨self.inputStream, st', ?_, ?_⟩
  · unfold DualBank.hpatchLitePatchFrom
    rw [Calls.run_bind, hrun]
    rfl
  · cases hdiff : self.inputStream with
    | none =>
        rw [hdiff] at hsrc
        exact ⟨left, hsrc⟩
    | some tuz =>
        rw [hdiff] at hsrc
        obtain ⟨bytes, _, h⟩ := TuzTStream.Gives.exists_src hsrc
        exact ⟨bytes, h⟩

/-- What runs behind the header of a patch of the format. -/
theorem exists_run (hactive : J.activeTotal s ≤ slotSize) (hstart : J.Rebuilds s [] (J.patch s) st)
    (hpatch : PatchFile newSize covers (J.patch s)) (hfits : ∀ c ∈ covers, c.Fits (J.oldImage s))
    (hnew : (newImage (J.oldImage s) covers).length = J.expectedNewTotal)
    (hsize : newSize.toNat = J.expectedNewTotal) :
    ∃ ct, ∃ fuel₀, ∀ fuel ≥ fuel₀, ∃ st₁ st₂ l,
      (hpatchLiteOpen M.headBuf).run patchAnswer st = (some (ct, newSize), st₁) ∧
      (deltaRunPatchTrace M fuel ct newSize).run patchAnswer st₁ = ((some true, l), st₂) ∧
      ∃ left, J.Rebuilds s (newImage (J.oldImage s) covers) left st₂ := by
  have hlen := J.length_patch s
  generalize J.patch s = patch at hpatch hlen hstart
  cases hpatch with
  | @no head code hhead hcode =>
      refine ⟨hpiCompressTypeNo, code.length + J.expectedNewTotal + 1, fun fuel hfuel ↦ ?_⟩
      obtain ⟨st₁, hopen, h⟩ := hstart.hpatchLiteOpen M.headBuf hhead
      have hfile : code.length < 2 ^ 32 := by
        have hspan := span_le_slotSize (σ := σ)
        have hslot : slotSize < 2 ^ 32 := by decide
        have hroom := J.fits
        rw [List.length_append] at hlen
        omega
      have hsrc : J.DiffSource s fuel [] code none st₁ := h
      obtain ⟨diffData, st₂, hrun, h⟩ :=
        hsrc.hpatchLitePatchFrom M hactive hcode hfile hfits hnew hsize (by omega)
      refine ⟨st₁, st₂, DiffData.accesses diffData, hopen, ?_, h⟩
      unfold deltaRunPatchTrace
      rw [if_neg (by decide), if_neg (not_not.2 rfl), Calls.run_bind, hrun]
      rfl
  | @tuz head code bytes b₀ b₁ b₂ b₃ hhead hcode hfile hpos hmax hbytes =>
      obtain @⟨tokens, items, bytes, htuz, hpresents, hreaches, rfl⟩ := hbytes
      generalize hdict : le32 b₀ b₁ b₂ b₃ = dictSize at hpos hmax hreaches
      refine ⟨hpiCompressTypeTuz,
        items.length + (tuzExpand [] tokens).length + J.expectedNewTotal + 1, fun fuel hfuel ↦ ?_⟩
      obtain ⟨st₁, hopen, h⟩ := hstart.hpatchLiteOpen M.headBuf hhead
      obtain ⟨st₂, hread, h⟩ := h.tuzTStreamReadDictSize (hdict ▸ hpos)
      obtain ⟨tuz, htuzStart⟩ : ∃ tuz, TuzTStream.start M dictSize deltaTuzDecBuf = some tuz :=
        ⟨_, dif_pos hpos⟩
      have hsrc : J.DiffSource s fuel [] (tuzExpand [] tokens) (some tuz) st₂ :=
        TuzTStream.gives_start htuzStart (by decide) htuz hpresents hreaches (by omega) hfile h
      obtain ⟨diffData, st₃, hrun, h⟩ :=
        hsrc.hpatchLitePatchFrom M hactive hcode hfile hfits hnew hsize (by omega)
      refine ⟨st₁, st₃, DiffData.accesses diffData, hopen, ?_, h⟩
      obtain ⟨hkept, hallowed⟩ := dictSize_kept hpos hmax
      unfold deltaRunPatchTrace
      rw [if_pos rfl, Calls.run_bind, hread, hdict]
      dsimp only
      rw [if_neg hkept, if_neg hallowed, htuzStart]
      dsimp only
      rw [Calls.run_bind, hrun]
      rfl

end Patch

/-- What `delta_apply_patch` makes of such a run. -/
theorem deltaApplyPatch_of_run (M : PatchMemory) {fuel : Nat} {ct : UInt8} {newSize : UInt32}
    {image left : List UInt8} {st₁ st₂ : DeltaState σ} {l : List DictAccess}
    (hchecked : J.Checked s) (hlen : image.length = J.expectedNewTotal)
    (hsize : newSize.toNat = J.expectedNewTotal)
    (hopen : (hpatchLiteOpen M.headBuf).run patchAnswer (J.start s) = (some (ct, newSize), st₁))
    (hrun : (deltaRunPatchTrace M fuel ct newSize).run patchAnswer st₁ = ((some true, l), st₂))
    (h : J.Rebuilds s image left st₂) :
    (deltaApplyPatch (M.engine fuel) J.activeBase J.inactiveBase J.patchTotal J.expectedNewTotal
        s).1 = true ∧
      (byte (deltaApplyPatch (M.engine fuel) J.activeBase J.inactiveBase J.patchTotal
        J.expectedNewTotal s).2).read J.inactiveBase J.expectedNewTotal = image := by
  obtain ⟨⟨log, hinv, hlog, -⟩, -, -⟩ := h
  have hhead : (M.engine fuel).headBuf = M.headBuf := rfl
  rw [J.deltaApplyPatch_start _ (checked_iff.1 hchecked)]
  unfold deltaOpened
  dsimp only
  rw [hhead, hopen]
  dsimp only
  rw [if_neg (not_not.2 hsize), deltaRunPatch_engine, Calls.run_bind, hrun]
  dsimp only [Calls.run_ret]
  have hread := hinv.new
  rw [hlog, hlen] at hread
  refine ⟨?_, hread⟩
  rw [hinv.listener, hlog, hlen, hsize]
  simp only [Option.getD_some, beq_self_eq_true, Bool.and_self]

/-- **Rebuilding an image.**  On a device that works, with the head of the inactive slot erased,
`delta_apply_patch` applies every patch of the format that fits the active image: with fuel
enough it returns true, and the image that the patch makes of the active one is at the base of
the inactive slot. -/
theorem delta_rebuilds {σ : Type} [FlashBackend σ] (J : DeltaJob σ) (s : σ) (M : PatchMemory)
    {newSize : UInt32} {covers : List PatchCover} (hh : Healthy s) (hchecked : J.Checked s)
    (hblank : ∀ i < J.expectedNewTotal, byte s (J.inactiveBase + i) = 0xFF)
    (hpatch : PatchFile newSize covers (J.patch s)) (hfits : ∀ c ∈ covers, c.Fits (J.oldImage s))
    (hnew : (newImage (J.oldImage s) covers).length = J.expectedNewTotal)
    (hsize : newSize.toNat = J.expectedNewTotal) :
    ∃ fuel₀, ∀ fuel ≥ fuel₀,
      (deltaApplyPatch (M.engine fuel) J.activeBase J.inactiveBase J.patchTotal J.expectedNewTotal
        s).1 = true ∧
      (byte (deltaApplyPatch (M.engine fuel) J.activeBase J.inactiveBase J.patchTotal
        J.expectedNewTotal s).2).read J.inactiveBase J.expectedNewTotal =
          newImage (J.oldImage s) covers := by
  obtain ⟨ct, fuel₀, hruns⟩ := exists_run M hchecked.2.2.2.2 (rebuilds_start hh hblank) hpatch hfits
    hnew hsize
  refine ⟨fuel₀, fun fuel hfuel ↦ ?_⟩
  obtain ⟨st₁, st₂, l, hopen, hrun, left, h⟩ := hruns fuel hfuel
  exact deltaApplyPatch_of_run M hchecked hnew hsize hopen hrun h

/-- The covers of a small patch: a new byte, and two bytes of the active image. -/
def smallCovers : List PatchCover := [⟨[0xAA], 0, .copy 2⟩]

/-- The patch, compressed: the code of the covers as five bytes of data. -/
def smallPatch : List UInt8 :=
  [0x68, 0x49, 0x01, 0x41, 3, 1, 0, 0, 0, 0x9F, 1, 2, 0x80, 1, 0xAA, 0x01, 0x00]

theorem patchFile_smallPatch : PatchFile 3 smallCovers smallPatch := by
  have hhead : PatchHead hpiCompressTypeTuz 3 [0x68, 0x49, 0x01, 0x41, 3] :=
    @PatchHead.mk _ _ 0x68 0x49 0x41 [3] [] rfl rfl rfl
  have hcover : CoverCode 0 ⟨[0xAA], 0, .copy 2⟩ [2, 0x80, 1, 0xAA] :=
    @CoverCode.mk _ _ [2] [] [1] 0x80 0 (.last (by decide)) ⟨rfl, rfl⟩ rfl
      (iff_of_true (by decide) ⟨2, rfl⟩) (.last (by decide))
  have hcode : PatchCode smallCovers [1, 2, 0x80, 1, 0xAA] :=
    @PatchCode.mk _ [1] _ (.last (by decide)) (.cons hcover .nil)
  have hend : LenCode 1 0 [.bit false, .bit true, .bit true, .bit false] 3 :=
    .more (g := [false]) rfl (.last (g := [true]) rfl)
  have htuz : TuzCode false 1 [.data 1, .data 2, .data 0x80, .data 1, .data 0xAA]
      [.bit true, .byte 1, .bit true, .byte 2, .bit true, .byte 0x80, .bit true, .byte 1,
        .bit true, .byte 0xAA, .bit false, .bit false, .bit true, .bit true, .bit false, .bit false,
        .byte 0] :=
    .cons .data (.cons .data (.cons .data (.cons .data (.cons .data
      (.streamEnd (.pos hend (.short (by decide))))))))
  have hbytes : TuzBytes (le32 1 0 0 0).toNat [1, 2, 0x80, 1, 0xAA]
      [0x9F, 1, 2, 0x80, 1, 0xAA, 0x01, 0x00] := by
    refine .mk htuz ?_ ⟨trivial, trivial, trivial, trivial, trivial, trivial⟩ rfl
    exact .types (.bit (.byte (.bit (.byte (.bit (.byte (.bit (.byte (.bit (.byte (.bit (.bit (.bit
      (.types (.bit (.bit (.bit (.byte .nil))))))))))))))))))
  exact .tuz hhead hcode (by decide) (by decide) (by decide) hbytes

/-- The patch from slot A to slot B. -/
def smallJob : DeltaJob Hw where
  activeBase := slotAAddr
  inactiveBase := slotBAddr
  patchTotal := 17
  expectedNewTotal := 3
  slots := slots_slotA_slotB
  fits := by decide

/-- A flash with a header at slot A, and the patch behind slot B. -/
def smallFlash : Mem :=
  Mem.write (Mem.write (fun _ ↦ 0xFF) slotAAddr [0xEF, 0xBE, 0xAD, 0xDE, 1, 0, 0, 0, 1, 0, 0, 0])
    smallJob.blobBase smallPatch

theorem byte_smallFlash : byte (Hw.reset smallFlash) = smallFlash := rfl

theorem activeTotal_smallJob : smallJob.activeTotal (Hw.reset smallFlash) = 513 := by
  unfold DeltaJob.activeTotal
  rw [byte_smallFlash]
  decide +kernel

theorem checked_smallJob : smallJob.Checked (Hw.reset smallFlash) := by
  refine ⟨by decide, by decide, ?_, ?_, activeTotal_smallJob ▸ by decide⟩
  · rw [byte_smallFlash]
    decide +kernel
  · rw [byte_smallFlash]
    decide +kernel

theorem delta_rebuilds_small : ∃ fuel₀, ∀ fuel ≥ fuel₀,
    (deltaApplyPatch (zeroMemory.engine fuel) slotAAddr slotBAddr 17 3 (Hw.reset smallFlash)).1 =
      true ∧
    (byte (deltaApplyPatch (zeroMemory.engine fuel) slotAAddr slotBAddr 17 3
      (Hw.reset smallFlash)).2).read slotBAddr 3 = [0xAA, 0xEF, 0xBE] := by
  have hpatch : smallJob.patch (Hw.reset smallFlash) = smallPatch := by
    rw [DeltaJob.patch, byte_smallFlash]
    exact Mem.read_write _ _ smallPatch
  have hblank : ∀ i < 3, byte (Hw.reset smallFlash) (slotBAddr + i) = 0xFF := by
    rw [byte_smallFlash]
    decide +kernel
  have hstretch : ((smallJob.oldImage (Hw.reset smallFlash)).drop 0).take 2 = [0xEF, 0xBE] := by
    rw [DeltaJob.oldImage, activeTotal_smallJob, byte_smallFlash, List.drop_zero, Mem.take_read]
    decide +kernel
  have hnew : newImage (smallJob.oldImage (Hw.reset smallFlash)) smallCovers =
      [0xAA, 0xEF, 0xBE] := by
    show [0xAA] ++ ((smallJob.oldImage (Hw.reset smallFlash)).drop 0).take 2 ++ [] = _
    rw [hstretch]
    rfl
  rw [← hnew]
  have hfile : PatchFile 3 smallCovers (smallJob.patch (Hw.reset smallFlash)) :=
    hpatch ▸ patchFile_smallPatch
  refine delta_rebuilds smallJob (Hw.reset smallFlash) zeroMemory (Hw.healthy_reset _)
    checked_smallJob hblank hfile ?_ (congrArg List.length hnew) rfl
  intro c hc
  obtain rfl := List.mem_singleton.1 hc
  unfold PatchCover.Fits
  rw [DeltaJob.length_oldImage, activeTotal_smallJob]
  decide

/-- A library that makes the given calls, whatever the answers. -/
def callAll (ops : List PatchOp) : PatchProgram Unit :=
  ops.foldr (fun op p ↦ .call op fun _ ↦ p) (.ret ())

/-- Reads of the patch and of the active image between the writes, a read past the end of either
and a byte too many. -/
def wovenCalls : List PatchOp :=
  [.readDiff 4, .writeNew [0xAA], .readOld 1 2, .writeNew [0xBE], .readDiff 2, .readOld 512 2,
    .writeNew [0xEF], .readOld 0 1, .writeNew [0], .readDiff 100]

def wovenRun : DeltaState Hw × PatchLog :=
  smallJob.after (Hw.reset smallFlash) (callAll wovenCalls)

theorem log_wovenRun : wovenRun.2.diff = smallPatch ∧
    wovenRun.2.old = [(1, [0xBE, 0xAD]), (0, [0xEF])] ∧ wovenRun.2.new = [0xAA, 0xBE, 0xEF] := by
  decide +kernel

/-- What these calls are given is the patch and the active image, and what they write is at the
base of slot B; the engine applies the patch with the three bytes that it announces. -/
theorem delta_in_place_small :
    (wovenRun.2.diff = smallFlash.read smallJob.blobBase 17 ∧
      smallFlash.read (slotAAddr + 1) 2 = [0xBE, 0xAD] ∧ smallFlash.read slotAAddr 1 = [0xEF] ∧
      (byte wovenRun.1.dev).read slotBAddr 3 = [0xAA, 0xBE, 0xEF]) ∧
    ∃ fuel,
      (deltaApplyPatch (zeroMemory.engine fuel) slotAAddr slotBAddr 17 3 (Hw.reset smallFlash)).1 =
        true ∧
      (smallJob.after (Hw.reset smallFlash)
        (deltaProgram (zeroMemory.engine fuel) 3)).2.new.length = 3 := by
  have hactive : smallJob.activeTotal (Hw.reset smallFlash) ≤ slotSize :=
    activeTotal_smallJob ▸ by decide
  obtain ⟨hcalls, hengine⟩ := delta_in_place smallJob (Hw.reset smallFlash) hactive
  obtain ⟨hdiff, hold, -, hnew, -⟩ := hcalls Unit (callAll wovenCalls)
  obtain ⟨hdiffLog, holdLog, hnewLog⟩ := log_wovenRun
  have hrun : smallJob.after (Hw.reset smallFlash) (callAll wovenCalls) = wovenRun := rfl
  rw [hrun] at hdiff hold hnew
  rw [hnewLog] at hnew
  rw [holdLog] at hold
  have hlen : wovenRun.2.diff.length = 17 := by rw [hdiffLog]; rfl
  have htotal : smallJob.patchTotal = 17 := rfl
  rw [hlen, htotal, List.take_of_length_le (Nat.le_of_eq (Mem.length_read _ _ _))] at hdiff
  obtain ⟨fuel, h⟩ := delta_rebuilds_small
  have happlied := (h fuel (Nat.le_refl fuel)).1
  refine ⟨⟨hdiff, ?_, ?_, hnew⟩, fuel, happlied, (hengine _ happlied).2⟩
  · exact (hold _ (List.mem_cons_self ..)).2.symm
  · exact (hold _ (List.mem_cons_of_mem _ (List.mem_cons_self ..))).2.symm

end DeltaJob

end DualBank
