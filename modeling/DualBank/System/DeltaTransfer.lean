import DualBank.Ota.Delivery
import DualBank.Patch.Rebuilt
import DualBank.Tools.DeltaCommon

/-!
# A whole delta transfer

From START_DELTA to END: the patch is staged behind the slot that is erased for it, whatever
frames it comes in, and END puts the image that it makes of the active one there.
-/

namespace DualBank

open Lib FlashBackend

/-- DATA frames in sequence that carry these bytes. -/
inductive DataFrames : UInt16 → List UInt8 → List OtaFrame → Prop
  | nil {seq : UInt16} : DataFrames seq [] []
  | cons {seq : UInt16} {f : OtaFrame} {fs : List OtaFrame} {rest : List UInt8}
      (hop : f.op = otaOpData) (hseq : f.seq = seq) (hdata : f.data ≠ [])
      (h : DataFrames (seq + 1) rest fs) : DataFrames seq (f.data ++ rest) (f :: fs)

section Transfer

variable {σ : Type} [FlashBackend σ] (E : PatchEngine) (K : KeyStore) {J : DeltaJob σ} {s : σ}

/-- The client behind some frames, and whether all of them were acknowledged. -/
def handleAll : List OtaFrame → OtaClient σ → Bool × OtaClient σ
  | [], c => (true, c)
  | f :: fs, c =>
    let r := handleFrame E K f c
    if r.1 then handleAll fs r.2 else (false, r.2)

variable (J s) in
/-- The frame asks for the job, and names the active image by its digest. -/
structure DeltaJob.StartedBy (f : OtaFrame) : Prop where
  op : f.op = otaOpStartDelta
  length : otaStartDeltaPayload ≤ f.data.length
  patchTotal : (u32At f.data 0).toNat = J.patchTotal
  expectedNewTotal : (u32At f.data 4).toNat = J.expectedNewTotal
  digest : (f.data.drop 8).take 32 = Sha2.digest (J.oldImage s)

variable (J s) in
/-- The erase of the inactive slot leaves the active image alone. -/
def DeltaJob.Clear : Prop :=
  ∀ i, i < firmwareHeaderSize ∨ i < J.activeTotal s →
    ¬Covered J.inactiveBase (flashOtaSlotSpan σ) (J.activeBase + i)

variable (J s) in
/-- A session of the job behind these bytes of the patch. -/
structure DeltaJob.Session (got : List UInt8) (seq : UInt16) (c : OtaClient σ) : Prop where
  state : c.state = ⟨true, .delta, J.inactiveBase, J.patchTotal, got.length, seq, J.blobBase,
    J.expectedNewTotal, J.activeBase⟩
  healthy : Healthy c.dev
  staged : (byte c.dev).read J.blobBase got.length = got
  blank : ∀ i < flashOtaSlotSpan σ,
    J.inactiveBase + i < J.blobBase ∨ J.blobBase + got.length ≤ J.inactiveBase + i →
      byte c.dev (J.inactiveBase + i) = 0xFF
  active : ∀ i, i < firmwareHeaderSize ∨ i < J.activeTotal s →
    byte c.dev (J.activeBase + i) = byte s (J.activeBase + i)
  below : ∀ x < flashSectorStart J.inactiveBase, byte c.dev x = byte s x

variable {E K} {c : OtaClient σ} {got : List UInt8} {seq : UInt16} {f : OtaFrame}

theorem DeltaJob.writable_inactive {i : Nat} (hi : i < flashOtaSlotSpan σ) :
    Writable σ (J.inactiveBase + i) := by
  rcases J.slots with ⟨-, hslot⟩ | ⟨-, hslot⟩
  · rw [hslot]
    exact writable_slotB _ hi
  · rw [hslot]
    exact writable_slotA _ hi

/-- The active slot lies outside of what is erased. -/
theorem DeltaJob.apart (J : DeltaJob σ) {x : Nat} (h₁ : J.activeBase ≤ x)
    (h₂ : x < J.activeBase + slotSize) :
    x < J.inactiveBase ∨ J.inactiveBase + flashOtaSlotSpan σ ≤ x := by
  have hspan := span_le_slotSize (σ := σ)
  have hAB := slotA_before_slotB
  rcases J.slots with ⟨ha, hb⟩ | ⟨ha, hb⟩
  · exact .inl (by omega)
  · exact .inr (by omega)

/-- START_DELTA opens the session. -/
theorem DeltaJob.StartedBy.session (h : J.StartedBy c.dev f) (hh : Healthy c.dev)
    (hactive : J.activeBase = memoryMapSlotAddr (loadedOn K c.dev).activeSlot)
    (hinactive : J.inactiveBase =
      memoryMapSlotAddr (memoryMapOtherSlot (loadedOn K c.dev).activeSlot))
    (hchecked : J.Checked c.dev) (hclear : J.Clear c.dev)
    (hsize : firmwareHeaderSize ≤ J.expectedNewTotal ∧
      J.expectedNewTotal ≤ firmwareHeaderSize + firmwareMaxPayloadSize) :
    (handleFrame E K f c).1 = true ∧
      J.Session c.dev [] (f.seq + 1) (handleFrame E K f c).2 := by
  obtain ⟨hpatch, -, hmagic, -, htotal⟩ := hchecked
  have hfits := J.fits
  have hdigest : deltaVerifyActiveBaseSha256 J.activeBase ((f.data.drop 8).take 32) (byte c.dev) =
      true := by
    refine (deltaVerifyActiveBaseSha256_iff ?_).2 ⟨hmagic, htotal, h.digest⟩
    rw [List.length_take, List.length_drop]
    have := h.length
    unfold otaStartDeltaPayload at this
    omega
  have hopens : opening K f c = some ⟨J.inactiveBase, flashOtaSlotSpan σ,
      ⟨true, .delta, J.inactiveBase, J.patchTotal, 0, f.seq + 1, J.blobBase, J.expectedNewTotal,
        J.activeBase⟩⟩ := by
    unfold opening startDeltaOpens
    rw [h.op, if_neg (by decide), if_pos rfl]
    dsimp only
    rw [← hactive, ← hinactive, h.patchTotal, h.expectedNewTotal, hdigest,
      if_neg (Nat.not_lt.2 h.length), if_neg (by omega), if_neg (by omega), if_neg (by omega)]
    rfl
  obtain ⟨hin, hend⟩ := slot_in_flash (memoryMapOtherSlot (loadedOn K c.dev).activeSlot)
  rw [← hinactive] at hin hend
  have hspan := span_le_slotSize (σ := σ)
  have hheader := headerSize_le_span (σ := σ)
  have hpos : 0 < flashOtaSlotSpan σ := by
    unfold firmwareHeaderSize at hheader
    omega
  obtain ⟨hok, herased⟩ := erase_of_healthy hh hin hpos (by omega)
  rw [handleFrame_of_opens E K c (.inr h.op), hopens]
  unfold openSession
  dsimp only
  rw [if_pos hok]
  refine ⟨rfl, rfl, healthy_erase _ _ hh, rfl, fun i hi _ ↦ ?_, fun i hi ↦ ?_, fun x hx ↦ ?_⟩
  · exact herased _ (covered_of_mem (Nat.le_add_right _ _) (by omega)) (by omega)
      (J.writable_inactive hi)
  · exact erase_frame c.dev (hclear i hi)
  · exact erase_frame c.dev fun hcovered ↦ Nat.not_le.2 hx hcovered.1

/-- A DATA frame in sequence goes behind the bytes that are there. -/
theorem DeltaJob.Session.data (h : J.Session s got seq c) (htotal : J.activeTotal s ≤ slotSize)
    (hop : f.op = otaOpData) (hseq : f.seq = seq) (hdata : f.data ≠ [])
    (hle : (got ++ f.data).length ≤ J.patchTotal) :
    (handleFrame E K f c).1 = true ∧
      J.Session s (got ++ f.data) (seq + 1) (handleFrame E K f c).2 := by
  obtain ⟨hstate, hh, hstaged, hblank, hactive, hbelow⟩ := h
  have hfits := J.fits
  have hblob : J.blobBase + J.patchTotal = J.inactiveBase + flashOtaSlotSpan σ := by
    unfold DeltaJob.blobBase
    omega
  have hbehind := DeltaJob.end_le_blobBase (J := J)
  rw [List.length_append] at hle
  have hdest : dataDest f c.state = some (J.blobBase + got.length) := by
    unfold dataDest
    rw [hstate]
    dsimp only
    rw [if_neg (by decide), if_neg (not_not.2 hseq),
      if_neg (mt List.length_eq_zero_iff.1 hdata), if_neg (by omega), if_pos rfl]
  have hok : (flashProgramBytes (J.blobBase + got.length) f.data c.dev).1 = .ok := by
    refine programBytes_of_healthy hh fun i hi ↦ ?_
    obtain ⟨k, hk⟩ : ∃ k, J.blobBase + got.length + i = J.inactiveBase + k :=
      ⟨J.blobBase + got.length + i - J.inactiveBase, by omega⟩
    rw [hk]
    exact ⟨hblank k (by omega) (.inr (by omega)), J.writable_inactive (by omega)⟩
  have hframe : ∀ x, x < J.blobBase + got.length ∨ J.blobBase + got.length + f.data.length ≤ x →
      byte (flashProgramBytes (J.blobBase + got.length) f.data c.dev).2 x = byte c.dev x :=
    fun x hx ↦ programBytes_frame c.dev hx
  rw [handleFrame_data E K c hop]
  unfold handleData
  rw [hdest]
  dsimp only
  rw [if_neg (not_not.2 hok), hstate]
  refine ⟨rfl, ?_, healthy_programBytes _ _ hh, ?_, fun i hi hout ↦ ?_, fun i hi ↦ ?_,
    fun x hx ↦ ?_⟩
  · rw [List.length_append]
  · rw [List.length_append, Mem.read_add, programBytes_read hok,
      Mem.read_congr fun x hx ↦ hframe x (.inl hx.2), hstaged]
  · rw [List.length_append] at hout
    rw [hframe _ (by omega)]
    exact hblank i hi (by omega)
  · have hlt : i < slotSize := by
      have hheader : firmwareHeaderSize ≤ slotSize := by decide
      omega
    have hapart := J.apart (Nat.le_add_right J.activeBase i) (Nat.add_lt_add_left hlt _)
    rw [hframe _ (by omega)]
    exact hactive i hi
  · have hsector := flashSectorStart_le J.inactiveBase
    rw [hframe _ (by omega)]
    exact hbelow x hx

/-- All DATA frames of a patch. -/
theorem DeltaJob.Session.handleAll {rest : List UInt8} {fs : List OtaFrame}
    (htotal : J.activeTotal s ≤ slotSize) (hframes : DataFrames seq rest fs)
    (h : J.Session s got seq c)
    (hle : (got ++ rest).length ≤ J.patchTotal) :
    (handleAll E K fs c).1 = true ∧
      ∃ seq', J.Session s (got ++ rest) seq' (handleAll E K fs c).2 := by
  induction hframes generalizing got c with
  | nil =>
      rw [List.append_nil]
      exact ⟨rfl, _, h⟩
  | @cons seq f fs rest hop hseq hdata hfs ih =>
      rw [← List.append_assoc] at hle ⊢
      have hpart := (List.prefix_append (got ++ f.data) rest).length_le
      obtain ⟨hok, h⟩ := h.data (E := E) (K := K) htotal hop hseq hdata (Nat.le_trans hpart hle)
      unfold DualBank.handleAll
      dsimp only
      rw [if_pos hok]
      exact ih h hle

/-- The device behind the last DATA frame is ready for the patch. -/
theorem DeltaJob.Session.ready {patch : List UInt8} (h : J.Session s patch seq c)
    (hlen : patch.length = J.patchTotal) :
    J.patch c.dev = patch ∧ J.activeTotal c.dev = J.activeTotal s ∧
      J.oldImage c.dev = J.oldImage s ∧ (J.Checked s → J.Checked c.dev) ∧
      ∀ i < J.expectedNewTotal, byte c.dev (J.inactiveBase + i) = 0xFF := by
  have hfits := J.fits
  have hheader : FirmwareHeader.ofMem (byte c.dev) J.activeBase =
      FirmwareHeader.ofMem (byte s) J.activeBase := by
    refine FirmwareHeader.ofMem_congr fun x hx ↦ ?_
    obtain ⟨i, rfl⟩ := Nat.exists_eq_add_of_le hx.1
    exact h.active i (.inl (Nat.lt_of_add_lt_add_left hx.2))
  have htotal : J.activeTotal c.dev = J.activeTotal s :=
    congrArg FirmwareHeader.logicalTotal hheader
  refine ⟨?_, htotal, ?_, fun hchecked ↦ ?_, fun i hi ↦ h.blank i (by omega) (.inl ?_)⟩
  · have hstaged := h.staged
    rw [hlen] at hstaged
    exact hstaged
  · unfold DeltaJob.oldImage
    rw [htotal]
    refine Mem.read_congr fun x hx ↦ ?_
    obtain ⟨i, rfl⟩ := Nat.exists_eq_add_of_le hx.1
    exact h.active i (.inr (Nat.lt_of_add_lt_add_left hx.2))
  · unfold DeltaJob.Checked at hchecked ⊢
    rw [htotal, hheader]
    exact hchecked
  · have hbehind := DeltaJob.end_le_blobBase (J := J)
    omega

/-- What END leaves: the image in the inactive slot, nothing else below it changed, and where the
version is allowed the request to boot it. -/
structure DeltaJob.Finished (J : DeltaJob σ) (s : σ) (img : SignedImage K)
    (r : Bool × OtaClient σ) : Prop where
  healthy : Healthy r.2.dev
  image : (byte r.2.dev).read J.inactiveBase img.bytes.length = img.bytes
  below : ∀ x < flashSectorStart J.inactiveBase, byte r.2.dev x = byte s x
  acked : r.1 = BootConfig.bootConfigFirmwareAllowed (loadedOn K r.2.dev) img.header.version
  requested : r.1 = true → r.2.shared.otaPending = 1 ∧ r.2.shared.bootConfirmed = 0

/-- END of a session whose patch makes a signed image: the version decides. -/
theorem DeltaJob.Session.finish (M : PatchMemory) {patch : List UInt8} {covers : List PatchCover}
    {newSize : UInt32} {img : SignedImage K} (h : J.Session s patch seq c)
    (hlen : patch.length = J.patchTotal) (hchecked : J.Checked s)
    (hpatch : PatchFile newSize covers patch) (hfits : ∀ c ∈ covers, c.Fits (J.oldImage s))
    (hnew : newImage (J.oldImage s) covers = img.bytes)
    (himg : img.bytes.length = J.expectedNewTotal) (hsize : newSize.toNat = J.expectedNewTotal)
    (hop : f.op = otaOpEnd) :
    ∃ fuel₀, ∀ fuel ≥ fuel₀, J.Finished s img (handleFrame (M.engine fuel) K f c) := by
  obtain ⟨hpatch', -, hold, hready, hblank⟩ := h.ready hlen
  rw [← hold] at hfits hnew
  have hchecked := hready hchecked
  have hlenNew : (newImage (J.oldImage c.dev) covers).length = J.expectedNewTotal := by
    rw [hnew, himg]
  obtain ⟨ct, fuel₀, hruns⟩ := DeltaJob.exists_run M hchecked.2.2.2.2
    (DeltaJob.rebuilds_start h.healthy hblank) (hpatch' ▸ hpatch) hfits hlenNew hsize
  refine ⟨fuel₀, fun fuel hfuel ↦ ?_⟩
  obtain ⟨st₁, st₂, l, hopen, hrun, left, hrebuilt⟩ := hruns fuel hfuel
  obtain ⟨hok, hread⟩ :=
    DeltaJob.deltaApplyPatch_of_run M hchecked hlenNew hsize hopen hrun hrebuilt
  have hhealthy := healthy_deltaApplyPatch (M.engine fuel) J.activeBase J.inactiveBase J.patchTotal
    J.expectedNewTotal h.healthy
  have hframe : ∀ x < J.inactiveBase, byte (deltaApplyPatch (M.engine fuel) J.activeBase
      J.inactiveBase J.patchTotal J.expectedNewTotal c.dev).2 x = byte c.dev x :=
    fun x hx ↦ deltaApplyPatch_frame (M.engine fuel) _ _ _ _ c.dev (.inl hx)
  have hend : handleFrame (M.engine fuel) K f c = endVerify K { c with
      dev := (deltaApplyPatch (M.engine fuel) J.activeBase J.inactiveBase J.patchTotal
        J.expectedNewTotal c.dev).2 } := by
    rw [handleFrame_end _ K c hop]
    unfold handleEnd
    rw [h.state]
    dsimp only
    rw [if_neg (by decide), if_neg (not_not.2 hlen), if_pos rfl, hok, if_neg (by decide)]
  have hslot : c.state.slotAddr = J.inactiveBase := by rw [h.state]
  rw [hend]
  generalize (deltaApplyPatch (M.engine fuel) J.activeBase J.inactiveBase J.patchTotal
    J.expectedNewTotal c.dev).2 = dev at hread hhealthy hframe
  rw [hnew, ← himg] at hread
  obtain ⟨hacked, hdev, hshared⟩ := endVerify_signed (c := { c with dev := dev })
    (show (byte dev).read c.state.slotAddr img.bytes.length = img.bytes by rw [hslot]; exact hread)
  have hsector := flashSectorStart_le J.inactiveBase
  refine ⟨hdev ▸ hhealthy, hdev ▸ hread, fun x hx ↦ ?_, hdev.symm ▸ hacked, fun hacked ↦ ?_⟩
  · rw [hdev]
    exact (hframe x (by omega)).trans (h.below x hx)
  · rw [hshared hacked]
    exact ⟨rfl, rfl⟩

theorem DataFrames.op {fs : List OtaFrame} {rest : List UInt8} (h : DataFrames seq rest fs) :
    ∀ f ∈ fs, f.op = otaOpData := by
  induction h with
  | nil => exact List.forall_mem_nil _
  | cons hop hseq hdata h ih => exact List.forall_mem_cons.2 ⟨hop, ih⟩

theorem handleFrame_congr (E E' : PatchEngine) (hop : f.op ≠ otaOpEnd) :
    handleFrame E K f c = handleFrame E' K f c := by
  unfold handleFrame
  rw [if_neg hop, if_neg hop]

/-- Only END runs the patch libraries. -/
theorem handleAll_congr (E E' : PatchEngine) {fs : List OtaFrame}
    (hops : ∀ f ∈ fs, f.op ≠ otaOpEnd) : handleAll E K fs c = handleAll E' K fs c := by
  induction fs generalizing c with
  | nil => rfl
  | cons f fs ih =>
      obtain ⟨hop, hops⟩ := List.forall_mem_cons.1 hops
      unfold handleAll
      dsimp only
      rw [handleFrame_congr E E' hop, ih hops]

/-- The pass after an update of slot B boots it. -/
theorem DeltaJob.Finished.delivers {img : SignedImage K} {r : Bool × OtaClient σ}
    (h : J.Finished s img r) (hacked : r.1 = true) (hslot : J.inactiveBase = slotBAddr)
    (hrecord : BootConfig.bootConfigValidate (readConfig s) = true →
      (readConfig s).activeSlot = slotA) :
    Delivers K ⟨r.2.dev, r.2.shared⟩ slotBAddr := by
  have himage := h.image
  have hallowed := h.acked
  rw [hslot] at himage
  rw [hacked, ← SignedImage.ofMem_eq himage] at hallowed
  obtain ⟨hpending, hconfirmed⟩ := h.requested hacked
  have hconfig : readConfig r.2.dev = readConfig s := by
    refine BootConfig.ofMem_congr fun x hx ↦ h.below x ?_
    rw [hslot, flashSectorStart_slotBAddr]
    have hend : bootConfigAddr + bootConfigRecordSize ≤ 0x08080000 := by decide
    exact Nat.lt_of_lt_of_le hx.2 hend
  refine delivers_slotB h.healthy (SignedImage.verifies himage) hallowed.symm ?_ ?_ ?_
  · show r.2.shared.otaPending ≠ 0
    rw [hpending]
    decide
  · show r.2.shared.confirmed = false
    rw [SharedBootBlock.confirmed, hconfirmed]
    exact Bool.and_false _
  · rw [hconfig]
    exact hrecord

/-- **A delta transfer.**  On a device that works, with an active image that the erase of the
other slot leaves alone: when START_DELTA names the active image by its digest, the DATA frames
carry a patch of the format in whatever pieces, and the patch makes a signed image of the active
one, then every frame up to END is acknowledged, END puts the signed image into the inactive slot,
and END is acknowledged exactly if the version is allowed.  An update of slot B that is
acknowledged is what the next pass boots. -/
theorem delta_transfer (M : PatchMemory) (J : DeltaJob σ) {c : OtaClient σ} {start stop : OtaFrame}
    {fs : List OtaFrame} {patch : List UInt8} {covers : List PatchCover} {newSize : UInt32}
    {img : SignedImage K} (hh : Healthy c.dev)
    (hactive : J.activeBase = memoryMapSlotAddr (loadedOn K c.dev).activeSlot)
    (hinactive : J.inactiveBase =
      memoryMapSlotAddr (memoryMapOtherSlot (loadedOn K c.dev).activeSlot))
    (hchecked : J.Checked c.dev) (hclear : J.Clear c.dev) (hstart : J.StartedBy c.dev start)
    (hframes : DataFrames (start.seq + 1) patch fs) (hlen : patch.length = J.patchTotal)
    (hpatch : PatchFile newSize covers patch) (hfits : ∀ c' ∈ covers, c'.Fits (J.oldImage c.dev))
    (hnew : newImage (J.oldImage c.dev) covers = img.bytes)
    (himg : img.bytes.length = J.expectedNewTotal) (hsize : newSize.toNat = J.expectedNewTotal)
    (hstop : stop.op = otaOpEnd) :
    ∃ fuel₀, ∀ fuel ≥ fuel₀,
      let opened := handleAll (M.engine fuel) K (start :: fs) c
      let closed := handleFrame (M.engine fuel) K stop opened.2
      opened.1 = true ∧
      (byte closed.2.dev).read J.inactiveBase img.bytes.length = img.bytes ∧
      closed.1 =
        BootConfig.bootConfigFirmwareAllowed (loadedOn K closed.2.dev) img.header.version ∧
      (closed.1 = true → J.inactiveBase = slotBAddr →
        (BootConfig.bootConfigValidate (readConfig c.dev) = true →
          (readConfig c.dev).activeSlot = slotA) →
        Delivers K ⟨closed.2.dev, closed.2.shared⟩ slotBAddr) := by
  have hbounds : firmwareHeaderSize ≤ J.expectedNewTotal ∧
      J.expectedNewTotal ≤ firmwareHeaderSize + firmwareMaxPayloadSize := by
    have hpayload := (FirmwareHeader.admissible_iff.1 img.admissible).2.2
    rw [← himg, img.length_bytes]
    omega
  have hops : ∀ f ∈ start :: fs, f.op ≠ otaOpEnd :=
    List.forall_mem_cons.2 ⟨by rw [hstart.op]; decide, fun f hf ↦ by rw [hframes.op f hf]; decide⟩
  -- the engine first runs at END
  obtain ⟨hopened, hsession⟩ := hstart.session (E := M.engine 0) (K := K) hh hactive hinactive
    hchecked hclear hbounds
  obtain ⟨hacked, seq', hsession⟩ := hsession.handleAll (E := M.engine 0) (K := K)
    hchecked.2.2.2.2 hframes (Nat.le_of_eq hlen)
  have hall : handleAll (M.engine 0) K (start :: fs) c =
      handleAll (M.engine 0) K fs (handleFrame (M.engine 0) K start c).2 := if_pos hopened
  obtain ⟨fuel₀, hfinish⟩ := hsession.finish M hlen hchecked hpatch hfits hnew himg hsize hstop
  refine ⟨fuel₀, fun fuel hfuel ↦ ?_⟩
  dsimp only
  rw [handleAll_congr (M.engine fuel) (M.engine 0) hops, hall]
  have hfinished := hfinish fuel hfuel
  exact ⟨hacked, hfinished.image, hfinished.acked, hfinished.delivers⟩

end Transfer

/-! ## A small update -/

/-- The covers from one sample image to another: the magic, another version, and the rest. -/
def versionCovers : List PatchCover := [⟨[], 0, .copy 4⟩, ⟨[0xFF, 0xFF, 0xFF, 0xFF], 8, .copy 508⟩]

def versionPatch : List UInt8 :=
  [0x68, 0x49, 0x00, 0x52, 0x04, 0x02, 0, 0,
    2, 4, 0x80, 0, 0x83, 0x7C, 0x84, 4, 0xFF, 0xFF, 0xFF, 0xFF]

theorem patchFile_versionPatch : PatchFile 516 versionCovers versionPatch := by
  have hhead : PatchHead hpiCompressTypeNo 516 [0x68, 0x49, 0x00, 0x52, 0x04, 0x02, 0, 0] :=
    @PatchHead.mk _ _ 0x68 0x49 0x52 [0x04, 0x02] [0, 0] rfl rfl rfl
  have hmagic : CoverCode 0 ⟨[], 0, .copy 4⟩ [4, 0x80, 0] :=
    @CoverCode.mk _ _ [4] [] [0] 0x80 0 (.last (by decide)) ⟨rfl, rfl⟩ rfl
      (iff_of_true (by decide) ⟨4, rfl⟩) (.last (by decide))
  have hversion : CoverCode 4 ⟨[0xFF, 0xFF, 0xFF, 0xFF], 8, .copy 508⟩
      [0x83, 0x7C, 0x84, 4, 0xFF, 0xFF, 0xFF, 0xFF] :=
    @CoverCode.mk _ _ [0x83, 0x7C] [] [4] 0x84 4 (.more (by decide) (.last (by decide)))
      ⟨rfl, rfl⟩ rfl (iff_of_true (by decide) ⟨508, rfl⟩) (.last (by decide))
  exact .no hhead (@PatchCode.mk _ [2] _ (.last (by decide)) (.cons hmagic (.cons hversion .nil)))

def versionJob : DeltaJob Hw where
  activeBase := slotAAddr
  inactiveBase := slotBAddr
  patchTotal := 20
  expectedNewTotal := 516
  slots := slots_slotA_slotB
  fits := by decide

/-- A flash with the default record and a sample image in slot A. -/
def versionMem : Mem := Mem.write defaultMem slotAAddr (sampleImage 1).bytes

def versionDev : Hw := Hw.reset versionMem

theorem read_versionMem : versionMem.read slotAAddr (sampleImage 1).bytes.length =
    (sampleImage 1).bytes := Mem.read_write _ _ _

theorem byte_reset (m : Mem) : byte (Hw.reset m) = m := rfl

theorem byte_versionDev : byte versionDev = versionMem := byte_reset versionMem

theorem header_versionJob : FirmwareHeader.ofMem (byte versionDev) versionJob.activeBase =
    sampleHeader 1 := by
  rw [byte_versionDev]
  exact SignedImage.ofMem_eq read_versionMem

theorem activeTotal_versionJob : versionJob.activeTotal versionDev = 516 := by
  rw [DeltaJob.activeTotal, header_versionJob, FirmwareHeader.logicalTotal, imageSize_sampleHeader]
  decide

theorem oldImage_versionJob : versionJob.oldImage versionDev = (sampleImage 1).bytes := by
  have hread := read_versionMem
  rw [length_sampleImage] at hread
  rw [DeltaJob.oldImage, activeTotal_versionJob, byte_versionDev]
  exact hread

/-- What sample images have in common behind the version. -/
def sampleTail : List UInt8 :=
  bytes32 4 ++ (bytes32 0 ++ (bytes32 (crc32 samplePayload) ++ (List.replicate 31 0 ++ ([1] ++
    (List.replicate 31 0 ++ ([1] ++ (List.replicate 428 0 ++ samplePayload)))))))

theorem bytes_sampleImage (version : UInt32) :
    (sampleImage version).bytes = bytes32 firmwareMagic ++ (bytes32 version ++ sampleTail) := by
  show bytes32 firmwareMagic ++ bytes32 version ++ bytes32 4 ++ bytes32 0 ++
    bytes32 (crc32 samplePayload) ++
    (List.replicate 31 0 ++ [1] ++ List.replicate 31 0 ++ [1]) ++ List.replicate 428 0 ++
      samplePayload = _
  simp only [List.append_assoc, sampleTail]

theorem newImage_versionCovers :
    newImage (sampleImage 1).bytes versionCovers = (sampleImage 0xFFFFFFFF).bytes := by
  have hlen : sampleTail.length = 508 := by
    simp only [sampleTail, samplePayload, List.length_append, length_bytes32,
      List.length_replicate, List.length_singleton]
  have hmagic : (bytes32 firmwareMagic ++ (bytes32 1 ++ sampleTail)).take 4 =
      bytes32 firmwareMagic := List.take_left' (length_bytes32 _)
  have htail : (bytes32 firmwareMagic ++ (bytes32 1 ++ sampleTail)).drop 8 = sampleTail := by
    rw [← List.append_assoc]
    exact List.drop_left' rfl
  have hrest : sampleTail.take 508 = sampleTail := List.take_of_length_le (Nat.le_of_eq hlen)
  rw [bytes_sampleImage, bytes_sampleImage]
  show [] ++ ((bytes32 firmwareMagic ++ (bytes32 1 ++ sampleTail)).drop 0).take 4 ++
    ([0xFF, 0xFF, 0xFF, 0xFF] ++
      ((bytes32 firmwareMagic ++ (bytes32 1 ++ sampleTail)).drop 8).take 508 ++ []) = _
  rw [List.drop_zero, hmagic, htail, hrest, List.append_nil, List.nil_append]
  rfl

/-- START_DELTA for the patch. -/
def versionStart : OtaFrame where
  op := otaOpStartDelta
  seq := 1
  data := bytes32 20 ++ (bytes32 516 ++ sha256 (sampleImage 1).bytes)
  length_le := by
    rw [List.length_append, List.length_append, length_bytes32, length_bytes32, length_sha256]
    decide

def versionData : OtaFrame := ⟨otaOpData, 2, versionPatch, by decide⟩

theorem readConfig_versionDev : readConfig versionDev = BootConfig.bootConfigDefault := by
  unfold readConfig
  rw [byte_versionDev, ← ofMem_defaultMem]
  refine BootConfig.ofMem_congr fun x hx ↦ ?_
  unfold versionMem
  refine Mem.write_of_notMem _ _ _ _ (.inl ?_)
  have hend : bootConfigAddr + bootConfigRecordSize ≤ slotAAddr := by decide
  exact Nat.lt_of_lt_of_le hx.2 hend

theorem activeSlot_versionDev : (loadedOn sampleKeys versionDev).activeSlot = slotA := by
  have hvalid : BootConfig.bootConfigValidate (readConfig versionDev) = true :=
    readConfig_versionDev ▸ BootConfig.bootConfigValidate_default
  rw [loadedOn_of_valid sampleKeys hvalid, readConfig_versionDev]
  rfl

theorem checked_versionJob : versionJob.Checked versionDev := by
  unfold DeltaJob.Checked
  rw [header_versionJob, magic_sampleHeader, imageSize_sampleHeader, activeTotal_versionJob]
  decide

theorem clear_versionJob : versionJob.Clear versionDev := by
  intro i hi hcovered
  have hsector := hcovered.1
  rw [activeTotal_versionJob] at hi
  rw [show versionJob.inactiveBase = slotBAddr from rfl, flashSectorStart_slotBAddr] at hsector
  simp only [versionJob, slotAAddr, firmwareHeaderSize] at hsector hi
  omega

theorem startedBy_versionStart : versionJob.StartedBy versionDev versionStart := by
  refine ⟨rfl, ?_, rfl, rfl, ?_⟩
  · show otaStartDeltaPayload ≤ (bytes32 20 ++ (bytes32 516 ++ sha256 _)).length
    rw [List.length_append, List.length_append, length_bytes32, length_bytes32, length_sha256]
    decide
  · rw [oldImage_versionJob, ← sha256_eq_digest]
    exact List.take_of_length_le (Nat.le_of_eq (length_sha256 _))

theorem fits_versionCovers : ∀ c ∈ versionCovers, c.Fits (sampleImage 1).bytes := by
  intro c hc
  unfold PatchCover.Fits
  rw [length_sampleImage]
  rcases List.mem_pair.1 hc with rfl | rfl <;> decide

theorem delta_transfer_sample : ∃ fuel₀, ∀ fuel ≥ fuel₀,
    let opened := handleAll (zeroMemory.engine fuel) sampleKeys [versionStart, versionData]
      ⟨.cleared, versionDev, .zero⟩
    let closed := handleFrame (zeroMemory.engine fuel) sampleKeys (endFrame 0) opened.2
    opened.1 = true ∧ closed.1 = true ∧
    (byte closed.2.dev).read slotBAddr (sampleImage 0xFFFFFFFF).bytes.length =
      (sampleImage 0xFFFFFFFF).bytes ∧
    Delivers sampleKeys ⟨closed.2.dev, closed.2.shared⟩ slotBAddr := by
  have hload := activeSlot_versionDev
  have hframes : DataFrames (versionStart.seq + 1) (versionPatch ++ []) [versionData] :=
    @DataFrames.cons 2 versionData [] [] rfl rfl (List.cons_ne_nil _ _) .nil
  have hfits : ∀ c ∈ versionCovers, c.Fits (versionJob.oldImage versionDev) :=
    oldImage_versionJob ▸ fits_versionCovers
  have hnew : newImage (versionJob.oldImage versionDev) versionCovers =
      (sampleImage 0xFFFFFFFF).bytes := oldImage_versionJob ▸ newImage_versionCovers
  -- no version is above the sample's
  have hallowed : ∀ cfg, BootConfig.bootConfigFirmwareAllowed cfg
      (sampleImage 0xFFFFFFFF).header.version = true := fun cfg ↦ by
    rw [BootConfig.bootConfigFirmwareAllowed_iff, header_sampleImage, version_sampleHeader]
    exact Nat.le_of_lt_succ (UInt32.toNat_lt _)
  obtain ⟨fuel₀, h⟩ := delta_transfer zeroMemory versionJob
    (c := ⟨.cleared, versionDev, .zero⟩) (Hw.healthy_reset _) (by rw [hload]; rfl)
    (by rw [hload]; rfl) checked_versionJob clear_versionJob startedBy_versionStart hframes rfl
    patchFile_versionPatch hfits hnew (length_sampleImage _) rfl
    (show (endFrame 0).op = otaOpEnd from rfl)
  refine ⟨fuel₀, fun fuel hfuel ↦ ?_⟩
  obtain ⟨hopened, himage, hacked, hdelivers⟩ := h fuel hfuel
  have hclosed := hacked.trans (hallowed _)
  exact ⟨hopened, hclosed, himage,
    hdelivers hclosed rfl fun _ ↦ by rw [readConfig_versionDev]; rfl⟩

end DualBank
