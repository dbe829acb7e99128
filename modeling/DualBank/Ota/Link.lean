import DualBank.Ota.Push
import DualBank.Ota.Session

/-!
# Host and receiver

A push and the receiver, joined by two links that keep the order of what they carry
and may delay it, lose it or spoil it.  The host may take any answer that has arrived,
or none at all, at any moment.

Sequence numbers wrap, so they alone do not tell a late frame from a new one.  What does
is the order of the links: what is in flight are copies of the frame the host waits
for, behind copies of the one before.
-/

namespace DualBank

open Lib FlashBackend

/-! ## The system -/

/-- What `read_frame` makes of a silent line, of noise and of a spoiled frame. -/
inductive ReadError where
  | timeout
  | crcBad
  | tooBig
  | badSoh

def ReadError.status : ReadError → FrameStatus
  | timeout => .timeout
  | crcBad => .crcBad
  | tooBig => .tooBig
  | badSoh => .badSoh

/-- A host, a receiver, and what is in flight between them.  `acked` is the history: the
frames the receiver has acknowledged. -/
structure Link (σ : Type) where
  host : HostProgram Bool
  down : List OtaFrame
  up : List OtaResponse
  rx : Receiver σ
  acked : List OtaFrame

inductive LinkEvent where
  /-- The receiver reads the next frame. -/
  | deliver
  /-- A frame in flight is lost.  A spoiled frame is a lost one and a read error. -/
  | dropFrame (i : Nat)
  | readError (e : ReadError)
  /-- The host reads the next response. -/
  | respond
  /-- A response in flight is lost. -/
  | dropResponse (i : Nat)
  /-- The host's read times out, or what it has read is malformed. -/
  | noResponse

variable {σ : Type}

/-- The host goes on as `p`: if it has a frame to send, it sends it. -/
def Link.resume (p : HostProgram Bool) (l : Link σ) : Link σ :=
  match p with
  | .ret _ => { l with host := p }
  | .call f _ => { l with host := p, down := l.down ++ [f] }

/-- The host gets an answer. -/
def Link.answer (a : Option OtaResponse) (l : Link σ) : Link σ :=
  match l.host with
  | .ret _ => l
  | .call _ k => l.resume (k a)

/-- A push to a receiver in any state, with nothing in flight. -/
def Link.start (image : List UInt8) (chunk : ChunkSize) (rx : Receiver σ) : Link σ :=
  Link.resume (push image chunk) ⟨.ret false, [], [], rx, []⟩

section Step

variable [FlashBackend σ] (E : PatchEngine) (K : KeyStore)

def linkStep (l : Link σ) : LinkEvent → Link σ
  | .deliver =>
    match l.down with
    | [] => l
    | f :: fs =>
      let r := receiveStep E K (.ok f) l.rx
      { l with
        down := fs
        up := l.up ++ r.1.toList
        rx := r.2
        acked := if isAcked r.1 then l.acked ++ [f] else l.acked }
  | .dropFrame i => { l with down := l.down.eraseIdx i }
  | .readError e =>
    let r := receiveStep E K e.status l.rx
    { l with up := l.up ++ r.1.toList, rx := r.2 }
  | .respond =>
    match l.up with
    | [] => l
    | r :: rs => Link.answer (some r) { l with up := rs }
  | .dropResponse i => { l with up := l.up.eraseIdx i }
  | .noResponse => l.answer none

end Step

/-! ## What the receiver has taken -/

/-- The session after frames that were all acknowledged. -/
def sessionOf (taken : List OtaFrame) : Transfer :=
  taken.foldl (fun g f ↦ g.note f true) ⟨0, []⟩

theorem sessionOf_append (taken : List OtaFrame) (f : OtaFrame) :
    sessionOf (taken ++ [f]) = (sessionOf taken).note f true := by
  unfold sessionOf
  rw [List.foldl_append, List.foldl_cons, List.foldl_nil]

/-- DATA frames add their bytes to a session, END adds nothing. -/
theorem flatten_foldl_note {fs : List OtaFrame} (g : Transfer)
    (h : ∀ f ∈ fs, f.op = otaOpData ∨ f.op = otaOpEnd ∧ f.data = []) :
    (fs.foldl (fun g f ↦ g.note f true) g).acked.flatten =
      g.acked.flatten ++ fs.flatMap OtaFrame.data := by
  induction fs generalizing g with
  | nil => exact (List.append_nil _).symm
  | cons f fs ih =>
      have hnote : (g.note f true).acked.flatten = g.acked.flatten ++ f.data := by
        rcases h f (List.mem_cons_self ..) with hop | ⟨hop, hd⟩
        · rw [Transfer.note_data hop, List.flatten_append, List.flatten_singleton]
        · rw [Transfer.note_of_ne (by rw [hop]; decide) (by rw [hop]; decide), hd, List.append_nil]
      rw [List.foldl_cons, ih _ fun x hx ↦ h x (List.mem_cons_of_mem _ hx), hnote,
        List.flatMap_cons, List.append_assoc]

/-- The bytes of the first frames of a push are a prefix of the image. -/
theorem sessionOf_prefix {image : List UInt8} {chunk : ChunkSize} {taken rest : List OtaFrame}
    (h : pushFrames image chunk = taken ++ rest) :
    (sessionOf taken).acked.flatten <+: image := by
  cases taken with
  | nil => exact List.nil_prefix
  | cons s ds =>
      obtain ⟨hs, htail⟩ : startFrame image.length = s ∧ imageFrames image chunk ++
          [endFrame (UInt16.ofNat (imageFrames image chunk).length + 2)] = ds ++ rest :=
        List.cons.inj h
      have hall : ∀ f ∈ ds ++ rest, f.op = otaOpData ∨ f.op = otaOpEnd ∧ f.data = [] := by
        intro f hf
        rw [← htail] at hf
        rcases List.mem_append.1 hf with hf | hf
        · exact .inl (imageFrames_data image chunk hf).1
        · rw [List.mem_singleton.1 hf]
          exact .inr ⟨rfl, rfl⟩
      have hbytes : (ds ++ rest).flatMap OtaFrame.data = image := by
        rw [← htail]
        exact (List.flatMap_append.trans (List.append_nil _)).trans
          (imageFrames_flatMap image chunk)
      have hstart : sessionOf (s :: ds) =
          ds.foldl (fun g f ↦ g.note f true) ⟨1, []⟩ := by
        rw [← hs]; rfl
      rw [hstart, flatten_foldl_note _ fun f hf ↦ hall f (List.mem_append_left _ hf), ← hbytes,
        List.flatMap_append]
      exact List.prefix_append _ _

section Receiver

variable [FlashBackend σ]

/-- The session is the one of the frames `taken`, of a push of `total` bytes. -/
structure OtaClient.Took (c : OtaClient σ) (total : Nat) (taken : List OtaFrame) : Prop where
  active : c.state.active = true
  kind : c.state.kind = .full
  xferTotal : c.state.xferTotal = total
  holds : c.Holds (sessionOf taken)
  /-- The last frame is recognised when it comes again. -/
  seq : ∀ f, taken.getLast? = some f → f.op ≠ otaOpEnd → c.state.expectedSeq = f.seq + 1
  full : ∀ f ∈ taken, f.op = otaOpEnd → c.state.written = c.state.xferTotal

/-- The receiver has taken these frames. -/
structure Receiver.Took (r : Receiver σ) (total : Nat) (taken : List OtaFrame) : Prop where
  client : taken ≠ [] → r.client.Took total taken
  ended : (∃ f ∈ taken, f.op = otaOpEnd) → r.status ≠ .receiving

variable {E : PatchEngine} {K : KeyStore} {c : OtaClient σ} {f : OtaFrame}
  {taken : List OtaFrame} {total : Nat}

/-- What the START of a push opens. -/
theorem opening_startFrame (hlt : total < 2 ^ 32) :
    opening K (startFrame total) c =
      if total < firmwareHeaderSize ∨ total > firmwareHeaderSize + firmwareMaxPayloadSize then none
      else
        let slotAddr := memoryMapSlotAddr (memoryMapOtherSlot (loadedOn K c.dev).activeSlot)
        some ⟨slotAddr, total,
          { c.state with
            active := true
            kind := .full
            slotAddr := slotAddr
            xferTotal := total
            written := 0
            expectedSeq := 2 }⟩ := by
  have hnum : (u32At (startFrame total).data 0).toNat = total := by
    have hle : u32At (startFrame total).data 0 = total.toUInt32 := le32_bytes total.toUInt32
    rw [hle]
    exact Nat.mod_eq_of_lt hlt
  have hlen : ¬(startFrame total).data.length < 4 := by
    have h4 : (startFrame total).data.length = 4 := length_bytes32 _
    omega
  unfold opening startOpens
  rw [if_pos (show (startFrame total).op = otaOpStart from rfl), hnum, if_neg hlen]
  rfl

/-- START opens the session of a push, and opens it again when it comes again. -/
theorem took_start (hlt : total < 2 ^ 32) :
    ((handleFrame E K (startFrame total) c).1 = true →
        (handleFrame E K (startFrame total) c).2.Took total [startFrame total]) ∧
      ((handleFrame E K (startFrame total) c).1 = false → c.Took total [startFrame total] →
        (handleFrame E K (startFrame total) c).2.Took total [startFrame total]) := by
  have hseq : ∀ e : UInt16, e = 2 → ∀ g, [startFrame total].getLast? = some g →
      e = g.seq + 1 := fun e he g hg ↦ by cases hg; exact he
  have hend : ∀ g ∈ [startFrame total], g.op ≠ otaOpEnd := fun g hg ↦ by
    rw [List.mem_singleton.1 hg]
    exact show otaOpStart ≠ otaOpEnd by decide
  rw [handleFrame_of_opens E K c (.inl rfl), opening_startFrame hlt]
  unfold openSession
  split_ifs with hsize
  · exact ⟨fun h ↦ (by cases h), fun _ h ↦ h⟩
  · dsimp only
    split_ifs with hok
    · refine ⟨fun _ ↦ ⟨rfl, rfl, rfl, ⟨Nat.zero_le _, rfl, rfl⟩, fun g hg _ ↦ hseq 2 rfl g hg,
        fun g hg h ↦ absurd h (hend g hg)⟩, fun h ↦ (by cases h)⟩
    · refine ⟨fun h ↦ (by cases h), fun _ h ↦ ⟨h.active, h.kind, h.xferTotal, ?_, h.seq, h.full⟩⟩
      -- nothing has been stored yet, so the failed erase spoils nothing
      have hst : (byte c.dev).read c.state.slotAddr c.state.written = [] := h.holds.staged
      have h0 : c.state.written = 0 := by
        have hlen := congrArg List.length hst
        rwa [Mem.length_read] at hlen
      refine ⟨h.holds.written_le, h.holds.seq, ?_⟩
      dsimp only
      rw [h0]
      rfl

/-- A DATA frame adds its bytes if it is acknowledged. -/
theorem took_data (hop : f.op = otaOpData) (h : c.Took total taken)
    (hend : ∀ g ∈ taken, g.op ≠ otaOpEnd) :
    ((handleFrame E K f c).1 = true → (handleFrame E K f c).2.Took total (taken ++ [f])) ∧
      ((handleFrame E K f c).1 = false → (handleFrame E K f c).2.Took total taken) := by
  have hinv : (handleFrame E K f c).2.Inv ((sessionOf taken).note f (handleFrame E K f c).1) :=
    inv_handleFrame (fun _ _ ↦ h.holds) fun o ho ↦ by
      unfold opening at ho
      rw [hop, if_neg (by decide), if_neg (by decide)] at ho
      cases ho
  rw [handleFrame_data E K c hop] at hinv ⊢
  unfold handleData at hinv ⊢
  cases hd : dataDest f c.state with
  | none => exact ⟨fun h ↦ (by cases h), fun _ ↦ h⟩
  | some dest =>
      rw [hd] at hinv
      dsimp only at hinv ⊢
      split_ifs at hinv ⊢ with hok
      · refine ⟨fun h ↦ (by cases h), fun _ ↦ ⟨h.active, h.kind, h.xferTotal,
          hinv h.active h.kind, h.seq, h.full⟩⟩
      · refine ⟨fun _ ↦ ⟨h.active, h.kind, h.xferTotal, ?_, ?_, ?_⟩, fun h ↦ (by cases h)⟩
        · rw [sessionOf_append]
          exact hinv h.active h.kind
        · intro g hg _
          rw [List.getLast?_concat] at hg
          cases hg
          unfold dataDest at hd
          split_ifs at hd with h₁ h₂ h₃ h₄ h₅ <;>
            exact congrArg (· + 1) (not_not.mp h₂).symm
        · intro g hg hgop
          rcases List.mem_append.1 hg with hg | hg
          · exact absurd hgop (hend g hg)
          · rw [List.mem_singleton.1 hg, hop] at hgop
            exact absurd hgop (by decide)

/-- A DATA frame that comes again is refused. -/
theorem took_data_again (hop : f.op = otaOpData) (h : c.Took total taken)
    (hlast : taken.getLast? = some f) : handleFrame E K f c = (false, c) := by
  have hne : f.seq ≠ c.state.expectedSeq := by
    rw [h.seq f hlast (by rw [hop]; decide)]
    exact fun he ↦ absurd (UInt16.add_right_inj f.seq |>.1 (he.symm.trans (UInt16.add_zero _).symm))
      (by decide)
  have hd : dataDest f c.state = none := by
    unfold dataDest
    rw [h.active, if_neg (by decide), if_pos hne]
  rw [handleFrame_data E K c hop]
  unfold handleData
  rw [hd]

/-- END is acknowledged only when the session is complete. -/
theorem took_end (hop : f.op = otaOpEnd) (h : c.Took total taken) :
    ((handleFrame E K f c).1 = true → (handleFrame E K f c).2.Took total (taken ++ [f])) ∧
      ((handleFrame E K f c).1 = false → (handleFrame E K f c).2.Took total taken) := by
  rw [handleFrame_end E K c hop]
  obtain ⟨hst, hdev⟩ := handleEnd_frame E K c
  have hholds : (handleEnd E K c).2.Holds (sessionOf taken) := by
    refine ⟨?_, ?_, ?_⟩
    · rw [hst]; exact h.holds.written_le
    · rw [hst]; exact h.holds.seq
    · rw [hst, hdev h.kind]; exact h.holds.staged
  constructor
  · intro hok
    have hfull : c.state.written = c.state.xferTotal := by
      unfold handleEnd at hok
      by_contra hne
      rw [h.active, if_neg (by decide), if_pos hne] at hok
      cases hok
    have hnote : sessionOf (taken ++ [f]) = sessionOf taken := by
      rw [sessionOf_append, Transfer.note_of_ne (by rw [hop]; decide) (by rw [hop]; decide)]
    refine ⟨by rw [hst]; exact h.active, by rw [hst]; exact h.kind, by rw [hst]; exact h.xferTotal,
      hnote ▸ hholds, fun g hg hgop ↦ ?_, fun _ _ _ ↦ by rw [hst]; exact hfull⟩
    rw [List.getLast?_concat] at hg
    cases hg
    exact absurd hop hgop
  · intro _
    exact ⟨by rw [hst]; exact h.active, by rw [hst]; exact h.kind, by rw [hst]; exact h.xferTotal,
      hholds, fun g hg hgop ↦ by rw [hst]; exact h.seq g hg hgop,
      fun g hg hgop ↦ by rw [hst]; exact h.full g hg hgop⟩

/-! ## What a frame does to the receiver -/

variable {r : Receiver σ} {image : List UInt8} {chunk : ChunkSize} {fs : List OtaFrame}

/-- Once it has ended, the receiver does not answer. -/
theorem receiveStep_ended (hrx : r.status ≠ .receiving) (s : FrameStatus) :
    receiveStep E K s r = (none, r) := by
  unfold receiveStep
  rw [if_pos hrx]

/-- The frames of a push are not ABORT. -/
theorem pushFrames_op {taken : List OtaFrame} (hfr : pushFrames image chunk = taken ++ f :: fs) :
    f.op ≠ otaOpAbort := by
  rcases pushFrames_next image chunk hfr with ⟨-, rfl⟩ | ⟨-, ⟨hop, -⟩ | ⟨hop, -⟩⟩
  · exact show otaOpStart ≠ otaOpAbort by decide
  · rw [hop]; decide
  · rw [hop]; decide

/-- The next frame of a push is taken and acknowledged, or neither. -/
theorem Receiver.Took.next (hlt : image.length < 2 ^ 32)
    (hfr : pushFrames image chunk = taken ++ f :: fs) (h : r.Took image.length taken) :
    ((receiveStep E K (.ok f) r).1 = some ⟨otaRespAck, f.seq⟩ ∧
        (receiveStep E K (.ok f) r).2.Took image.length (taken ++ [f])) ∨
      (isAcked (receiveStep E K (.ok f) r).1 = false ∧
        (receiveStep E K (.ok f) r).2.Took image.length taken) := by
  by_cases hrx : r.status = .receiving
  · have hend : ∀ g ∈ taken, g.op ≠ otaOpEnd := fun g hg hop ↦ h.ended ⟨g, hg, hop⟩ hrx
    -- what the handler does, for each kind of frame
    have hclient : ((handleFrame E K f r.client).1 = true →
          (handleFrame E K f r.client).2.Took image.length (taken ++ [f])) ∧
        ((handleFrame E K f r.client).1 = false → taken ≠ [] →
          (handleFrame E K f r.client).2.Took image.length taken) := by
      rcases pushFrames_next image chunk hfr with ⟨rfl, rfl⟩ | ⟨hne, ⟨hop, -⟩ | ⟨hop, -⟩⟩
      · exact ⟨(took_start hlt).1, fun _ hne ↦ absurd rfl hne⟩
      · have := took_data (E := E) (K := K) hop (h.client hne) hend
        exact ⟨this.1, fun hf _ ↦ this.2 hf⟩
      · have := took_end (E := E) (K := K) hop (h.client hne)
        exact ⟨this.1, fun hf _ ↦ this.2 hf⟩
    obtain ⟨hack, hnak⟩ := receiveStep_ok (E := E) (K := K) hrx (pushFrames_op hfr)
    cases hok : (handleFrame E K f r.client).1 with
    | true =>
        rw [hack hok]
        refine .inl ⟨rfl, fun _ ↦ hclient.1 hok, ?_⟩
        rintro ⟨g, hg, hgop⟩
        rcases List.mem_append.1 hg with hg | hg
        · exact absurd hgop (hend g hg)
        · rw [List.mem_singleton.1 hg] at hgop
          dsimp only
          rw [if_pos hgop]
          decide
    | false =>
        rw [hnak hok]
        exact .inr ⟨rfl, fun hne ↦ hclient.2 hok hne, fun ⟨g, hg, hgop⟩ ↦ absurd hgop (hend g hg)⟩
  · rw [receiveStep_ended hrx]
    exact .inr ⟨rfl, h⟩

/-- The last frame taken changes nothing when it comes again. -/
theorem Receiver.Took.again (hlt : image.length < 2 ^ 32)
    (hfr : pushFrames image chunk = taken ++ fs) (hlast : taken.getLast? = some f)
    (h : r.Took image.length taken) :
    (isAcked (receiveStep E K (.ok f) r).1 = true →
        (receiveStep E K (.ok f) r).1 = some ⟨otaRespAck, f.seq⟩) ∧
      (receiveStep E K (.ok f) r).2.Took image.length taken := by
  by_cases hrx : r.status = .receiving
  · have hend : ∀ g ∈ taken, g.op ≠ otaOpEnd := fun g hg hop ↦ h.ended ⟨g, hg, hop⟩ hrx
    obtain ⟨done, rfl⟩ := List.getLast?_eq_some_iff.1 hlast
    have hne : done ++ [f] ≠ [] := List.append_ne_nil_of_right_ne_nil _ (List.cons_ne_nil f [])
    rw [List.append_assoc] at hfr
    have hclient : (handleFrame E K f r.client).2.Took image.length (done ++ [f]) := by
      rcases pushFrames_next image chunk hfr with ⟨rfl, rfl⟩ | ⟨-, ⟨hop, -⟩ | ⟨hop, -⟩⟩
      · cases hok : (handleFrame E K (startFrame image.length) r.client).1 with
        | true => exact (took_start hlt).1 hok
        | false => exact (took_start hlt).2 hok (h.client hne)
      · rw [took_data_again hop (h.client hne) hlast]
        exact h.client hne
      · exact absurd hop (hend f (List.mem_append_right _ (List.mem_singleton_self f)))
    obtain ⟨hack, hnak⟩ := receiveStep_ok (E := E) (K := K) hrx (pushFrames_op hfr)
    cases hok : (handleFrame E K f r.client).1 with
    | true =>
        rw [hack hok]
        exact ⟨fun _ ↦ rfl, fun _ ↦ hclient, fun ⟨g, hg, hgop⟩ ↦ absurd hgop (hend g hg)⟩
    | false =>
        rw [hnak hok]
        exact ⟨fun h ↦ (by cases h), fun _ ↦ hclient,
          fun ⟨g, hg, hgop⟩ ↦ absurd hgop (hend g hg)⟩
  · rw [receiveStep_ended hrx]
    exact ⟨fun h ↦ (by cases h), h⟩

/-- A read error changes neither the session nor the flash. -/
theorem Receiver.Took.readError {taken : List OtaFrame} (h : r.Took total taken) (e : ReadError) :
    isAcked (receiveStep E K e.status r).1 = false ∧
      (receiveStep E K e.status r).2.Took total taken := by
  by_cases hrx : r.status = .receiving
  · have herr : r.countError.Took total taken :=
      ⟨h.client, fun hx ↦ absurd hrx (h.ended hx)⟩
    unfold receiveStep
    rw [if_neg (not_not.mpr hrx)]
    cases e <;> exact ⟨rfl, herr⟩
  · rw [receiveStep_ended hrx]
    exact ⟨rfl, h⟩

end Receiver

/-! ## The joint invariant -/

section Link

variable [FlashBackend σ]

/-- The frames the receiver has taken, when the host waits for `f` after `done`. -/
def takenOf (done : List OtaFrame) (f : OtaFrame) (acc : Bool) : List OtaFrame :=
  if acc then done ++ [f] else done

/-- The host waits for the answer to `f`, with the frames `fs` to go, or has ended. -/
def WaitsFor (host : HostProgram Bool) (f : OtaFrame) (fs : List OtaFrame) : Prop :=
  (∃ n, host = (sendAttempts f f.seq (n + 1)).bind fun ok ↦
    if ok then sendAll fs else .ret false) ∨ ∃ b, host = .ret b

/-- What is in flight and what has been taken when the host has sent `done` with success
and has come to `f`; `acc` says whether the receiver has taken `f`. -/
structure Link.At (l : Link σ) (image : List UInt8) (chunk : ChunkSize) (done : List OtaFrame)
    (f : OtaFrame) (fs : List OtaFrame) (acc : Bool) : Prop where
  frames : pushFrames image chunk = done ++ f :: fs
  /-- Copies of the frame before, then copies of `f`. -/
  down : ∃ olds news, l.down = olds ++ news ∧ (∀ g ∈ olds, done.getLast? = some g) ∧
    (∀ g ∈ news, g = f) ∧ (acc = true → olds = [])
  /-- Responses to the frame before, then responses to `f`. -/
  up : ∃ older newer, l.up = older ++ newer ∧
    (∀ r ∈ older, r.code = otaRespAck → r.seq + 1 = f.seq) ∧
    (∀ r ∈ newer, r.code = otaRespAck → r.seq = f.seq) ∧ (acc = false → newer = [])
  rx : l.rx.Took image.length (takenOf done f acc)
  acked : ∀ g ∈ l.acked, g ∈ takenOf done f acc

/-- The invariant of a push. -/
def Link.Inv (image : List UInt8) (chunk : ChunkSize) (l : Link σ) : Prop :=
  ∃ done f fs acc, l.At image chunk done f fs acc ∧ WaitsFor l.host f fs

variable {image : List UInt8} {chunk : ChunkSize} {l : Link σ} {done : List OtaFrame}
  {f : OtaFrame} {fs : List OtaFrame} {acc : Bool} {E : PatchEngine} {K : KeyStore}

/-- The taken frames are the first ones of the push. -/
theorem Link.At.rest (h : l.At image chunk done f fs acc) :
    ∃ rest, pushFrames image chunk = takenOf done f acc ++ rest := by
  cases acc with
  | false => exact ⟨f :: fs, h.frames⟩
  | true => exact ⟨fs, by rw [h.frames, takenOf, if_pos rfl, List.append_assoc]; rfl⟩

/-- Losing frames in flight. -/
theorem Link.At.lose_down (h : l.At image chunk done f fs acc) {down : List OtaFrame}
    (hsub : down.Sublist l.down) : Link.At { l with down := down } image chunk done f fs acc := by
  obtain ⟨olds, news, hd, holds, hnews, hacc⟩ := h.down
  rw [hd] at hsub
  obtain ⟨olds', news', rfl, ho, hn⟩ := List.sublist_append_iff.1 hsub
  refine ⟨h.frames, ⟨olds', news', rfl, fun g hg ↦ holds g (ho.subset hg),
    fun g hg ↦ hnews g (hn.subset hg), fun ha ↦ ?_⟩, h.up, h.rx, h.acked⟩
  rw [hacc ha] at ho
  exact List.sublist_nil.1 ho

/-- Losing responses in flight. -/
theorem Link.At.lose_up (h : l.At image chunk done f fs acc) {up : List OtaResponse}
    (hsub : up.Sublist l.up) : Link.At { l with up := up } image chunk done f fs acc := by
  obtain ⟨older, newer, hu, holder, hnewer, hacc⟩ := h.up
  rw [hu] at hsub
  obtain ⟨older', newer', rfl, ho, hn⟩ := List.sublist_append_iff.1 hsub
  refine ⟨h.frames, h.down, ⟨older', newer', rfl, fun r hr ↦ holder r (ho.subset hr),
    fun r hr ↦ hnewer r (hn.subset hr), fun ha ↦ ?_⟩, h.rx, h.acked⟩
  rw [hacc ha] at hn
  exact List.sublist_nil.1 hn

/-- A response that acknowledges nothing. -/
theorem Link.At.respond_none (h : l.At image chunk done f fs acc) {a : Option OtaResponse}
    (ha : isAcked a = false) :
    Link.At { l with up := l.up ++ a.toList } image chunk done f fs acc := by
  obtain ⟨older, newer, hu, holder, hnewer, hacc⟩ := h.up
  have hno : ∀ r ∈ a.toList, r.code ≠ otaRespAck := fun r hr hc ↦ by
    rw [Option.mem_toList.1 hr] at ha
    exact absurd (beq_iff_eq.2 hc) (by rw [show (r.code == otaRespAck) = false from ha]; decide)
  refine ⟨h.frames, h.down, ?_, h.rx, h.acked⟩
  cases acc with
  | false =>
      refine ⟨older ++ a.toList, [], ?_, fun r hr hc ↦ ?_, fun r hr ↦ (by cases hr), fun _ ↦ rfl⟩
      · rw [hu, hacc rfl, List.append_nil, List.append_nil]
      · rcases List.mem_append.1 hr with hr | hr
        · exact holder r hr hc
        · exact absurd hc (hno r hr)
  | true =>
      refine ⟨older, newer ++ a.toList, ?_, holder, fun r hr hc ↦ ?_, fun h ↦ (by cases h)⟩
      · rw [hu, List.append_assoc]
      · rcases List.mem_append.1 hr with hr | hr
        · exact hnewer r hr hc
        · exact absurd hc (hno r hr)

/-! ## The host -/

/-- The host sends the frame it has come to, once more. -/
theorem Link.At.send (h : l.At image chunk done f fs acc) (n : Nat) :
    (l.resume ((sendAttempts f f.seq n).bind fun ok ↦
      if ok then sendAll fs else .ret false)).Inv image chunk := by
  refine ⟨done, f, fs, acc, ?_⟩
  cases n with
  | zero => exact ⟨⟨h.frames, h.down, h.up, h.rx, h.acked⟩, .inr ⟨false, rfl⟩⟩
  | succ n =>
      obtain ⟨olds, news, hd, holds, hnews, hacc⟩ := h.down
      refine ⟨⟨h.frames, ⟨olds, news ++ [f], ?_, holds, fun g hg ↦ ?_, hacc⟩, h.up, h.rx,
        h.acked⟩, .inl ⟨n, rfl⟩⟩
      · exact (congrArg (· ++ [f]) hd).trans (List.append_assoc ..)
      · rcases List.mem_append.1 hg with hg | hg
        · exact hnews g hg
        · exact List.mem_singleton.1 hg

/-- Once the frame has been taken and only responses to it are in flight, the host may go
on. -/
theorem Link.At.advance (h : l.At image chunk done f fs true)
    (hup : ∀ r ∈ l.up, r.code = otaRespAck → r.seq = f.seq) :
    (l.resume (sendAll fs)).Inv image chunk := by
  cases fs with
  | nil =>
      exact ⟨done, f, [], true, ⟨h.frames, h.down, h.up, h.rx, h.acked⟩, .inr ⟨true, rfl⟩⟩
  | cons f' fs =>
      have hfr : pushFrames image chunk = (done ++ [f]) ++ f' :: fs := by
        rw [h.frames, List.append_assoc]
        rfl
      have hseq : f.seq + 1 = f'.seq := pushFrames_seq image chunk h.frames
      obtain ⟨olds, news, hd, -, hnews, hacc⟩ := h.down
      -- the copies of `f` are the old ones now
      have hnow : l.At image chunk (done ++ [f]) f' fs false := by
        refine ⟨hfr, ⟨news, [], ?_, fun g hg ↦ ?_, fun g hg ↦ (by cases hg), fun h ↦ (by cases h)⟩,
          ⟨l.up, [], (List.append_nil _).symm, fun r hr hc ↦ ?_, fun r hr ↦ (by cases hr),
            fun _ ↦ rfl⟩, h.rx, h.acked⟩
        · rw [hd, hacc rfl, List.nil_append, List.append_nil]
        · rw [hnews g hg, List.getLast?_concat]
        · rw [hup r hr hc, hseq]
      exact hnow.send retriesPerFrame

/-- An answer to the host. -/
theorem Link.At.answer (h : l.At image chunk done f fs acc) (hw : WaitsFor l.host f fs)
    {a : Option OtaResponse} (ha : isAckOf f.seq a = true →
      acc = true ∧ ∀ r ∈ l.up, r.code = otaRespAck → r.seq = f.seq) :
    (l.answer a).Inv image chunk := by
  rcases hw with ⟨n, hn⟩ | ⟨b, hb⟩
  · have hans : l.answer a = l.resume (((if isAckOf f.seq a then .ret true
        else sendAttempts f f.seq n : HostProgram Bool)).bind fun ok ↦
          if ok then sendAll fs else .ret false) := by
      unfold Link.answer
      rw [hn, sendAttempts_succ]
      rfl
    rw [hans]
    split_ifs with hack
    · obtain ⟨rfl, hup⟩ := ha hack
      exact h.advance hup
    · exact h.send n
  · have hans : l.answer a = l := by unfold Link.answer; rw [hb]
    rw [hans]
    exact ⟨done, f, fs, acc, h, .inr ⟨b, hb⟩⟩

/-- The host reads a response. -/
theorem Link.At.respond (h : l.At image chunk done f fs acc) (hw : WaitsFor l.host f fs)
    {r : OtaResponse} {up : List OtaResponse} (hu : l.up = r :: up) :
    (Link.answer (some r) { l with up := up }).Inv image chunk := by
  have hsub : up.Sublist l.up := by rw [hu]; exact List.sublist_cons_self r up
  refine (h.lose_up hsub).answer hw fun hack ↦ ?_
  obtain ⟨older, newer, heq, holder, hnewer, hacc⟩ := h.up
  obtain rfl : r = ⟨otaRespAck, f.seq⟩ := Option.some.inj (isAckOf_iff.1 hack)
  rw [hu] at heq
  cases older with
  | cons o older =>
      -- a late answer to the frame before has another number
      obtain ⟨rfl, -⟩ := List.cons.inj heq
      have hne := holder _ (List.mem_cons_self ..) rfl
      exact absurd (UInt16.add_right_inj f.seq |>.1 (hne.trans (UInt16.add_zero _).symm))
        (by decide)
  | nil =>
      refine ⟨?_, fun r' hr' ↦ hnewer r' ?_⟩
      · by_contra ha
        rw [hacc (Bool.not_eq_true _ ▸ ha)] at heq
        cases heq
      · rw [← List.nil_append newer, ← heq]
        exact List.mem_cons_of_mem _ hr'

/-! ## The receiver -/

/-- The receiver reads a copy of the frame before. -/
theorem Link.At.deliver_old (h : l.At image chunk done f fs false) (hlt : image.length < 2 ^ 32)
    {g : OtaFrame} {olds news : List OtaFrame} (hd : l.down = g :: olds ++ news)
    (holds : ∀ x ∈ g :: olds, done.getLast? = some x) (hnews : ∀ x ∈ news, x = f) :
    (linkStep E K l .deliver).At image chunk done f fs false := by
  have hlast := holds g (List.mem_cons_self ..)
  obtain ⟨hack, hrx⟩ := Receiver.Took.again (E := E) (K := K) hlt h.frames hlast h.rx
  obtain ⟨before, hbefore⟩ := List.getLast?_eq_some_iff.1 hlast
  have hseq : g.seq + 1 = f.seq := by
    have hfr := h.frames
    rw [hbefore, List.append_assoc] at hfr
    exact pushFrames_seq image chunk hfr
  have hstep : linkStep E K l .deliver =
      { l with
        down := olds ++ news
        up := l.up ++ (receiveStep E K (.ok g) l.rx).1.toList
        rx := (receiveStep E K (.ok g) l.rx).2
        acked :=
          if isAcked (receiveStep E K (.ok g) l.rx).1 then l.acked ++ [g] else l.acked } := by
    unfold linkStep
    rw [hd]
    rfl
  rw [hstep]
  obtain ⟨older, newer, hu, holder, -, hacc⟩ := h.up
  refine ⟨h.frames, ⟨olds, news, rfl, fun x hx ↦ holds x (List.mem_cons_of_mem _ hx), hnews,
    fun h ↦ (by cases h)⟩, ⟨_, [], (List.append_nil _).symm, fun r hr hc ↦ ?_,
    fun r hr ↦ (by cases hr), fun _ ↦ rfl⟩, hrx, fun x hx ↦ ?_⟩
  · rcases List.mem_append.1 hr with hr | hr
    · rw [hu, hacc rfl, List.append_nil] at hr
      exact holder r hr hc
    · have hsome := Option.mem_toList.1 hr
      rw [hack (by rw [hsome]; exact beq_iff_eq.2 hc)] at hsome
      cases hsome
      exact hseq
  · have hg : g ∈ takenOf done f false := List.mem_of_getLast? hlast
    dsimp only at hx
    split_ifs at hx
    · rcases List.mem_append.1 hx with hx | hx
      · exact h.acked x hx
      · rw [List.mem_singleton.1 hx]; exact hg
    · exact h.acked x hx

/-- The receiver reads a copy of the frame the host waits for. -/
theorem Link.At.deliver_new (h : l.At image chunk done f fs acc) (hlt : image.length < 2 ^ 32)
    {news : List OtaFrame} (hd : l.down = f :: news) (hnews : ∀ x ∈ news, x = f) :
    ∃ acc', (linkStep E K l .deliver).At image chunk done f fs acc' := by
  have hstep : linkStep E K l .deliver =
      { l with
        down := news
        up := l.up ++ (receiveStep E K (.ok f) l.rx).1.toList
        rx := (receiveStep E K (.ok f) l.rx).2
        acked :=
          if isAcked (receiveStep E K (.ok f) l.rx).1 then l.acked ++ [f] else l.acked } := by
    unfold linkStep
    rw [hd]
  have hdown : ∀ acc' : Bool, ∃ olds news', news = olds ++ news' ∧
      (∀ g ∈ olds, done.getLast? = some g) ∧ (∀ g ∈ news', g = f) ∧ (acc' = true → olds = []) :=
    fun _ ↦ ⟨[], news, rfl, fun _ hg ↦ (by cases hg), hnews, fun _ ↦ rfl⟩
  rw [hstep]
  -- where the frame has been taken, now or before
  have htaken : (receiveStep E K (.ok f) l.rx).2.Took image.length (done ++ [f]) →
      (isAcked (receiveStep E K (.ok f) l.rx).1 = true →
        (receiveStep E K (.ok f) l.rx).1 = some ⟨otaRespAck, f.seq⟩) →
      Link.At { l with
        down := news
        up := l.up ++ (receiveStep E K (.ok f) l.rx).1.toList
        rx := (receiveStep E K (.ok f) l.rx).2
        acked := if isAcked (receiveStep E K (.ok f) l.rx).1 then l.acked ++ [f]
          else l.acked } image chunk done f fs true := by
    intro hrx hack
    obtain ⟨older, newer, hu, holder, hnewer, -⟩ := h.up
    have hsub : ∀ x ∈ takenOf done f acc, x ∈ done ++ [f] := fun x hx ↦ by
      cases acc with
      | false => exact List.mem_append_left _ hx
      | true => exact hx
    refine ⟨h.frames, hdown true, ⟨older, newer ++ (receiveStep E K (.ok f) l.rx).1.toList,
      ?_, holder, fun r hr hc ↦ ?_, fun h ↦ (by cases h)⟩, hrx, fun x hx ↦ ?_⟩
    · rw [hu, List.append_assoc]
    · rcases List.mem_append.1 hr with hr | hr
      · exact hnewer r hr hc
      · have hsome := Option.mem_toList.1 hr
        rw [hack (by rw [hsome]; exact beq_iff_eq.2 hc)] at hsome
        cases hsome
        rfl
    · have hx' : x ∈ l.acked ∨ x = f := by
        dsimp only at hx
        split_ifs at hx
        · exact (List.mem_append.1 hx).imp_right List.mem_singleton.1
        · exact .inl hx
      rcases hx' with hx | rfl
      · exact hsub x (h.acked x hx)
      · exact List.mem_append_right _ (List.mem_singleton_self x)
  cases acc with
  | true =>
      obtain ⟨rest, hrest⟩ := h.rest
      obtain ⟨hack, hrx⟩ := Receiver.Took.again (E := E) (K := K) hlt hrest
        List.getLast?_concat h.rx
      exact ⟨true, htaken hrx hack⟩
  | false =>
      rcases Receiver.Took.next (E := E) (K := K) hlt h.frames h.rx with ⟨hack, hrx⟩ | ⟨hnak, hrx⟩
      · exact ⟨true, htaken hrx fun _ ↦ hack⟩
      · refine ⟨false, ⟨h.frames, hdown false, (h.respond_none hnak).up, hrx, fun x hx ↦ ?_⟩⟩
        rw [if_neg (by rw [hnak]; decide)] at hx
        exact h.acked x hx

/-- One event keeps the invariant. -/
theorem Link.Inv.step (h : l.Inv image chunk) (hlt : image.length < 2 ^ 32) (e : LinkEvent) :
    (linkStep E K l e).Inv image chunk := by
  obtain ⟨done, f, fs, acc, h, hw⟩ := h
  cases e with
  | deliver =>
      have hhost : (linkStep E K l .deliver).host = l.host := by
        unfold linkStep
        dsimp only
        cases l.down <;> rfl
      obtain ⟨acc', h'⟩ : ∃ acc', (linkStep E K l .deliver).At image chunk done f fs acc' := by
        obtain ⟨olds, news, hd, holds, hnews, hacc⟩ := h.down
        cases olds with
        | cons g olds =>
            cases acc with
            | true => exact absurd (hacc rfl) (List.cons_ne_nil g olds)
            | false => exact ⟨false, h.deliver_old hlt hd holds hnews⟩
        | nil =>
            cases news with
            | nil =>
                refine ⟨acc, ?_⟩
                have hstep : linkStep E K l .deliver = l := by
                  unfold linkStep
                  rw [show l.down = [] from hd]
                rw [hstep]
                exact h
            | cons g news =>
                obtain rfl := hnews g (List.mem_cons_self ..)
                exact h.deliver_new hlt hd fun x hx ↦ hnews x (List.mem_cons_of_mem _ hx)
      exact ⟨done, f, fs, acc', h', hhost ▸ hw⟩
  | dropFrame i => exact ⟨done, f, fs, acc, h.lose_down (List.eraseIdx_sublist ..), hw⟩
  | readError e =>
      obtain ⟨hnak, hrx⟩ := h.rx.readError (E := E) (K := K) e
      exact ⟨done, f, fs, acc, ⟨h.frames, h.down, (h.respond_none hnak).up, hrx, h.acked⟩, hw⟩
  | respond =>
      unfold linkStep
      cases hu : l.up with
      | nil => exact ⟨done, f, fs, acc, h, hw⟩
      | cons r up => exact h.respond hw hu
  | dropResponse i => exact ⟨done, f, fs, acc, h.lose_up (List.eraseIdx_sublist ..), hw⟩
  | noResponse => exact h.answer hw fun h ↦ (by cases h)

/-- A push starts in the invariant. -/
theorem inv_start (hlt : image.length < 2 ^ 32) (rx : Receiver σ) :
    (Link.start image chunk rx).Inv image chunk := by
  have h : Link.At ⟨.ret false, [], [], rx, []⟩ image chunk [] (startFrame image.length)
      (imageFrames image chunk ++
        [endFrame (UInt16.ofNat (imageFrames image chunk).length + 2)]) false :=
    ⟨rfl, ⟨[], [], rfl, fun _ h ↦ (by cases h), fun _ h ↦ (by cases h), fun _ ↦ rfl⟩,
      ⟨[], [], rfl, fun _ h ↦ (by cases h), fun _ h ↦ (by cases h), fun _ ↦ rfl⟩,
      ⟨fun h ↦ absurd rfl h, fun ⟨_, h, _⟩ ↦ (by cases h)⟩, fun _ h ↦ (by cases h)⟩
  unfold Link.start
  rw [push_eq_sendAll image chunk hlt]
  exact h.send retriesPerFrame

/-! ## What has been staged -/

/-- The bytes of the session of a receiver. -/
def Receiver.staged (r : Receiver σ) : List UInt8 :=
  (byte r.client.dev).read r.client.state.slotAddr r.client.state.written

theorem Receiver.Took.staged {r : Receiver σ} {taken rest : List OtaFrame} {g : OtaFrame}
    (h : r.Took image.length taken) (hfr : pushFrames image chunk = taken ++ rest)
    (hg : g ∈ taken) :
    r.staged = image.take r.client.state.written ∧ (g.op = otaOpEnd → r.staged = image) := by
  have hc := h.client (List.ne_nil_of_mem hg)
  have hst : r.staged = (sessionOf taken).acked.flatten := hc.holds.staged
  have hlen : r.staged.length = r.client.state.written := Mem.length_read ..
  have hpre : r.staged <+: image := hst ▸ sessionOf_prefix hfr
  refine ⟨?_, fun hop ↦ hpre.eq_of_length ?_⟩
  · rw [← hlen]
    exact List.prefix_iff_eq_take.1 hpre
  · rw [hlen, hc.full g hg hop, hc.xferTotal]

omit [FlashBackend σ] in
/-- An image of 4 GiB or more is not sent at all. -/
theorem start_of_long (hle : ¬image.length < 2 ^ 32) (rx : Receiver σ) :
    Link.start image chunk rx = ⟨.ret false, [], [], rx, []⟩ := by
  unfold Link.start push pushTransfer
  rw [if_pos (Nat.not_lt.1 hle)]
  rfl

/-- When the host has ended and nothing is in flight, nothing is acknowledged. -/
theorem linkStep_idle (h : l.down = [] ∧ l.host = .ret false ∧ l.acked = []) (e : LinkEvent) :
    (linkStep E K l e).down = [] ∧ (linkStep E K l e).host = .ret false ∧
      (linkStep E K l e).acked = [] := by
  obtain ⟨hd, hh, ha⟩ := h
  have hans : ∀ (l' : Link σ) a, l'.host = .ret false → l'.answer a = l' := fun l' a h' ↦ by
    unfold Link.answer
    rw [h']
  unfold linkStep
  cases e with
  | deliver => rw [hd]; exact ⟨hd, hh, ha⟩
  | dropFrame i => exact ⟨by rw [hd]; rfl, hh, ha⟩
  | readError e => exact ⟨hd, hh, ha⟩
  | respond =>
      cases l.up with
      | nil => exact ⟨hd, hh, ha⟩
      | cons r up =>
          dsimp only
          rw [hans { l with up := up } (some r) hh]
          exact ⟨hd, hh, ha⟩
  | dropResponse i => exact ⟨hd, hh, ha⟩
  | noResponse =>
      dsimp only
      rw [hans _ _ hh]
      exact ⟨hd, hh, ha⟩

/-- **No chunk is lost, repeated or moved.**  In every run of a push and a receiver over the
two links, the receiver holds the first bytes of the image once it has acknowledged START,
and the whole image when it acknowledges END. -/
theorem push_staged (E : PatchEngine) (K : KeyStore) (image : List UInt8) (chunk : ChunkSize)
    (rx : Receiver σ) (events : List LinkEvent) :
    let l := events.foldl (linkStep E K) (Link.start image chunk rx)
    (startFrame image.length ∈ l.acked →
        l.rx.staged = image.take l.rx.client.state.written) ∧
      ∀ f ∈ l.acked, f.op = otaOpEnd → l.rx.staged = image := by
  dsimp only
  by_cases hlt : image.length < 2 ^ 32
  · have hinv : (events.foldl (linkStep E K) (Link.start image chunk rx)).Inv image chunk :=
      List.foldlRecOn events _ (inv_start hlt rx) fun l hl e _ ↦ hl.step hlt e
    generalize events.foldl (linkStep E K) (Link.start image chunk rx) = l at *
    obtain ⟨done, f, fs, acc, h, -⟩ := hinv
    obtain ⟨rest, hrest⟩ := h.rest
    exact ⟨fun hs ↦ (h.rx.staged hrest (h.acked _ hs)).1,
      fun g hg ↦ (h.rx.staged hrest (h.acked g hg)).2⟩
  · have hidle : (events.foldl (linkStep E K) (Link.start image chunk rx)).down = [] ∧
        (events.foldl (linkStep E K) (Link.start image chunk rx)).host = .ret false ∧
        (events.foldl (linkStep E K) (Link.start image chunk rx)).acked = [] :=
      List.foldlRecOn (motive := fun l : Link σ ↦ l.down = [] ∧ l.host = .ret false ∧ l.acked = [])
        events _ (by rw [start_of_long hlt]; exact ⟨rfl, rfl, rfl⟩) fun l hl e _ ↦
          linkStep_idle hl e
    rw [hidle.2.2]
    exact ⟨fun h ↦ (by cases h), fun f h ↦ (by cases h)⟩

end Link

end DualBank
