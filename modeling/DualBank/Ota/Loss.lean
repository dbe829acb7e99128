import DualBank.Ota.Link

/-!
# Lost frames and lost responses

A push over a line that delivers or loses every transmission of a frame and every
response, up to the END frame.  The host repeats a frame until it is acknowledged; the
receiver takes a repeated START for a new one, but refuses a repeated DATA frame, which
no longer has the number it expects.  So a DATA frame whose acknowledgement is lost is
never acknowledged again.
-/

namespace DualBank

open Lib FlashBackend

/-! ## The line -/

/-- What becomes of one transmission: how many read timeouts the receiver meets before the
frame is due, and whether the frame and the response to it are delivered. -/
structure Transmission where
  silences : Nat
  frame : Bool
  response : Bool
deriving DecidableEq

/-- A transmission for every frame of the push and every attempt at it. -/
abbrev LossPattern : Type := Nat → Nat → Transmission

/-- The attempts at a frame. -/
def LossPattern.tape (loss : LossPattern) (i : Nat) : List Transmission :=
  (List.range retriesPerFrame).map (loss i)

/-- The receiver at the end of the line, the number of the frame that is being sent, what
will become of the attempts that are left, and the calls of `flash_program_bytes` so far. -/
structure Line where
  rx : Receiver Hw
  frameIx : Nat
  tape : List Transmission
  programs : List (Nat × List UInt8)

section Transmit

variable (E : PatchEngine) (K : KeyStore)

/-- A number of read timeouts. -/
def Receiver.silence : Nat → Receiver Hw → Receiver Hw
  | 0, r => r
  | n + 1, r => silence n (receiveStep E K .timeout r).2

/-- The call of `flash_program_bytes` that a frame causes. -/
def programCall (f : OtaFrame) (r : Receiver Hw) : Option (Nat × List UInt8) :=
  if r.status = .receiving ∧ f.op = otaOpData then
    (dataDest f r.client.state).map fun dest ↦ (dest, f.data)
  else none

/-- One attempt: what the host reads, and the line after it. -/
def transmit (loss : LossPattern) (f : OtaFrame) (l : Line) : Option OtaResponse × Line :=
  match l.tape with
  | [] => (none, l)
  | t :: ts =>
    let rx := l.rx.silence E K t.silences
    if !t.frame then (none, { l with rx := rx, tape := ts })
    else
      let r := receiveStep E K (.ok f) rx
      let a := if t.response then r.1 else none
      let l := { l with rx := r.2, programs := l.programs ++ (programCall f rx).toList }
      if isAckOf f.seq a then
        (a, { l with frameIx := l.frameIx + 1, tape := loss.tape (l.frameIx + 1) })
      else (a, { l with tape := ts })

end Transmit

/-- The line at the start of a push to a receiver that has just been entered. -/
def Line.start (loss : LossPattern) (dev : Hw) (shared : SharedBootBlock) : Line :=
  ⟨.enter dev shared, 0, loss.tape 0, []⟩

/-! ## Attempts at one frame -/

/-- The attempts succeed from `e` errors on: the receiver hears the frame before it gives up,
and the first time it hears it the response is delivered, or else it will acknowledge the
frame again. -/
def Passes (again : Bool) : Nat → List Transmission → Prop
  | _, [] => False
  | e, t :: ts => e + t.silences < maxConsecErrs ∧
      if t.frame then t.response = true ∨ (again = true ∧ Passes again 0 ts)
      else Passes again (e + t.silences) ts

variable {E : PatchEngine} {K : KeyStore} {loss : LossPattern} {f : OtaFrame}

theorem silence_of_ended {r : Receiver Hw} (h : r.status ≠ .receiving) (n : Nat) :
    r.silence E K n = r := by
  induction n with
  | zero => rfl
  | succ n ih => rw [Receiver.silence, receiveStep_ended h]; exact ih

theorem receiveStep_timeout {r : Receiver Hw} (h : r.status = .receiving) :
    receiveStep E K .timeout r = (none, r.countError) := by
  unfold receiveStep
  rw [if_neg (not_not.mpr h)]

/-- A silence that the receiver bears. -/
theorem silence_of_lt {n : Nat} {r : Receiver Hw} (h : r.status = .receiving)
    (hn : r.consecErrs + n < maxConsecErrs) :
    r.silence E K n = { r with consecErrs := r.consecErrs + n } := by
  induction n generalizing r with
  | zero => rfl
  | succ n ih =>
      have hlt : r.consecErrs + 1 < maxConsecErrs := by omega
      have hcount : r.countError = { r with consecErrs := r.consecErrs + 1 } := by
        unfold Receiver.countError
        rw [if_pos hlt]
      rw [Receiver.silence, receiveStep_timeout h, hcount,
        ih (r := { r with consecErrs := r.consecErrs + 1 }) h (by dsimp only; omega)]
      dsimp only
      rw [Nat.add_assoc, Nat.add_comm 1 n]

/-- A silence after which it has given up. -/
theorem silence_of_ge {n : Nat} {r : Receiver Hw} (he : r.consecErrs < maxConsecErrs)
    (hn : maxConsecErrs ≤ r.consecErrs + n) : (r.silence E K n).status ≠ .receiving := by
  induction n generalizing r with
  | zero => omega
  | succ n ih =>
      rw [Receiver.silence]
      by_cases h : r.status = .receiving
      · rw [receiveStep_timeout h]
        by_cases hlt : r.consecErrs + 1 < maxConsecErrs
        · exact ih (r := r.countError) hlt (by
            have : r.countError.consecErrs = r.consecErrs + 1 := rfl
            omega)
        · have hend : r.countError.status ≠ .receiving := by
            unfold Receiver.countError
            rw [if_neg hlt]
            exact show RxStatus.returned ≠ .receiving by decide
          rw [silence_of_ended hend]
          exact hend
      · rw [receiveStep_ended h, silence_of_ended h]
        exact h

/-- The receiver will not acknowledge `f`, now or when it comes again. -/
def Refuses (E : PatchEngine) (K : KeyStore) (f : OtaFrame) (r : Receiver Hw) : Prop :=
  r.status = .receiving → handleFrame E K f r.client = (false, r.client)

theorem Refuses.countError {r : Receiver Hw} (h : Refuses E K f r) :
    Refuses E K f r.countError := by
  intro hrx
  refine h ?_
  unfold Receiver.countError at hrx
  dsimp only at hrx
  split_ifs at hrx
  exact hrx

theorem Refuses.silence {r : Receiver Hw} (h : Refuses E K f r) (n : Nat) :
    Refuses E K f (r.silence E K n) := by
  induction n generalizing r with
  | zero => exact h
  | succ n ih =>
      rw [Receiver.silence]
      by_cases hrx : r.status = .receiving
      · rw [receiveStep_timeout hrx]
        exact ih h.countError
      · rw [receiveStep_ended hrx]
        exact ih h

/-- Hearing a refused frame. -/
theorem Refuses.hear {r : Receiver Hw} (h : Refuses E K f r) (hop : f.op ≠ otaOpAbort) :
    isAckOf f.seq (receiveStep E K (.ok f) r).1 = false ∧
      Refuses E K f (receiveStep E K (.ok f) r).2 := by
  by_cases hrx : r.status = .receiving
  · have hh := h hrx
    rw [(receiveStep_ok (E := E) (K := K) hrx hop).2 (by rw [hh]), hh]
    refine ⟨?_, h.countError⟩
    by_contra hack
    have := isAckOf_iff.1 (Bool.not_eq_false _ ▸ hack)
    cases this
  · rw [receiveStep_ended hrx]
    exact ⟨rfl, h⟩

/-- An attempt at a frame that is refused. -/
theorem Refuses.transmit {l : Line} {t : Transmission} {ts : List Transmission}
    (hts : l.tape = t :: ts) (h : Refuses E K f (l.rx.silence E K t.silences))
    (hop : f.op ≠ otaOpAbort) :
    isAckOf f.seq (transmit E K loss f l).1 = false ∧
      Refuses E K f (transmit E K loss f l).2.rx := by
  obtain ⟨hack, hrx⟩ := h.hear hop
  unfold DualBank.transmit
  rw [hts]
  dsimp only
  cases t.frame with
  | false => exact ⟨rfl, h⟩
  | true =>
      rw [if_neg (by decide)]
      cases t.response with
      | false => exact ⟨rfl, hrx⟩
      | true =>
          rw [if_pos rfl, if_neg (by rw [hack]; decide)]
          exact ⟨hack, hrx⟩

/-- A refused frame is sent in vain. -/
theorem refused_attempts (hop : f.op ≠ otaOpAbort) (n : Nat) {l : Line}
    (h : Refuses E K f l.rx) :
    ((sendAttempts f f.seq n).run (transmit E K loss) l).1 = false := by
  induction n generalizing l with
  | zero => rfl
  | succ n ih =>
      have hstep : isAckOf f.seq (transmit E K loss f l).1 = false ∧
          Refuses E K f (transmit E K loss f l).2.rx := by
        cases hts : l.tape with
        | nil =>
            unfold transmit
            rw [hts]
            exact ⟨rfl, h⟩
        | cons t ts => exact (h.silence t.silences).transmit hts hop
      rw [sendAttempts_succ, Calls.run_call, hstep.1, if_neg (by decide)]
      exact ih hstep.2

section Cases

variable {l : Line} {t : Transmission} {ts : List Transmission} {r : Receiver Hw}

theorem transmit_lost (hts : l.tape = t :: ts) (hr : l.rx.silence E K t.silences = r)
    (hf : t.frame = false) :
    transmit E K loss f l = (none, ⟨r, l.frameIx, ts, l.programs⟩) := by
  unfold transmit
  rw [hts]
  dsimp only
  rw [hr, hf]
  rfl

theorem transmit_mute (hts : l.tape = t :: ts) (hr : l.rx.silence E K t.silences = r)
    (hf : t.frame = true) (ha : t.response = false) :
    transmit E K loss f l = (none, ⟨(receiveStep E K (.ok f) r).2, l.frameIx, ts,
      l.programs ++ (programCall f r).toList⟩) := by
  unfold transmit
  rw [hts]
  dsimp only
  rw [hr, hf, ha]
  rfl

theorem transmit_answered (hts : l.tape = t :: ts) (hr : l.rx.silence E K t.silences = r)
    (hf : t.frame = true) (ha : t.response = true)
    (hack : (receiveStep E K (.ok f) r).1 = some ⟨otaRespAck, f.seq⟩) :
    transmit E K loss f l = (some ⟨otaRespAck, f.seq⟩, ⟨(receiveStep E K (.ok f) r).2,
      l.frameIx + 1, loss.tape (l.frameIx + 1), l.programs ++ (programCall f r).toList⟩) := by
  unfold transmit
  rw [hts]
  dsimp only
  rw [hr, hf, ha, hack, if_neg (by decide), if_pos rfl, if_pos (isAckOf_iff.2 rfl)]

end Cases

/-- **The attempts at one frame.**  `P e r` says that the receiver is ready for the frame
after `e` errors; it then acknowledges it, and is ready for it again or refuses it. -/
theorem attempts_iff (E : PatchEngine) (K : KeyStore) (loss : LossPattern) (again : Bool)
    (P : Nat → Receiver Hw → Prop) {f : OtaFrame} (hop : f.op ≠ otaOpAbort)
    (hP : ∀ {e r}, P e r → r.status = .receiving ∧ r.consecErrs = e)
    (hwait : ∀ {e r} n, P e r → P (e + n) { r with consecErrs := e + n })
    (hhear : ∀ {e r}, P e r → (receiveStep E K (.ok f) r).1 = some ⟨otaRespAck, f.seq⟩ ∧
      (again = true → P 0 (receiveStep E K (.ok f) r).2 ∧ programCall f r = none) ∧
      (again = false → Refuses E K f (receiveStep E K (.ok f) r).2))
    {ts : List Transmission} {e : Nat} {l : Line} (he : e < maxConsecErrs) (hl : P e l.rx)
    (hts : l.tape = ts) :
    (((sendAttempts f f.seq ts.length).run (transmit E K loss) l).1 = true ↔
        Passes again e ts) ∧
      (((sendAttempts f f.seq ts.length).run (transmit E K loss) l).1 = true →
        ∃ e r, P e r ∧ ((sendAttempts f f.seq ts.length).run (transmit E K loss) l).2 =
          ⟨(receiveStep E K (.ok f) r).2, l.frameIx + 1, loss.tape (l.frameIx + 1),
            l.programs ++ (programCall f r).toList⟩) := by
  induction ts generalizing e l with
  | nil => exact ⟨⟨fun h ↦ (by cases h), False.elim⟩, fun h ↦ (by cases h)⟩
  | cons t ts ih =>
      obtain ⟨hrx, herrs⟩ := hP hl
      rw [List.length_cons, sendAttempts_succ, Calls.run_call]
      by_cases hs : e + t.silences < maxConsecErrs
      · have hsil : l.rx.silence E K t.silences = { l.rx with consecErrs := e + t.silences } := by
          rw [silence_of_lt hrx (by rw [herrs]; exact hs), herrs]
        have hl' := hwait t.silences hl
        obtain ⟨hack, hagain, honce⟩ := hhear hl'
        have hnone : ¬isAckOf f.seq none = true := by rw [isAckOf_iff]; exact fun h ↦ (by cases h)
        rw [Passes]
        cases hf : t.frame with
        | false =>
            -- lost: the receiver waits for the next attempt
            rw [transmit_lost hts hsil hf, if_neg hnone]
            obtain ⟨hiff, hend⟩ := ih (l := ⟨_, l.frameIx, ts, l.programs⟩) hs hl' rfl
            exact ⟨hiff.trans ⟨fun h ↦ ⟨hs, h⟩, And.right⟩, hend⟩
        | true =>
            cases ha : t.response with
            | true =>
                rw [transmit_answered hts hsil hf ha hack, if_pos (isAckOf_iff.2 rfl)]
                exact ⟨⟨fun _ ↦ ⟨hs, .inl rfl⟩, fun _ ↦ rfl⟩, fun _ ↦ ⟨_, _, hl', rfl⟩⟩
            | false =>
                rw [transmit_mute hts hsil hf ha, if_neg hnone]
                cases again with
                | true =>
                    obtain ⟨hP0, hcall⟩ := hagain rfl
                    rw [hcall, Option.toList_none, List.append_nil]
                    obtain ⟨hiff, hend⟩ := ih (l := ⟨_, l.frameIx, ts, l.programs⟩)
                      (show 0 < maxConsecErrs by decide) hP0 rfl
                    exact ⟨hiff.trans ⟨fun h ↦ ⟨hs, .inr ⟨rfl, h⟩⟩, fun h ↦ h.2.elim
                      (fun h ↦ (by cases h)) And.right⟩, hend⟩
                | false =>
                    rw [refused_attempts hop ts.length (honce rfl)]
                    refine ⟨⟨fun h ↦ (by cases h), fun h ↦ ?_⟩, fun h ↦ (by cases h)⟩
                    exact h.2.elim (fun h ↦ (by cases h)) fun h ↦ absurd h.1 (by decide)
      · have href : Refuses E K f (l.rx.silence E K t.silences) := fun h ↦
          absurd h (silence_of_ge (by rw [herrs]; exact he) (by rw [herrs]; exact Nat.not_lt.1 hs))
        obtain ⟨hack, hrx⟩ : isAckOf f.seq (transmit E K loss f l).1 = false ∧
            Refuses E K f (transmit E K loss f l).2.rx := href.transmit hts hop
        rw [hack, if_neg (by decide)]
        rw [refused_attempts hop ts.length hrx]
        exact ⟨⟨fun h ↦ (by cases h), fun h ↦ absurd h.1 hs⟩, fun h ↦ (by cases h)⟩

/-! ## A receiver without flash faults -/

/-- The receiver waits, after `e` errors, for the frame after `taken`; what is still to come
of the transfer lies on erased flash. -/
structure Receiver.Ready (r : Receiver Hw) (total : Nat) (taken : List OtaFrame) (e : Nat) :
    Prop where
  receiving : r.status = .receiving
  errs : r.consecErrs = e
  healthy : r.client.dev.Healthy
  took : r.Took total taken
  erased : taken ≠ [] → ∀ x, r.client.state.slotAddr + r.client.state.written ≤ x →
    x < r.client.state.slotAddr + total → r.client.dev.mem x = 0xFF

theorem Receiver.Ready.wait {r : Receiver Hw} {total : Nat} {taken : List OtaFrame} {e : Nat}
    (h : r.Ready total taken e) (e' : Nat) :
    Receiver.Ready { r with consecErrs := e' } total taken e' :=
  ⟨h.receiving, rfl, h.healthy, ⟨h.took.client, h.took.ended⟩, h.erased⟩

/-- START erases a slot and opens the session. -/
theorem Receiver.Ready.hear_start {r : Receiver Hw} {total e : Nat}
    (hlo : firmwareHeaderSize ≤ total)
    (hhi : total ≤ firmwareHeaderSize + firmwareMaxPayloadSize)
    (h : r.Ready total [] e ∨ r.Ready total [startFrame total] e) :
    (receiveStep E K (.ok (startFrame total)) r).1 = some ⟨otaRespAck, 1⟩ ∧
      (receiveStep E K (.ok (startFrame total)) r).2.Ready total [startFrame total] 0 := by
  obtain ⟨hrx, hhealthy⟩ : r.status = .receiving ∧ r.client.dev.Healthy := by
    rcases h with h | h <;> exact ⟨h.receiving, h.healthy⟩
  have hlt : total < 2 ^ 32 := by
    have : firmwareHeaderSize + firmwareMaxPayloadSize < 2 ^ 32 := by decide
    omega
  have hsize : ¬(total < firmwareHeaderSize ∨
      total > firmwareHeaderSize + firmwareMaxPayloadSize) := by
    omega
  obtain ⟨hbase, hend⟩ := slot_in_flash (memoryMapOtherSlot (loadedOn K r.client.dev).activeSlot)
  have hpos : 0 < firmwareHeaderSize := by decide
  have hfit := image_fits_slot
  obtain ⟨dev, herase, hdev, hfill, -⟩ := exists_erase (s := r.client.dev) _ total hhealthy hbase
    (by omega) (by omega : _ + total ≤ _)
  have hframe : handleFrame E K (startFrame total) r.client =
      (true,
        { r.client with
          dev := dev
          state :=
            { r.client.state with
              active := true
              kind := .full
              slotAddr := memoryMapSlotAddr
                (memoryMapOtherSlot (loadedOn K r.client.dev).activeSlot)
              xferTotal := total
              written := 0
              expectedSeq := 2 } }) := by
    rw [handleFrame_of_opens E K _ (.inl rfl), opening_startFrame hlt, if_neg hsize]
    unfold openSession
    dsimp only
    rw [herase, if_pos rfl]
  have hok : (handleFrame E K (startFrame total) r.client).1 = true := by rw [hframe]
  have htook := (took_start (E := E) (K := K) hlt).1 hok
  rw [(receiveStep_ok (E := E) (K := K) hrx (show otaOpStart ≠ otaOpAbort by decide)).1 hok]
  rw [hframe] at htook ⊢
  refine ⟨rfl, rfl, rfl, hdev, ⟨fun _ ↦ htook, ?_⟩, fun _ x h₁ h₂ ↦ ?_⟩
  · rintro ⟨g, hg, hgop⟩
    rw [List.mem_singleton.1 hg] at hgop
    exact absurd hgop (show otaOpStart ≠ otaOpEnd by decide)
  · dsimp only at h₁ h₂
    exact hfill x (covered_of_mem (by omega) h₂) (by omega) trivial

/-- The bytes that a DATA frame adds fit in the transfer. -/
theorem written_le_of_next {image : List UInt8} {chunk : ChunkSize} {c : OtaClient Hw}
    {taken fs : List OtaFrame} (hfr : pushFrames image chunk = taken ++ f :: fs)
    (hop : f.op = otaOpData) (h : c.Took image.length taken) :
    c.state.written = (sessionOf taken).acked.flatten.length ∧
      c.state.written + f.data.length ≤ image.length := by
  have hw : c.state.written = (sessionOf taken).acked.flatten.length := by
    rw [← h.holds.staged, Mem.length_read]
  have hpre : (sessionOf (taken ++ [f])).acked.flatten <+: image :=
    sessionOf_prefix (show pushFrames image chunk = (taken ++ [f]) ++ fs by
      rw [hfr, List.append_assoc]; rfl)
  have hnote : (sessionOf (taken ++ [f])).acked = (sessionOf taken).acked ++ [f.data] := by
    rw [sessionOf_append, Transfer.note_data hop]
  rw [hnote, List.flatten_append, List.flatten_singleton] at hpre
  have hle := hpre.length_le
  rw [List.length_append, ← hw] at hle
  exact ⟨hw, hle⟩

/-- A DATA frame is stored behind the ones before it. -/
theorem Receiver.Ready.hear_data {r : Receiver Hw} {image : List UInt8} {chunk : ChunkSize}
    {taken fs : List OtaFrame} {e : Nat} (hfr : pushFrames image chunk = taken ++ f :: fs)
    (hop : f.op = otaOpData) (hne : taken ≠ []) (h : r.Ready image.length taken e) :
    (receiveStep E K (.ok f) r).1 = some ⟨otaRespAck, f.seq⟩ ∧
      (receiveStep E K (.ok f) r).2.Ready image.length (taken ++ [f]) 0 ∧
      (receiveStep E K (.ok f) r).2.client.state.slotAddr = r.client.state.slotAddr ∧
      programCall f r = some (r.client.state.slotAddr + r.client.state.written, f.data) := by
  have hc := h.took.client hne
  have hend : ∀ g ∈ taken, g.op ≠ otaOpEnd := fun g hg hgop ↦ h.took.ended ⟨g, hg, hgop⟩ h.receiving
  obtain ⟨-, hle⟩ := written_le_of_next hfr hop hc
  -- it has the number the receiver expects
  have hseq : f.seq = r.client.state.expectedSeq := by
    obtain ⟨done, g, rfl⟩ := (List.eq_nil_or_concat' taken).resolve_left hne
    rw [List.append_assoc] at hfr
    rw [hc.seq g List.getLast?_concat
      (hend g (List.mem_append_right _ (List.mem_singleton_self g))),
      pushFrames_seq image chunk hfr]
  have hdata : f.data ≠ [] := by
    rcases pushFrames_next image chunk hfr with ⟨h, -⟩ | ⟨-, ⟨-, h⟩ | ⟨h, -⟩⟩
    · exact absurd h hne
    · exact h
    · rw [hop] at h; exact absurd h (by decide)
  have hdest : dataDest f r.client.state =
      some (r.client.state.slotAddr + r.client.state.written) := by
    have hlen : ¬f.data.length = 0 := fun h ↦ hdata (List.length_eq_zero_iff.1 h)
    unfold dataDest
    rw [hc.active, if_neg (by decide), if_neg (not_not.mpr hseq), if_neg hlen, hc.xferTotal,
      if_neg (Nat.not_lt.2 hle), hc.kind, if_neg (by decide)]
  obtain ⟨dev, hprog, hdev, -, hout⟩ := exists_programBytes (s := r.client.dev)
    (r.client.state.slotAddr + r.client.state.written) f.data h.healthy
    fun i hi ↦ ⟨h.erased hne _ (Nat.le_add_right _ _) (by omega), trivial⟩
  have hframe : handleFrame E K f r.client =
      (true,
        { r.client with
          dev := dev
          state :=
            { r.client.state with
              written := r.client.state.written + f.data.length
              expectedSeq := r.client.state.expectedSeq + 1 } }) := by
    rw [handleFrame_data E K r.client hop]
    unfold handleData
    rw [hdest]
    dsimp only
    rw [hprog, if_neg (not_not.mpr rfl)]
  have hok : (handleFrame E K f r.client).1 = true := by rw [hframe]
  have htook := (took_data (E := E) (K := K) hop hc hend).1 hok
  rw [(receiveStep_ok (E := E) (K := K) h.receiving (by rw [hop]; decide)).1 hok]
  rw [hframe] at htook ⊢
  refine ⟨rfl, ⟨?_, rfl, hdev, ⟨fun _ ↦ htook, ?_⟩, fun _ x h₁ h₂ ↦ ?_⟩, rfl, ?_⟩
  · dsimp only
    rw [if_neg (by rw [hop]; decide)]
  · rintro ⟨g, hg, hgop⟩
    rcases List.mem_append.1 hg with hg | hg
    · exact absurd hgop (hend g hg)
    · rw [List.mem_singleton.1 hg, hop] at hgop
      exact absurd hgop (by decide)
  · dsimp only at h₁ h₂
    exact (hout x (.inr (by omega))).trans (h.erased hne x (by omega) h₂)
  · unfold programCall
    rw [if_pos ⟨h.receiving, hop⟩, hdest]
    rfl

/-! ## The transfer -/

/-- The calls that store chunks one after the other from an address on. -/
def placed : Nat → List (List UInt8) → List (Nat × List UInt8)
  | _, [] => []
  | a, d :: ds => (a, d) :: placed (a + d.length) ds

theorem placed_concat (a : Nat) (ds : List (List UInt8)) (d : List UInt8) :
    placed a (ds ++ [d]) = placed a ds ++ [(a + ds.flatten.length, d)] := by
  induction ds generalizing a with
  | nil => rfl
  | cons x ds ih =>
      rw [List.cons_append, placed, placed, ih, List.flatten_cons, List.length_append,
        Nat.add_assoc, List.cons_append]

/-- The line between two frames. -/
structure Line.Ready (l : Line) (loss : LossPattern) (total : Nat) (taken : List OtaFrame) :
    Prop where
  rx : l.rx.Ready total taken 0
  frameIx : l.frameIx = taken.length
  tape : l.tape = loss.tape taken.length
  programs : l.programs = placed l.rx.client.state.slotAddr (sessionOf taken).acked

theorem length_tape (loss : LossPattern) (i : Nat) : (loss.tape i).length = retriesPerFrame := by
  unfold LossPattern.tape
  rw [List.length_map, List.length_range]

/-- Sending START. -/
theorem Line.Ready.send_start {l : Line} {total : Nat} (hlo : firmwareHeaderSize ≤ total)
    (hhi : total ≤ firmwareHeaderSize + firmwareMaxPayloadSize) (h : l.Ready loss total []) :
    (((sendWithRetry (startFrame total) 1).run (transmit E K loss) l).1 = true ↔
        Passes true 0 (loss.tape 0)) ∧
      (((sendWithRetry (startFrame total) 1).run (transmit E K loss) l).1 = true →
        ((sendWithRetry (startFrame total) 1).run (transmit E K loss) l).2.Ready loss total
          [startFrame total]) := by
  have hcall : ∀ r, programCall (startFrame total) r = none := fun r ↦
    if_neg fun h ↦ absurd h.2 (show otaOpStart ≠ otaOpData by decide)
  have hlen := length_tape loss 0
  obtain ⟨hiff, hend⟩ := attempts_iff E K loss true
    (fun e r ↦ r.Ready total [] e ∨ r.Ready total [startFrame total] e)
    (show (startFrame total).op ≠ otaOpAbort from show otaOpStart ≠ otaOpAbort by decide)
    (fun h ↦ h.elim (fun h ↦ ⟨h.receiving, h.errs⟩) fun h ↦ ⟨h.receiving, h.errs⟩)
    (fun n h ↦ h.imp (fun h ↦ h.wait _) fun h ↦ h.wait _)
    (fun h ↦ ⟨(Receiver.Ready.hear_start hlo hhi h).1,
      fun _ ↦ ⟨.inr (Receiver.Ready.hear_start hlo hhi h).2, hcall _⟩, fun h ↦ (by cases h)⟩)
    (show 0 < maxConsecErrs by decide) (.inl h.rx) h.tape
  rw [List.length_nil] at hiff hend
  rw [hlen] at hiff hend
  refine ⟨hiff, fun hok ↦ ?_⟩
  obtain ⟨e, r, hr, hl⟩ := hend hok
  have hready := (Receiver.Ready.hear_start (E := E) (K := K) hlo hhi hr).2
  unfold sendWithRetry
  rw [show (1 : UInt16) = (startFrame total).seq from rfl, hl]
  refine ⟨hready, congrArg (· + 1) h.frameIx, congrArg (fun i ↦ loss.tape (i + 1)) h.frameIx, ?_⟩
  dsimp only
  rw [hcall, h.programs]
  rfl

/-- Sending a DATA frame. -/
theorem Line.Ready.send_data {l : Line} {image : List UInt8} {chunk : ChunkSize}
    {taken fs : List OtaFrame} (hfr : pushFrames image chunk = taken ++ f :: fs)
    (hop : f.op = otaOpData) (hne : taken ≠ []) (h : l.Ready loss image.length taken) :
    (((sendWithRetry f f.seq).run (transmit E K loss) l).1 = true ↔
        Passes false 0 (loss.tape taken.length)) ∧
      (((sendWithRetry f f.seq).run (transmit E K loss) l).1 = true →
        ((sendWithRetry f f.seq).run (transmit E K loss) l).2.Ready loss image.length
          (taken ++ [f])) := by
  have hlen := length_tape loss taken.length
  have hnote : (sessionOf (taken ++ [f])).acked = (sessionOf taken).acked ++ [f.data] := by
    rw [sessionOf_append, Transfer.note_data hop]
  obtain ⟨hiff, hend⟩ := attempts_iff E K loss false
    (fun e r ↦ r.Ready image.length taken e ∧
      l.programs = placed r.client.state.slotAddr (sessionOf taken).acked)
    (by rw [hop]; decide) (fun h ↦ ⟨h.1.receiving, h.1.errs⟩) (fun n h ↦ ⟨h.1.wait _, h.2⟩)
    (fun h ↦ ⟨(h.1.hear_data hfr hop hne).1, fun h ↦ (by cases h), fun _ _ ↦
      took_data_again hop ((h.1.hear_data hfr hop hne).2.1.took.client
        (List.append_ne_nil_of_right_ne_nil _ (List.cons_ne_nil f []))) List.getLast?_concat⟩)
    (show 0 < maxConsecErrs by decide) ⟨h.rx, h.programs⟩ h.tape
  rw [hlen] at hiff hend
  refine ⟨hiff, fun hok ↦ ?_⟩
  obtain ⟨e, r, ⟨hr, hprog⟩, hl⟩ := hend hok
  obtain ⟨-, hready, haddr, hcall⟩ := hr.hear_data (E := E) (K := K) hfr hop hne
  unfold sendWithRetry
  rw [hl]
  refine ⟨hready, ?_, ?_, ?_⟩
  · dsimp only
    rw [h.frameIx, List.length_append, List.length_singleton]
  · dsimp only
    rw [h.frameIx, List.length_append, List.length_singleton]
  · dsimp only
    rw [hcall, hprog, haddr, hnote, placed_concat,
      (written_le_of_next hfr hop (hr.took.client hne)).1]
    rfl

/-- Sending DATA frames one after the other. -/
theorem Line.Ready.send_all {image : List UInt8} {chunk : ChunkSize} {taken fs rest : List OtaFrame}
    {l : Line} (hfr : pushFrames image chunk = taken ++ (fs ++ rest))
    (hop : ∀ f ∈ fs, f.op = otaOpData) (hne : taken ≠ []) (h : l.Ready loss image.length taken) :
    (((sendAll fs).run (transmit E K loss) l).1 = true ↔
        ∀ i < fs.length, Passes false 0 (loss.tape (taken.length + i))) ∧
      (((sendAll fs).run (transmit E K loss) l).1 = true →
        ((sendAll fs).run (transmit E K loss) l).2.Ready loss image.length (taken ++ fs)) := by
  induction fs generalizing taken l with
  | nil =>
      refine ⟨⟨fun _ i hi ↦ absurd hi (Nat.not_lt_zero i), fun _ ↦ rfl⟩, fun _ ↦ ?_⟩
      rw [List.append_nil]
      exact h
  | cons f fs ih =>
      obtain ⟨hiff, hend⟩ := h.send_data (E := E) (K := K) hfr (hop f (List.mem_cons_self ..)) hne
      have hsplit : (∀ i < (f :: fs).length, Passes false 0 (loss.tape (taken.length + i))) ↔
          Passes false 0 (loss.tape taken.length) ∧
            ∀ i < fs.length, Passes false 0 (loss.tape ((taken ++ [f]).length + i)) := by
        have hshift : ∀ i, (taken ++ [f]).length + i = taken.length + (i + 1) := fun i ↦ by
          rw [List.length_append, List.length_singleton, Nat.add_assoc, Nat.add_comm 1 i]
        constructor
        · exact fun h ↦ ⟨h 0 (Nat.succ_pos _), fun i hi ↦
            hshift i ▸ h (i + 1) (Nat.succ_lt_succ hi)⟩
        · rintro ⟨h₀, h₁⟩ (_ | i) hi
          · exact h₀
          · exact hshift i ▸ h₁ i (Nat.lt_of_succ_lt_succ hi)
      rw [sendAll, Calls.run_bind, hsplit, ← hiff]
      cases hok : ((sendWithRetry f f.seq).run (transmit E K loss) l).1 with
      | false => exact ⟨⟨fun h ↦ (by cases h), fun h ↦ (by cases h.1)⟩, fun h ↦ (by cases h)⟩
      | true =>
          rw [if_pos rfl]
          obtain ⟨hiff', hend'⟩ := ih
            (show pushFrames image chunk = (taken ++ [f]) ++ (fs ++ rest) by
              rw [hfr, List.append_assoc]; rfl) (fun g hg ↦ hop g (List.mem_cons_of_mem _ hg))
            (List.append_ne_nil_of_right_ne_nil _ (List.cons_ne_nil f [])) (hend hok)
          refine ⟨hiff'.trans ⟨fun h ↦ ⟨rfl, h⟩, And.right⟩, fun h ↦ ?_⟩
          have := hend' h
          rwa [List.append_assoc] at this

/-- The session of a whole transfer holds its chunks. -/
theorem sessionOf_transferFrames (image : List UInt8) (chunk : ChunkSize) :
    (sessionOf (transferFrames image chunk)).acked =
      (imageFrames image chunk).map OtaFrame.data := by
  have hdata : ∀ (fs : List OtaFrame) (g : Transfer), (∀ f ∈ fs, f.op = otaOpData) →
      (fs.foldl (fun g f ↦ g.note f true) g).acked = g.acked ++ fs.map OtaFrame.data := by
    intro fs
    induction fs with
    | nil => exact fun g _ ↦ (List.append_nil _).symm
    | cons f fs ih =>
        intro g h
        rw [List.foldl_cons, Transfer.note_data (h f (List.mem_cons_self ..)),
          ih _ fun g hg ↦ h g (List.mem_cons_of_mem _ hg), List.append_assoc]
        rfl
  exact hdata _ ⟨1, []⟩ fun f hf ↦ (imageFrames_data image chunk hf).1

/-- Every frame of the transfer is acknowledged, and every chunk is programmed exactly
once, in order. -/
def Delivered (image : List UInt8) (chunk : ChunkSize) (r : Option UInt16 × Line) : Prop :=
  r.1.isSome = true ∧
    r.2.programs = placed r.2.rx.client.state.slotAddr ((imageFrames image chunk).map OtaFrame.data)

section Push

variable {image : List UInt8} {chunk : ChunkSize} {dev : Hw}

/-- A push delivers exactly when the attempts at every frame succeed. -/
theorem delivered_iff_passes (hlo : firmwareHeaderSize ≤ image.length)
    (hhi : image.length ≤ firmwareHeaderSize + firmwareMaxPayloadSize) (hdev : dev.Healthy)
    (shared : SharedBootBlock) :
    Delivered image chunk
        ((pushTransfer image chunk).run (transmit E K loss) (.start loss dev shared)) ↔
      ∀ i < (transferFrames image chunk).length, Passes (i == 0) 0 (loss.tape i) := by
  have hlt : image.length < 2 ^ 32 := by
    have : firmwareHeaderSize + firmwareMaxPayloadSize < 2 ^ 32 := by decide
    omega
  have hrun := pushTransfer_bind image chunk hlt Calls.ret
  rw [Calls.bind_ret] at hrun
  have hstart : (Line.start loss dev shared).Ready loss image.length [] :=
    ⟨⟨rfl, rfl, hdev, ⟨fun h ↦ absurd rfl h, fun ⟨_, h, _⟩ ↦ (by cases h)⟩,
      fun h ↦ absurd rfl h⟩, rfl, rfl, rfl⟩
  have hfr : pushFrames image chunk = [startFrame image.length] ++ (imageFrames image chunk ++
      [endFrame (UInt16.ofNat (imageFrames image chunk).length + 2)]) := rfl
  obtain ⟨hiff, hend⟩ := hstart.send_start (E := E) (K := K) hlo hhi
  have hsplit : (∀ i < (transferFrames image chunk).length, Passes (i == 0) 0 (loss.tape i)) ↔
      Passes true 0 (loss.tape 0) ∧ ∀ i < (imageFrames image chunk).length,
        Passes false 0 (loss.tape ([startFrame image.length].length + i)) := by
    constructor
    · refine fun h ↦ ⟨h 0 (Nat.succ_pos _), fun i hi ↦ ?_⟩
      rw [List.length_singleton, Nat.add_comm]
      exact h (i + 1) (Nat.succ_lt_succ hi)
    · rintro ⟨h₀, h₁⟩ (_ | i) hi
      · exact h₀
      · have := h₁ i (Nat.lt_of_succ_lt_succ hi)
        rw [List.length_singleton, Nat.add_comm] at this
        exact this
  rw [hrun, Calls.run_bind, hsplit, ← hiff]
  unfold Delivered transferFrames
  rw [sendAll, Calls.run_bind]
  have hseq : (startFrame image.length).seq = 1 := rfl
  rw [hseq]
  cases hok : ((sendWithRetry (startFrame image.length) 1).run (transmit E K loss)
    (.start loss dev shared)).1 with
  | false => exact ⟨fun h ↦ (by cases h.1), fun h ↦ (by cases h.1)⟩
  | true =>
      obtain ⟨hiff', hend'⟩ := (hend hok).send_all (E := E) (K := K) hfr
        (fun f hf ↦ (imageFrames_data image chunk hf).1) (List.cons_ne_nil _ _)
      rw [if_pos rfl, ← hiff']
      cases hok' : ((sendAll (imageFrames image chunk)).run (transmit E K loss)
        ((sendWithRetry (startFrame image.length) 1).run (transmit E K loss)
          (.start loss dev shared)).2).1 with
      | false => exact ⟨fun h ↦ (by cases h.1), fun h ↦ (by cases h.2)⟩
      | true =>
          refine ⟨fun _ ↦ ⟨rfl, rfl⟩, fun _ ↦ ⟨rfl, ?_⟩⟩
          have hprog := (hend' hok').programs
          rw [← sessionOf_transferFrames]
          exact hprog

end Push

/-! ## When a push recovers -/

/-- The first transmission that reaches the receiver is answered. -/
def AnsweredFirst (ts : List Transmission) : Prop :=
  ∀ t, ts.find? Transmission.frame = some t → t.response = true

/-- Up to the first transmission that is delivered and answered, the receiver meets fewer
than `maxConsecErrs` read timeouts between two transmissions that reach it; `e` is how many
it has met so far. -/
def Quiet : Nat → List Transmission → Prop
  | _, [] => True
  | e, t :: ts => e + t.silences < maxConsecErrs ∧
      if t.frame then t.response = true ∨ Quiet 0 ts else Quiet (e + t.silences) ts

theorem answeredFirst_cons (t : Transmission) (ts : List Transmission) :
    AnsweredFirst (t :: ts) ↔ if t.frame then t.response = true else AnsweredFirst ts := by
  unfold AnsweredFirst
  rw [List.find?_cons]
  cases t.frame with
  | false => exact Iff.rfl
  | true => exact ⟨fun h ↦ h t rfl, fun h x hx ↦ Option.some.inj hx ▸ h⟩

/-- Attempts of which one is delivered and answered. -/
theorem passes_iff {again : Bool} {e : Nat} {ts : List Transmission}
    (h : ∃ t ∈ ts, t.frame = true ∧ t.response = true) :
    Passes again e ts ↔ (again = true ∨ AnsweredFirst ts) ∧ Quiet e ts := by
  induction ts generalizing e with
  | nil => obtain ⟨t, ht, -⟩ := h; cases ht
  | cons t ts ih =>
      rw [Passes, Quiet, answeredFirst_cons]
      have htail : ¬(t.frame = true ∧ t.response = true) →
          ∃ t ∈ ts, t.frame = true ∧ t.response = true := by
        intro hne
        obtain ⟨x, hx, hxt⟩ := h
        rcases List.mem_cons.1 hx with rfl | hx
        · exact absurd hxt hne
        · exact ⟨x, hx, hxt⟩
      cases hf : t.frame with
      | false =>
          have hih := ih (e := e + t.silences) (htail fun h ↦ by rw [hf] at h; cases h.1)
          rw [if_neg (by decide), if_neg (by decide), if_neg (by decide), hih]
          exact and_left_comm
      | true =>
          rw [if_pos rfl, if_pos rfl, if_pos rfl]
          cases ha : t.response with
          | true => exact ⟨fun h ↦ ⟨.inr rfl, h.1, .inl rfl⟩, fun h ↦ ⟨h.2.1, .inl rfl⟩⟩
          | false =>
              have hih := ih (e := 0) (htail fun h ↦ by rw [ha] at h; cases h.2)
              have hno : ¬(false = true) := by decide
              rw [hih]
              constructor
              · rintro ⟨hs, h | ⟨hagain, -, hq⟩⟩
                · exact absurd h hno
                · exact ⟨.inl hagain, hs, .inr hq⟩
              · rintro ⟨hagain | h, hs, h' | hq⟩
                · exact absurd h' hno
                · exact ⟨hs, .inr ⟨hagain, .inl hagain, hq⟩⟩
                · exact absurd h hno
                · exact absurd h hno

/-- **Loss recovery.**  Where every frame has an attempt that is delivered and answered, a
push to a receiver without flash faults delivers exactly when the receiver does not give up
in between and, for every DATA frame, the first transmission that reaches it is answered. -/
theorem push_recovers_iff (E : PatchEngine) (K : KeyStore) {image : List UInt8}
    (hlo : 512 ≤ image.length) (hhi : image.length ≤ 471040) (chunk : ChunkSize)
    {loss : LossPattern} (hloss : ∀ i < (transferFrames image chunk).length,
      ∃ t ∈ loss.tape i, t.frame = true ∧ t.response = true)
    {dev : Hw} (hdev : dev.Healthy) (shared : SharedBootBlock) :
    Delivered image chunk
        ((pushTransfer image chunk).run (transmit E K loss) (.start loss dev shared)) ↔
      ∀ i < (transferFrames image chunk).length,
        (i = 0 ∨ AnsweredFirst (loss.tape i)) ∧ Quiet 0 (loss.tape i) := by
  rw [delivered_iff_passes hlo hhi hdev shared]
  refine forall_congr' fun i ↦ forall_congr' fun hi ↦ ?_
  rw [passes_iff (hloss i hi), beq_iff_eq]

/-- An image of the least size. -/
def blankImage : List UInt8 := List.replicate firmwareHeaderSize 0

theorem length_blankImage : blankImage.length = 512 := List.length_replicate

def wholeChunk : ChunkSize := ⟨512, by decide⟩

def quarterChunk : ChunkSize := ⟨128, by decide⟩

/-- A line that loses the response to the first START, and the second DATA frame while the
receiver times out twice. -/
def lossyLine : LossPattern := fun i a ↦
  if i = 0 ∧ a = 0 then ⟨0, true, false⟩ else if i = 2 ∧ a = 0 then ⟨2, false, true⟩
  else ⟨0, true, true⟩

/-- A line that loses one response, the one to the first DATA frame. -/
def oneLostResponse : LossPattern := fun i a ↦ ⟨0, true, !(i == 1 && a == 0)⟩

theorem mem_tape (loss : LossPattern) (i : Nat) {a : Nat} (ha : a < retriesPerFrame) :
    loss i a ∈ loss.tape i :=
  List.mem_map.2 ⟨a, List.mem_range.2 ha, rfl⟩

/-- An image that is not empty takes a DATA frame. -/
theorem one_lt_length_transferFrames (image : List UInt8) (chunk : ChunkSize)
    (h : 0 < image.length) : 1 < (transferFrames image chunk).length := by
  have hflat := imageFrames_flatMap image chunk
  refine Nat.succ_lt_succ (List.length_pos_iff.2 fun hnil ↦ ?_)
  rw [hnil] at hflat
  rw [← hflat] at h
  exact Nat.lt_irrefl 0 h

/-- START is acknowledged again, and the lost DATA frame is sent again. -/
theorem push_recovers_lossy :
    Delivered blankImage quarterChunk ((pushTransfer blankImage quarterChunk).run
      (transmit refusingEngine sampleKeys lossyLine)
      (.start lossyLine (Hw.reset defaultMem) .zero)) := by
  have hagain : ∀ i, lossyLine i 1 = ⟨0, true, true⟩ := fun i ↦ by simp [lossyLine]
  refine (push_recovers_iff refusingEngine sampleKeys (Nat.le_of_eq length_blankImage.symm)
    (by rw [length_blankImage]; decide) quarterChunk (fun i _ ↦ ?_) (Hw.healthy_reset defaultMem)
    .zero).2 fun i _ ↦ ?_
  · exact ⟨_, mem_tape lossyLine i (show 1 < retriesPerFrame by decide), by rw [hagain],
      by rw [hagain]⟩
  · by_cases h₀ : i = 0
    · subst h₀
      exact ⟨.inl rfl, by decide, .inr ⟨by decide, .inl rfl⟩⟩
    by_cases h₂ : i = 2
    · subst h₂
      exact ⟨.inr fun t ht ↦ by cases ht; rfl, by decide, by decide, .inl rfl⟩
    have hfirst : lossyLine i 0 = ⟨0, true, true⟩ := by simp [lossyLine, h₀, h₂]
    obtain ⟨ts, htape⟩ : ∃ ts, lossyLine.tape i = lossyLine i 0 :: ts := ⟨_, rfl⟩
    rw [htape, hfirst]
    exact ⟨.inr fun t ht ↦ by cases ht; rfl, (show 0 < maxConsecErrs by decide), .inl rfl⟩

/-- One lost response is enough for a push to fail, though every frame has four more
attempts that are delivered and answered. -/
theorem lost_response_fails :
    (∀ i < (transferFrames blankImage wholeChunk).length,
        ∃ t ∈ oneLostResponse.tape i, t.frame = true ∧ t.response = true) ∧
      ¬Delivered blankImage wholeChunk ((pushTransfer blankImage wholeChunk).run
        (transmit refusingEngine sampleKeys oneLostResponse)
        (.start oneLostResponse (Hw.reset defaultMem) .zero)) := by
  refine ⟨fun i _ ↦ ⟨_, mem_tape oneLostResponse i (show 1 < retriesPerFrame by decide), rfl, ?_⟩,
    fun h ↦ ?_⟩
  · show (!(i == 1 && false)) = true
    rw [Bool.and_false]
    rfl
  · have hone := one_lt_length_transferFrames blankImage wholeChunk
      (by rw [length_blankImage]; decide)
    have hpass := (delivered_iff_passes (Nat.le_of_eq length_blankImage.symm)
      (by rw [length_blankImage]; decide) (Hw.healthy_reset defaultMem) .zero).1 h 1 hone
    obtain ⟨-, hans | hagain⟩ := hpass
    · cases hans
    · cases hagain.1

end DualBank
