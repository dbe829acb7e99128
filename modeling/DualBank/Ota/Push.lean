import DualBank.Lib.Calls
import DualBank.Ota.Client

/-!
# The host

`send_with_retry` and `push` of `tools/ota_server.py`, as programs that exchange
frames for responses.  The answer to an exchange is the response that was read, or
`none` when the read times out or the response is malformed.

A push is the same as sending a list of frames one after the other
(`push_eq_sendAll`), numbered from 1 on.
-/

namespace DualBank

open Lib

/-- A program of the host. -/
abbrev HostProgram (α : Type) : Type := Calls OtaFrame (fun _ ↦ Option OtaResponse) α

def retriesPerFrame : Nat := 5

/-- The attempts of `send_with_retry` that are left. -/
def sendAttempts (frame : OtaFrame) (expectedSeq : UInt16) : Nat → HostProgram Bool
  | 0 => .ret false
  | n + 1 => .call frame fun
    | none => sendAttempts frame expectedSeq n
    | some r =>
      if r.seq ≠ expectedSeq then sendAttempts frame expectedSeq n
      else if r.code ≠ otaRespAck then sendAttempts frame expectedSeq n
      else .ret true

def sendWithRetry (frame : OtaFrame) (expectedSeq : UInt16) : HostProgram Bool :=
  sendAttempts frame expectedSeq retriesPerFrame

/-- The answers that end the attempts. -/
def isAckOf (expectedSeq : UInt16) (a : Option OtaResponse) : Bool :=
  a.any fun r ↦ r.seq == expectedSeq && r.code == otaRespAck

theorem sendAttempts_succ (frame : OtaFrame) (expectedSeq : UInt16) (n : Nat) :
    sendAttempts frame expectedSeq (n + 1) = .call frame fun a ↦
      if isAckOf expectedSeq a then .ret true else sendAttempts frame expectedSeq n := by
  rw [sendAttempts]
  refine congrArg _ (funext fun a ↦ ?_)
  cases a with
  | none => rfl
  | some r =>
      have hack : isAckOf expectedSeq (some r) = (r.seq == expectedSeq && r.code == otaRespAck) :=
        rfl
      by_cases hs : r.seq = expectedSeq
      · by_cases hc : r.code = otaRespAck
        · simp [hack, hs, hc]
        · simp [hack, hs, hc]
      · simp [hack, hs]

theorem isAckOf_iff {s : UInt16} {a : Option OtaResponse} :
    isAckOf s a = true ↔ a = some ⟨otaRespAck, s⟩ := by
  cases a with
  | none => exact ⟨fun h ↦ (by cases h), fun h ↦ (by cases h)⟩
  | some r =>
      cases r with
      | mk code seq =>
          simp only [isAckOf, Option.any_some, Bool.and_eq_true, beq_iff_eq, Option.some.injEq,
            OtaResponse.mk.injEq]
          exact And.comm

/-- A chunk size that `build_frame` does not refuse. -/
abbrev ChunkSize : Type := { n : Nat // 0 < n ∧ n ≤ otaMaxPayload }

def startFrame (total : Nat) : OtaFrame := ⟨otaOpStart, 1, bytes32 total.toUInt32, by
  rw [length_bytes32]; decide⟩

/-- The frame of `image[sent : sent + chunk_size]`. -/
def dataFrame (image : List UInt8) (chunk : ChunkSize) (seq : UInt16) (sent : Nat) : OtaFrame :=
  ⟨otaOpData, seq, (image.drop sent).take chunk.1,
    Nat.le_trans (List.length_take_le _ _) chunk.2.2⟩

def endFrame (seq : UInt16) : OtaFrame := ⟨otaOpEnd, seq, [], Nat.zero_le _⟩

/-- The `while` loop of `push`: the sequence number it ends with, or `none` when a frame
fails.  Every turn sends a byte at least, so the length of the image is enough fuel. -/
def pushData (image : List UInt8) (chunk : ChunkSize) :
    Nat → UInt16 → Nat → HostProgram (Option UInt16)
  | 0, seq, _ => .ret (some seq)
  | fuel + 1, seq, sent =>
    if sent < image.length then
      let seq := seq + 1
      let frame := dataFrame image chunk seq sent
      (sendWithRetry frame seq).bind fun ok ↦
        if ok then pushData image chunk fuel seq (sent + frame.data.length) else .ret none
    else .ret (some seq)

/-- `push` up to the END frame. -/
def pushTransfer (image : List UInt8) (chunk : ChunkSize) : HostProgram (Option UInt16) :=
  -- a total of more than 32 bits cannot be packed
  if 2 ^ 32 ≤ image.length then .ret none
  else
    let seq := 1
    (sendWithRetry (startFrame image.length) seq).bind fun ok ↦
      if ok then pushData image chunk image.length seq 0 else .ret none

def push (image : List UInt8) (chunk : ChunkSize) : HostProgram Bool :=
  (pushTransfer image chunk).bind fun
    | none => .ret false
    | some seq =>
      let seq := seq + 1
      sendWithRetry (endFrame seq) seq

/-! ## The frames of a push -/

/-- Frames sent one after the other, as long as they are acknowledged. -/
def sendAll : List OtaFrame → HostProgram Bool
  | [] => .ret true
  | f :: fs => (sendWithRetry f f.seq).bind fun ok ↦ if ok then sendAll fs else .ret false

/-- The DATA frames that `pushData` sends. -/
def dataFrames (image : List UInt8) (chunk : ChunkSize) : Nat → UInt16 → Nat → List OtaFrame
  | 0, _, _ => []
  | fuel + 1, seq, sent =>
    if sent < image.length then
      let frame := dataFrame image chunk (seq + 1) sent
      frame :: dataFrames image chunk fuel (seq + 1) (sent + frame.data.length)
    else []

variable (image : List UInt8) (chunk : ChunkSize)

/-- The DATA frames of a push. -/
def imageFrames : List OtaFrame := dataFrames image chunk image.length 1 0

/-- The frames of a push before END. -/
def transferFrames : List OtaFrame := startFrame image.length :: imageFrames image chunk

/-- The frames of a push. -/
def pushFrames : List OtaFrame :=
  transferFrames image chunk ++ [endFrame (UInt16.ofNat (imageFrames image chunk).length + 2)]

theorem pushData_bind {β : Type} (fuel : Nat) (seq : UInt16) (sent : Nat)
    (k : Option UInt16 → HostProgram β) :
    (pushData image chunk fuel seq sent).bind k =
      (sendAll (dataFrames image chunk fuel seq sent)).bind fun ok ↦
        k (if ok then some (seq + UInt16.ofNat (dataFrames image chunk fuel seq sent).length)
          else none) := by
  induction fuel generalizing seq sent with
  | zero =>
      have hz : seq + UInt16.ofNat 0 = seq := UInt16.add_zero seq
      simp only [pushData, dataFrames, sendAll, Calls.ret_bind, List.length_nil, if_true, hz]
  | succ fuel ih =>
      unfold pushData dataFrames
      dsimp only
      by_cases h : sent < image.length
      · rw [if_pos h, if_pos h, sendAll, Calls.bind_assoc, Calls.bind_assoc]
        refine congrArg _ (funext fun ok ↦ ?_)
        cases ok with
        | false => rfl
        | true =>
            rw [if_pos rfl, if_pos rfl, ih]
            refine congrArg _ (funext fun ok ↦ ?_)
            have hlen : ∀ n : Nat, seq + 1 + UInt16.ofNat n = seq + UInt16.ofNat (n + 1) :=
              fun n ↦ by rw [UInt16.ofNat_add]; ac_rfl
            rw [List.length_cons, hlen]
      · have hz : seq + UInt16.ofNat 0 = seq := UInt16.add_zero seq
        rw [if_neg h, if_neg h]
        simp only [sendAll, Calls.ret_bind, List.length_nil, if_true, hz]

theorem sendAll_append (fs gs : List OtaFrame) :
    sendAll (fs ++ gs) = (sendAll fs).bind fun ok ↦ if ok then sendAll gs else .ret false := by
  induction fs with
  | nil => rfl
  | cons f fs ih =>
      rw [List.cons_append, sendAll, sendAll, Calls.bind_assoc]
      refine congrArg _ (funext fun ok ↦ ?_)
      cases ok with
      | false => rfl
      | true => rw [if_pos rfl, if_pos rfl, ih]

theorem sendAll_singleton (f : OtaFrame) : sendAll [f] = sendWithRetry f f.seq := by
  have hret : (fun ok : Bool ↦ if ok then sendAll [] else .ret false) = Calls.ret :=
    funext fun ok ↦ by cases ok <;> rfl
  rw [sendAll, hret, Calls.bind_ret]

/-- The transfer of an image of less than 4 GiB sends its frames. -/
theorem pushTransfer_bind {β : Type} (h : image.length < 2 ^ 32)
    (k : Option UInt16 → HostProgram β) :
    (pushTransfer image chunk).bind k =
      (sendAll (transferFrames image chunk)).bind fun ok ↦
        k (if ok then some (1 + UInt16.ofNat (imageFrames image chunk).length) else none) := by
  unfold pushTransfer transferFrames imageFrames
  dsimp only
  rw [if_neg (Nat.not_le.2 h), sendAll, Calls.bind_assoc, Calls.bind_assoc]
  refine congrArg _ (funext fun ok ↦ ?_)
  cases ok with
  | false => rfl
  | true => exact pushData_bind image chunk image.length 1 0 k

/-- A push of an image of less than 4 GiB sends its frames. -/
theorem push_eq_sendAll (h : image.length < 2 ^ 32) :
    push image chunk = sendAll (pushFrames image chunk) := by
  unfold push pushFrames
  rw [pushTransfer_bind image chunk h, sendAll_append]
  refine congrArg _ (funext fun ok ↦ ?_)
  cases ok with
  | false => rfl
  | true =>
      rw [if_pos rfl, if_pos rfl, sendAll_singleton]
      have hseq : (1 : UInt16) + UInt16.ofNat (imageFrames image chunk).length + 1 =
          UInt16.ofNat (imageFrames image chunk).length + 2 := by
        rw [UInt16.add_comm 1, UInt16.add_assoc]; rfl
      dsimp only
      rw [hseq]
      rfl

/-! ## Numbering -/

/-- The frames carry the sequence numbers from `s` on. -/
def Numbered : UInt16 → List OtaFrame → Prop
  | _, [] => True
  | s, f :: fs => f.seq = s ∧ Numbered (s + 1) fs

theorem numbered_append {s : UInt16} {fs gs : List OtaFrame} :
    Numbered s (fs ++ gs) ↔ Numbered s fs ∧ Numbered (s + UInt16.ofNat fs.length) gs := by
  induction fs generalizing s with
  | nil =>
      have hz : s + UInt16.ofNat 0 = s := UInt16.add_zero s
      rw [List.nil_append, List.length_nil, hz]
      exact ⟨fun h ↦ ⟨trivial, h⟩, And.right⟩
  | cons f fs ih =>
      have hlen : s + 1 + UInt16.ofNat fs.length = s + UInt16.ofNat (fs.length + 1) := by
        rw [UInt16.ofNat_add]; ac_rfl
      rw [List.cons_append, Numbered, Numbered, ih, hlen, List.length_cons, and_assoc]

theorem numbered_dataFrames (fuel : Nat) (seq : UInt16) (sent : Nat) :
    Numbered (seq + 1) (dataFrames image chunk fuel seq sent) := by
  induction fuel generalizing seq sent with
  | zero => trivial
  | succ fuel ih =>
      unfold dataFrames
      split_ifs
      · exact ⟨rfl, ih _ _⟩
      · trivial

/-- What the DATA frames carry: each of them something, together the rest of the image. -/
theorem dataFrames_spec (fuel : Nat) (seq : UInt16) (sent : Nat) (hsent : sent ≤ image.length)
    (hfuel : image.length ≤ sent + fuel) :
    (∀ f ∈ dataFrames image chunk fuel seq sent, f.op = otaOpData ∧ f.data ≠ []) ∧
      (dataFrames image chunk fuel seq sent).flatMap OtaFrame.data = image.drop sent := by
  induction fuel generalizing seq sent with
  | zero =>
      have hz : image.drop sent = [] := List.drop_eq_nil_of_le (by omega)
      rw [hz]
      exact ⟨fun f hf ↦ (by cases hf), rfl⟩
  | succ fuel ih =>
      unfold dataFrames
      dsimp only
      by_cases h : sent < image.length
      · rw [if_pos h]
        have hlen : (dataFrame image chunk (seq + 1) sent).data.length =
            min chunk.1 (image.length - sent) := by
          simp only [dataFrame, List.length_take, List.length_drop]
        have hpos := chunk.2.1
        obtain ⟨hall, hflat⟩ := ih (seq + 1)
          (sent + (dataFrame image chunk (seq + 1) sent).data.length)
          (by rw [hlen]; omega) (by rw [hlen]; omega)
        refine ⟨fun f hf ↦ ?_, ?_⟩
        · rcases List.mem_cons.1 hf with rfl | hf
          · refine ⟨rfl, fun hnil ↦ ?_⟩
            have h0 : (dataFrame image chunk (seq + 1) sent).data.length = 0 := by rw [hnil]; rfl
            omega
          · exact hall f hf
        · have hdata : (dataFrame image chunk (seq + 1) sent).data = (image.drop sent).take
              (dataFrame image chunk (seq + 1) sent).data.length := by
            rw [hlen]
            simp only [dataFrame]
            rw [← List.length_drop, List.take_eq_take_min]
          have happ := List.take_append_drop
            (dataFrame image chunk (seq + 1) sent).data.length (image.drop sent)
          rw [← hdata, List.drop_drop] at happ
          rw [List.flatMap_cons, hflat, happ]
      · rw [if_neg h]
        have hz : image.drop sent = [] := List.drop_eq_nil_of_le (by omega)
        rw [hz]
        exact ⟨fun f hf ↦ (by cases hf), rfl⟩

theorem imageFrames_data {f : OtaFrame} (hf : f ∈ imageFrames image chunk) :
    f.op = otaOpData ∧ f.data ≠ [] :=
  (dataFrames_spec image chunk image.length 1 0 (Nat.zero_le _) (by omega)).1 f hf

/-- The DATA frames carry the image. -/
theorem imageFrames_flatMap : (imageFrames image chunk).flatMap OtaFrame.data = image :=
  (dataFrames_spec image chunk image.length 1 0 (Nat.zero_le _) (by omega)).2

/-- A frame of a push is START, the first one, or DATA, or END. -/
theorem pushFrames_next {done fs : List OtaFrame} {f : OtaFrame}
    (h : pushFrames image chunk = done ++ f :: fs) :
    (done = [] ∧ f = startFrame image.length) ∨
      (done ≠ [] ∧ (f.op = otaOpData ∧ f.data ≠ [] ∨ f.op = otaOpEnd ∧ f.data = [])) := by
  cases done with
  | nil => exact .inl ⟨rfl, (List.cons.inj h).1.symm⟩
  | cons g ds =>
      refine .inr ⟨List.cons_ne_nil _ _, ?_⟩
      have htail : imageFrames image chunk ++
          [endFrame (UInt16.ofNat (imageFrames image chunk).length + 2)] = ds ++ f :: fs :=
        (List.cons.inj h).2
      have hmem := htail ▸ List.mem_append_right ds (List.mem_cons_self (a := f) (l := fs))
      rcases List.mem_append.1 hmem with hf | hf
      · exact .inl (imageFrames_data image chunk hf)
      · rw [List.mem_singleton.1 hf]
        exact .inr ⟨rfl, rfl⟩

theorem numbered_transferFrames : Numbered 1 (transferFrames image chunk) :=
  ⟨rfl, numbered_dataFrames image chunk image.length 1 0⟩

theorem numbered_pushFrames : Numbered 1 (pushFrames image chunk) := by
  refine numbered_append.2 ⟨numbered_transferFrames image chunk, ?_, trivial⟩
  have hlen : (transferFrames image chunk).length = (imageFrames image chunk).length + 1 := rfl
  have hseq : ∀ n : Nat, UInt16.ofNat n + 2 = 1 + UInt16.ofNat (n + 1) := fun n ↦ by
    rw [UInt16.ofNat_add, UInt16.add_comm 1, UInt16.add_assoc]
    rfl
  rw [hlen]
  exact hseq _

/-- A frame carries the number after the one before it. -/
theorem pushFrames_seq {done fs : List OtaFrame} {g f : OtaFrame}
    (h : pushFrames image chunk = done ++ g :: f :: fs) : g.seq + 1 = f.seq := by
  have hnum := numbered_pushFrames image chunk
  rw [h] at hnum
  exact (numbered_append.1 hnum).2.2.1.symm ▸ congrArg (· + 1) (numbered_append.1 hnum).2.1

end DualBank
