import DualBank.Ota.Frame

/-!
# The receiver in time

`uart_ota_getc` and `uart_ota_read` of `bootloader/src/uart.c`, and `read_frame` of
`bootloader/src/ota_client.c` over them.  The code measures time in polls of the
receiver, and so does the model: what is to come is the outcome of every poll.
-/

namespace DualBank

open Lib

def otaByteTimeoutMs : Nat := 500
def pollsPerMs : Nat := 1600

/-- The outcomes of the polls to come.  Behind the end nothing is ever received. -/
abbrev Polls := List (Option UInt8)

/-- `usart_try_getc`: one poll. -/
def usartTryGetc : Polls → Option UInt8 × Polls
  | [] => (none, [])
  | poll :: polls => (poll, polls)

/-- The loop of `uart_ota_getc`, with the budget left; that it kicks the watchdog now and
then does not show here. -/
def getcLoop : Nat → Polls → Option UInt8 × Polls
  | 0, polls => (none, polls)
  | budget + 1, polls =>
    match usartTryGetc polls with
    | (some c, polls) => (some c, polls)
    | (none, polls) => getcLoop budget polls

/-- `budget` of `uart_ota_getc`: the polls after which it gives up. -/
@[irreducible]
def pollBudget (timeoutMs : Nat) : Nat := timeoutMs * pollsPerMs + 1

theorem pollBudget_pos (timeoutMs : Nat) : 0 < pollBudget timeoutMs := by
  rw [pollBudget]
  exact Nat.succ_pos _

theorem pollBudget_le {timeoutMs k : Nat} (h : timeoutMs * pollsPerMs < k) :
    pollBudget timeoutMs ≤ k := by
  rw [pollBudget]
  exact h

/-- `uart_ota_getc`. -/
def uartOtaGetc (timeoutMs : Nat) (polls : Polls) : Option UInt8 × Polls :=
  getcLoop (pollBudget timeoutMs) polls

/-- `uart_ota_read` of `n` bytes: what arrived before a timeout. -/
def uartOtaReadPolls (timeoutMs : Nat) : Nat → Polls → List UInt8 × Polls
  | 0, polls => ([], polls)
  | n + 1, polls =>
    match uartOtaGetc timeoutMs polls with
    | (none, polls) => ([], polls)
    | (some b, polls) =>
      let rest := uartOtaReadPolls timeoutMs n polls
      (b :: rest.1, rest.2)

theorem length_uartOtaReadPolls_le (timeoutMs n : Nat) (polls : Polls) :
    (uartOtaReadPolls timeoutMs n polls).1.length ≤ n := by
  induction n generalizing polls with
  | zero => exact Nat.le_refl 0
  | succ n ih =>
      rw [uartOtaReadPolls]
      rcases uartOtaGetc timeoutMs polls with ⟨_ | b, polls'⟩
      · exact Nat.zero_le _
      · exact Nat.succ_le_succ (ih polls')

/-- The polls of a byte that is received are used up. -/
theorem length_getcLoop_lt {budget : Nat} {polls polls' : Polls} {b : UInt8}
    (h : getcLoop budget polls = (some b, polls')) : polls'.length < polls.length := by
  induction budget generalizing polls with
  | zero => cases h
  | succ budget ih =>
      cases polls with
      | nil => exact absurd (ih h) (Nat.lt_irrefl _ ∘ Nat.lt_of_le_of_lt (Nat.zero_le _))
      | cons poll polls =>
          cases poll with
          | none => exact Nat.lt_succ_of_lt (ih h)
          | some c =>
              cases h
              exact Nat.lt_succ_self _

/-- The resync loop of `read_frame`: whether an SOH came before a timeout. -/
def resyncPolls (polls : Polls) : Bool × Polls :=
  match h : uartOtaGetc otaByteTimeoutMs polls with
  | (none, polls') => (false, polls')
  | (some b, polls') =>
    have : polls'.length < polls.length := length_getcLoop_lt h
    if b = otaFrameSoh then (true, polls') else resyncPolls polls'
  termination_by polls.length

theorem resyncPolls_none {polls polls' : Polls}
    (h : uartOtaGetc otaByteTimeoutMs polls = (none, polls')) :
    resyncPolls polls = (false, polls') := by
  rw [resyncPolls]
  split
  · rename_i heq
    rw [h] at heq
    cases heq
    rfl
  · rename_i heq
    rw [h] at heq
    cases heq

theorem resyncPolls_some {polls polls' : Polls} {b : UInt8}
    (h : uartOtaGetc otaByteTimeoutMs polls = (some b, polls')) :
    resyncPolls polls = if b = otaFrameSoh then (true, polls') else resyncPolls polls' := by
  rw [resyncPolls]
  split
  · rename_i heq
    rw [h] at heq
    cases heq
  · rename_i heq
    rw [h] at heq
    cases heq
    rfl

/-- The end of `read_frame`, once the payload is there. -/
def readCrcPolls (hdr : List UInt8) (frame : OtaFrame) (polls : Polls) : FrameStatus × Polls :=
  let crcBuf := uartOtaReadPolls otaByteTimeoutMs 4 polls
  if crcBuf.1.length ≠ 4 then (.timeout, crcBuf.2)
  else
    let crcRx := le32 (crcBuf.1.getD 0 0) (crcBuf.1.getD 1 0) (crcBuf.1.getD 2 0)
      (crcBuf.1.getD 3 0)
    let crc := crc32Update crc32Init hdr
    let crc := crc32Update crc frame.data
    if crc32Finalize crc ≠ crcRx then (.crcBad, crcBuf.2) else (.ok frame, crcBuf.2)

/-- `read_frame` from the bound on the length on, with the fields of the header. -/
def readPayloadPolls (hdr : List UInt8) (op : UInt8) (seq : UInt16) (len : Nat) (polls : Polls) :
    FrameStatus × Polls :=
  if hlen : len > otaMaxPayload then (.tooBig, polls)
  else
    let data := uartOtaReadPolls otaByteTimeoutMs len polls
    if data.1.length ≠ len then (.timeout, data.2)
    else
      readCrcPolls hdr ⟨op, seq, data.1,
        Nat.le_trans (length_uartOtaReadPolls_le _ _ _) (Nat.le_of_not_lt hlen)⟩ data.2

/-- `read_frame`, from the polls to come. -/
def readFramePolls (polls : Polls) : FrameStatus × Polls :=
  match resyncPolls polls with
  | (false, polls) => (.timeout, polls)
  | (true, polls) =>
    let hdr := uartOtaReadPolls otaByteTimeoutMs 5 polls
    if hdr.1.length ≠ 5 then (.timeout, hdr.2)
    else
      let op := hdr.1.getD 0 0
      let seq := le16 (hdr.1.getD 1 0) (hdr.1.getD 2 0)
      let len := (le16 (hdr.1.getD 3 0) (hdr.1.getD 4 0)).toNat
      readPayloadPolls hdr.1 op seq len hdr.2

/-- What `n` calls of `read_frame` leave. -/
def callsPolls : Nat → Polls → Polls
  | 0, polls => polls
  | n + 1, polls => callsPolls n (readFramePolls polls).2

theorem callsPolls_add (m n : Nat) (polls : Polls) :
    callsPolls (m + n) polls = callsPolls n (callsPolls m polls) := by
  induction m generalizing polls with
  | zero => rw [Nat.zero_add, callsPolls]
  | succ m ih => rw [Nat.succ_add, callsPolls, callsPolls, ih]

/-! ## Frames that are accepted -/

/-- The bytes that come, whenever they do. -/
def received (polls : Polls) : List UInt8 := polls.filterMap id

theorem received_of_getcLoop {budget : Nat} {polls polls' : Polls} {b : UInt8}
    (h : getcLoop budget polls = (some b, polls')) : received polls = b :: received polls' := by
  induction budget generalizing polls with
  | zero => cases h
  | succ budget ih =>
      cases polls with
      | nil => exact ih h
      | cons poll polls =>
          cases poll with
          | none => exact @ih polls h
          | some c =>
              cases h
              rfl

/-- A read that is complete has read the first bytes that come. -/
theorem uartOtaRead_received {timeoutMs n : Nat} {polls : Polls}
    (h : (uartOtaReadPolls timeoutMs n polls).1.length = n) :
    uartOtaRead n (received polls) =
      ((uartOtaReadPolls timeoutMs n polls).1,
        received (uartOtaReadPolls timeoutMs n polls).2) := by
  induction n generalizing polls with
  | zero => rfl
  | succ n ih =>
      rw [uartOtaReadPolls] at h ⊢
      rcases hget : uartOtaGetc timeoutMs polls with ⟨_ | b, polls'⟩
      · rw [hget] at h
        cases h
      · rw [hget] at h
        have hrest := ih (Nat.succ.inj h)
        dsimp only
        rw [received_of_getcLoop hget, uartOtaRead, List.take_succ_cons, List.drop_succ_cons]
        exact congrArg (fun r : List UInt8 × List UInt8 ↦ (b :: r.1, r.2)) hrest

theorem resync_received {polls polls' : Polls} (h : resyncPolls polls = (true, polls')) :
    resync (received polls) = some (received polls') := by
  induction polls using resyncPolls.induct with
  | case1 polls left hget =>
      rw [resyncPolls_none hget] at h
      cases h
  | case2 polls left hget hlt =>
      rw [resyncPolls_some hget, if_pos rfl] at h
      cases h
      rw [received_of_getcLoop hget, resync, if_pos rfl]
  | case3 polls b left hget hlt hb ih =>
      rw [resyncPolls_some hget, if_neg hb] at h
      rw [received_of_getcLoop hget, resync, if_neg hb]
      exact ih h

theorem readCrc_received {hdr : List UInt8} {frame g : OtaFrame} {polls : Polls}
    (h : (readCrcPolls hdr frame polls).1 = .ok g) :
    (readCrc hdr frame (received polls)).1 = .ok g := by
  unfold readCrcPolls at h
  unfold readCrc
  dsimp only at h ⊢
  by_cases hfour : (uartOtaReadPolls otaByteTimeoutMs 4 polls).1.length = 4
  · rw [if_neg (not_not.2 hfour)] at h
    rw [uartOtaRead_received hfour, if_neg (not_not.2 hfour)]
    split at h
    · cases h
    · rename_i hcrc
      rw [if_neg hcrc]
      exact h
  · rw [if_pos hfour] at h
    cases h

theorem readPayload_received {hdr : List UInt8} {op : UInt8} {seq : UInt16} {len : Nat}
    {polls : Polls} {g : OtaFrame} (h : (readPayloadPolls hdr op seq len polls).1 = .ok g) :
    (readPayload hdr op seq len (received polls)).1 = .ok g := by
  unfold readPayloadPolls at h
  unfold readPayload
  by_cases hbig : len > otaMaxPayload
  · rw [dif_pos hbig] at h
    cases h
  rw [dif_neg hbig] at h ⊢
  dsimp only at h ⊢
  by_cases hlen : (uartOtaReadPolls otaByteTimeoutMs len polls).1.length = len
  · rw [if_neg (not_not.2 hlen)] at h
    simp only [uartOtaRead_received hlen, hlen, ne_eq, not_true_eq_false, if_false]
    exact readCrc_received h
  · rw [if_pos hlen] at h
    cases h

/-- A frame that is accepted, whatever the timing, is one the bytes that come hold. -/
theorem readFrame_received {polls : Polls} {g : OtaFrame}
    (h : (readFramePolls polls).1 = .ok g) : (readFrame (received polls)).1 = .ok g := by
  unfold readFramePolls at h
  rcases hsync : resyncPolls polls with ⟨_ | _, left⟩
  · rw [hsync] at h
    cases h
  · rw [hsync] at h
    unfold readFrame
    rw [resync_received hsync]
    dsimp only at h ⊢
    by_cases hfive : (uartOtaReadPolls otaByteTimeoutMs 5 left).1.length = 5
    · rw [if_neg (not_not.2 hfive)] at h
      rw [uartOtaRead_received hfive, if_neg (not_not.2 hfive)]
      exact readPayload_received h
    · rw [if_pos hfive] at h
      cases h

/-! ## Bytes that arrive in time -/

/-- Bytes, each with the empty polls before it. -/
def arrive (arrivals : List (Nat × UInt8)) : Polls :=
  arrivals.flatMap fun arrival ↦ List.replicate arrival.1 none ++ [some arrival.2]

theorem arrive_cons (gap : Nat) (b : UInt8) (arrivals : List (Nat × UInt8)) :
    arrive ((gap, b) :: arrivals) = List.replicate gap none ++ some b :: arrive arrivals := by
  rw [arrive, List.flatMap_cons, List.append_assoc]
  rfl

/-- No byte keeps the receiver waiting until its timeout. -/
def InTime (arrivals : List (Nat × UInt8)) : Prop :=
  ∀ arrival ∈ arrivals, arrival.1 < pollBudget otaByteTimeoutMs

theorem getcLoop_gap {gap budget : Nat} (h : gap < budget) (b : UInt8) (polls : Polls) :
    getcLoop budget (List.replicate gap none ++ some b :: polls) = (some b, polls) := by
  induction gap generalizing budget with
  | zero =>
      obtain ⟨budget, rfl⟩ := Nat.exists_eq_succ_of_ne_zero (Nat.ne_of_gt h)
      rfl
  | succ gap ih =>
      obtain ⟨budget, rfl⟩ := Nat.exists_eq_succ_of_ne_zero (Nat.ne_of_gt (Nat.zero_lt_of_lt h))
      exact ih (Nat.lt_of_succ_lt_succ h)

theorem getcLoop_nil (budget : Nat) : getcLoop budget [] = (none, []) := by
  induction budget with
  | zero => rfl
  | succ budget ih => exact ih

theorem InTime.tail {arrival : Nat × UInt8} {arrivals : List (Nat × UInt8)}
    (h : InTime (arrival :: arrivals)) : InTime arrivals :=
  fun a ha ↦ h a (List.mem_cons_of_mem _ ha)

theorem uartOtaGetc_arrive {gap : Nat} {b : UInt8} {arrivals : List (Nat × UInt8)}
    (h : InTime ((gap, b) :: arrivals)) (rest : Polls) :
    uartOtaGetc otaByteTimeoutMs (arrive ((gap, b) :: arrivals) ++ rest) =
      (some b, arrive arrivals ++ rest) := by
  have hgap : gap < pollBudget otaByteTimeoutMs := h _ (List.mem_cons_self ..)
  rw [arrive_cons, List.append_assoc, List.cons_append]
  exact getcLoop_gap hgap b _

/-- A read of bytes that arrive in time, where there are enough or no more come. -/
theorem uartOtaReadPolls_arrive {n : Nat} {arrivals : List (Nat × UInt8)} {rest : Polls}
    (htime : InTime arrivals) (h : n ≤ arrivals.length ∨ rest = []) :
    uartOtaReadPolls otaByteTimeoutMs n (arrive arrivals ++ rest) =
      ((arrivals.take n).map Prod.snd, arrive (arrivals.drop n) ++ rest) := by
  induction n generalizing arrivals with
  | zero => rfl
  | succ n ih =>
      cases arrivals with
      | nil =>
          rcases h with h | rfl
          · exact absurd h (Nat.not_succ_le_zero n)
          · rw [uartOtaReadPolls, uartOtaGetc]
            simp only [arrive, List.flatMap_nil, List.append_nil, getcLoop_nil, List.take_nil,
              List.map_nil, List.drop_nil]
      | cons arrival arrivals =>
          obtain ⟨gap, b⟩ := arrival
          have hrest := ih htime.tail (h.imp_left Nat.le_of_succ_le_succ)
          rw [uartOtaReadPolls, uartOtaGetc_arrive htime]
          dsimp only
          rw [hrest, List.take_succ_cons, List.map_cons, List.drop_succ_cons]

/-- The outcome over polls is the one over bytes, and what is left arrives in time. -/
structure Matches (rest : Polls) (r : FrameStatus × Polls) (s : FrameStatus × List UInt8) :
    Prop where
  status : r.1 = s.1
  left : ∃ arrivals, InTime arrivals ∧ arrivals.map Prod.snd = s.2 ∧ r.2 = arrive arrivals ++ rest

theorem InTime.drop {arrivals : List (Nat × UInt8)} (h : InTime arrivals) (n : Nat) :
    InTime (arrivals.drop n) := fun a ha ↦ h a (List.mem_of_mem_drop ha)

/-- A read over the bytes that is complete finds enough of them. -/
theorem le_length_of_read {n : Nat} {arrivals : List (Nat × UInt8)}
    (h : (uartOtaRead n (arrivals.map Prod.snd)).1.length = n) : n ≤ arrivals.length := by
  rw [uartOtaRead, List.length_take, List.length_map] at h
  exact Nat.le_trans (Nat.le_of_eq h.symm) (Nat.min_le_right n _)

section InTime

variable {arrivals : List (Nat × UInt8)} {rest : Polls}

/-- One read over polls is the read over bytes. -/
theorem read_arrive (htime : InTime arrivals) {n : Nat}
    (h : (uartOtaRead n (arrivals.map Prod.snd)).1.length = n ∨ rest = []) :
    uartOtaReadPolls otaByteTimeoutMs n (arrive arrivals ++ rest) =
      ((uartOtaRead n (arrivals.map Prod.snd)).1, arrive (arrivals.drop n) ++ rest) := by
  rw [uartOtaReadPolls_arrive htime (h.imp_left le_length_of_read), uartOtaRead, List.map_take]

theorem readCrcPolls_arrive (htime : InTime arrivals) (hdr : List UInt8) (frame : OtaFrame)
    (h : (readCrc hdr frame (arrivals.map Prod.snd)).1 ≠ .timeout ∨ rest = []) :
    Matches rest (readCrcPolls hdr frame (arrive arrivals ++ rest))
      (readCrc hdr frame (arrivals.map Prod.snd)) := by
  have hleft : (uartOtaRead 4 (arrivals.map Prod.snd)).2 = (arrivals.drop 4).map Prod.snd :=
    List.map_drop.symm
  by_cases hfour : (uartOtaRead 4 (arrivals.map Prod.snd)).1.length = 4
  · unfold readCrcPolls readCrc
    rw [read_arrive htime (.inl hfour)]
    dsimp only
    rw [if_neg (not_not.2 hfour), if_neg (not_not.2 hfour)]
    split
    · exact ⟨rfl, arrivals.drop 4, htime.drop 4, hleft.symm, rfl⟩
    · exact ⟨rfl, arrivals.drop 4, htime.drop 4, hleft.symm, rfl⟩
  · have hrest : rest = [] := by
      refine h.resolve_left (not_not.2 ?_)
      unfold readCrc
      dsimp only
      rw [if_pos hfour]
    unfold readCrcPolls readCrc
    rw [read_arrive htime (.inr hrest)]
    dsimp only
    rw [if_pos hfour, if_pos hfour]
    exact ⟨rfl, arrivals.drop 4, htime.drop 4, hleft.symm, rfl⟩

theorem readPayloadPolls_arrive (htime : InTime arrivals) (hdr : List UInt8) (op : UInt8)
    (seq : UInt16) (len : Nat)
    (h : (readPayload hdr op seq len (arrivals.map Prod.snd)).1 ≠ .timeout ∨ rest = []) :
    Matches rest (readPayloadPolls hdr op seq len (arrive arrivals ++ rest))
      (readPayload hdr op seq len (arrivals.map Prod.snd)) := by
  by_cases hbig : len > otaMaxPayload
  · unfold readPayloadPolls readPayload
    rw [dif_pos hbig, dif_pos hbig]
    exact ⟨rfl, arrivals, htime, rfl, rfl⟩
  have hleft : (uartOtaRead len (arrivals.map Prod.snd)).2 = (arrivals.drop len).map Prod.snd :=
    List.map_drop.symm
  unfold readPayload at h ⊢
  unfold readPayloadPolls
  rw [dif_neg hbig] at h ⊢
  rw [dif_neg hbig]
  dsimp only at h ⊢
  by_cases hlen : (uartOtaRead len (arrivals.map Prod.snd)).1.length = len
  · rw [if_neg (not_not.2 hlen)] at h ⊢
    simp only [read_arrive htime (.inl hlen), hlen, ne_eq, not_true_eq_false, if_false]
    simp only [hleft] at h ⊢
    exact readCrcPolls_arrive (htime.drop len) hdr _ h
  · rw [if_pos hlen] at h ⊢
    have hrest : rest = [] := h.resolve_left (not_not.2 rfl)
    simp only [read_arrive htime (.inr hrest), ne_eq, hlen, not_false_eq_true, if_true]
    exact ⟨rfl, arrivals.drop len, htime.drop len, hleft.symm, rfl⟩

/-- The resync loop over polls finds the SOH that the loop over bytes finds. -/
theorem resyncPolls_some_arrive (htime : InTime arrivals) {bs : List UInt8}
    (h : resync (arrivals.map Prod.snd) = some bs) :
    ∃ left, InTime left ∧ left.map Prod.snd = bs ∧
      resyncPolls (arrive arrivals ++ rest) = (true, arrive left ++ rest) := by
  induction arrivals with
  | nil => cases h
  | cons arrival arrivals ih =>
      obtain ⟨gap, b⟩ := arrival
      rw [List.map_cons, resync] at h
      rw [resyncPolls_some (uartOtaGetc_arrive htime rest)]
      by_cases hb : b = otaFrameSoh
      · rw [if_pos hb] at h ⊢
        exact ⟨arrivals, htime.tail, Option.some.inj h, rfl⟩
      · rw [if_neg hb] at h ⊢
        exact ih htime.tail h

/-- Without an SOH it waits until nothing more comes. -/
theorem resyncPolls_none_arrive (htime : InTime arrivals)
    (h : resync (arrivals.map Prod.snd) = none) : resyncPolls (arrive arrivals) = (false, []) := by
  induction arrivals with
  | nil => exact resyncPolls_none (getcLoop_nil _)
  | cons arrival arrivals ih =>
      obtain ⟨gap, b⟩ := arrival
      have hget := uartOtaGetc_arrive htime []
      rw [List.append_nil, List.append_nil] at hget
      rw [List.map_cons, resync] at h
      rw [resyncPolls_some hget]
      by_cases hb : b = otaFrameSoh
      · rw [if_pos hb] at h
        cases h
      · rw [if_neg hb] at h ⊢
        exact ih htime.tail h

/-- **Refinement.**  Where every byte arrives in time, `read_frame` over polls is
`read_frame` over the bytes: to the end of the input where nothing more comes, and in
front of any other polls where the bytes make up a whole frame. -/
theorem readFramePolls_arrive (htime : InTime arrivals)
    (h : (readFrame (arrivals.map Prod.snd)).1 ≠ .timeout ∨ rest = []) :
    Matches rest (readFramePolls (arrive arrivals ++ rest))
      (readFrame (arrivals.map Prod.snd)) := by
  unfold readFrame at h ⊢
  unfold readFramePolls
  cases hsync : resync (arrivals.map Prod.snd) with
  | none =>
      rw [hsync] at h
      have hrest : rest = [] := h.resolve_left (not_not.2 rfl)
      rw [hrest, List.append_nil, resyncPolls_none_arrive htime hsync]
      exact ⟨rfl, [], fun _ ha ↦ absurd ha List.not_mem_nil, rfl, rfl⟩
  | some bs =>
      obtain ⟨left, hleft, rfl, hpolls⟩ := @resyncPolls_some_arrive _ rest htime _ hsync
      rw [hsync] at h
      rw [hpolls]
      dsimp only at h ⊢
      have hdrop : (uartOtaRead 5 (left.map Prod.snd)).2 = (left.drop 5).map Prod.snd :=
        List.map_drop.symm
      by_cases hfive : (uartOtaRead 5 (left.map Prod.snd)).1.length = 5
      · rw [if_neg (not_not.2 hfive), hdrop] at h ⊢
        rw [read_arrive hleft (.inl hfive)]
        dsimp only
        rw [if_neg (not_not.2 hfive)]
        exact readPayloadPolls_arrive (hleft.drop 5) _ _ _ _ h
      · rw [if_pos hfive] at h ⊢
        have hrest : rest = [] := h.resolve_left (not_not.2 rfl)
        rw [read_arrive hleft (.inr hrest)]
        dsimp only
        rw [if_pos hfive]
        exact ⟨rfl, left.drop 5, hleft.drop 5, hdrop.symm, rfl⟩

end InTime

/-- A frame whose bytes arrive in time is read, and nothing behind it. -/
theorem readFramePolls_wire {f : OtaFrame} {arrivals : List (Nat × UInt8)}
    (htime : InTime arrivals) (hwire : arrivals.map Prod.snd = f.wire) (rest : Polls) :
    readFramePolls (arrive arrivals ++ rest) = (.ok f, rest) := by
  have hread : readFrame (arrivals.map Prod.snd) = (.ok f, []) := by
    have h := @readFrame_wire [] List.not_mem_nil f []
    rwa [List.append_nil, List.nil_append, ← hwire] at h
  have h := @readFramePolls_arrive _ rest htime (.inl (by rw [hread]; exact nofun))
  obtain ⟨left, -, hleft, hpolls⟩ := h.left
  rw [hread] at hleft
  rw [List.map_eq_nil_iff.1 hleft] at hpolls
  exact Prod.ext (h.status.trans (congrArg Prod.fst hread)) hpolls

/-! ## Garbage before a silence

What is to come is some garbage, then a silence that outlasts the timeout, then `tail`.
Each call of `read_frame` makes the garbage shorter or ends in the silence: no read
reaches over it into `tail`. -/

section Garbage

variable {k : Nat} {tail : Polls}

/-- At most `n` polls of garbage are left before the silence. -/
def Before (k : Nat) (tail : Polls) (n : Nat) (polls : Polls) : Prop :=
  ∃ garbage : Polls, garbage.length ≤ n ∧ polls = garbage ++ (List.replicate k none ++ tail)

/-- The garbage is consumed, with part of the silence. -/
def Silent (k : Nat) (tail polls : Polls) : Prop :=
  ∃ k' ≤ k, polls = List.replicate k' none ++ tail

/-- Fewer than `n` polls of garbage are left, or none. -/
def Past (k : Nat) (tail : Polls) (n : Nat) (polls : Polls) : Prop :=
  Silent k tail polls ∨ ∃ m < n, Before k tail m polls

theorem Past.mono {m n : Nat} {polls : Polls} (h : Past k tail m polls) (hmn : m ≤ n) :
    Past k tail n polls :=
  h.imp_right fun ⟨i, hi, hbefore⟩ ↦ ⟨i, Nat.lt_of_lt_of_le hi hmn, hbefore⟩

/-- A wait during the silence uses up the whole budget. -/
theorem getcLoop_silent {budget k : Nat} (h : budget ≤ k) (tail : Polls) :
    getcLoop budget (List.replicate k none ++ tail) =
      (none, List.replicate (k - budget) none ++ tail) := by
  induction budget generalizing k with
  | zero => rfl
  | succ budget ih =>
      obtain ⟨k, rfl⟩ := Nat.exists_eq_succ_of_ne_zero (Nat.ne_of_gt (Nat.zero_lt_of_lt h))
      rw [Nat.succ_sub_succ]
      exact ih (Nat.le_of_succ_le_succ h)

/-- A wait that starts in the garbage ends at a byte of it, inside it, or in the silence. -/
theorem getcLoop_garbage {budget : Nat} (hk : budget ≤ k) (garbage : Polls) :
    (∃ b garbage', garbage'.length < garbage.length ∧
      getcLoop budget (garbage ++ (List.replicate k none ++ tail)) =
        (some b, garbage' ++ (List.replicate k none ++ tail))) ∨
    getcLoop budget (garbage ++ (List.replicate k none ++ tail)) =
      (none, garbage.drop budget ++
        (List.replicate (k - (budget - garbage.length)) none ++ tail)) := by
  induction budget generalizing garbage with
  | zero => exact .inr (by rw [getcLoop, List.drop_zero, Nat.zero_sub, Nat.sub_zero])
  | succ budget ih =>
      cases garbage with
      | nil => exact .inr (getcLoop_silent hk tail)
      | cons poll garbage =>
          cases poll with
          | some b => exact .inl ⟨b, garbage, Nat.lt_succ_self _, rfl⟩
          | none =>
              rcases ih (Nat.le_of_succ_le hk) garbage with ⟨b, garbage', hlt, h⟩ | h
              · exact .inl ⟨b, garbage', Nat.lt_succ_of_lt hlt, h⟩
              · refine .inr (h.trans ?_)
                rw [List.length_cons, Nat.succ_sub_succ, List.drop_succ_cons]

variable (hk : pollBudget otaByteTimeoutMs ≤ k)
include hk

theorem uartOtaGetc_before {n : Nat} {polls : Polls} (h : Before k tail n polls) :
    (∃ b polls', uartOtaGetc otaByteTimeoutMs polls = (some b, polls') ∧
      ∃ m < n, Before k tail m polls') ∨
    ∃ polls', uartOtaGetc otaByteTimeoutMs polls = (none, polls') ∧ Past k tail n polls' := by
  obtain ⟨garbage, hn, rfl⟩ := h
  rcases getcLoop_garbage hk garbage with ⟨b, garbage', hlt, h⟩ | h
  · exact .inl ⟨b, _, h, garbage'.length, Nat.lt_of_lt_of_le hlt hn, garbage', Nat.le_refl _, rfl⟩
  refine .inr ⟨_, h, ?_⟩
  by_cases hlt : pollBudget otaByteTimeoutMs < garbage.length
  · refine .inr ⟨(garbage.drop (pollBudget otaByteTimeoutMs)).length, ?_, _, Nat.le_refl _, ?_⟩
    · have hpos := pollBudget_pos otaByteTimeoutMs
      rw [List.length_drop]
      omega
    · rw [Nat.sub_eq_zero_of_le (Nat.le_of_lt hlt), Nat.sub_zero]
  · refine .inl ⟨k - (pollBudget otaByteTimeoutMs - garbage.length), Nat.sub_le _ _, ?_⟩
    rw [List.drop_eq_nil_of_le (Nat.not_lt.1 hlt), List.nil_append]

theorem uartOtaReadPolls_before (n : Nat) {m : Nat} {polls : Polls} (h : Before k tail m polls) :
    ((uartOtaReadPolls otaByteTimeoutMs n polls).1.length = n ∧
      Before k tail m (uartOtaReadPolls otaByteTimeoutMs n polls).2) ∨
    ((uartOtaReadPolls otaByteTimeoutMs n polls).1.length ≠ n ∧
      Past k tail m (uartOtaReadPolls otaByteTimeoutMs n polls).2) := by
  induction n generalizing m polls with
  | zero => exact .inl ⟨rfl, h⟩
  | succ n ih =>
      rw [uartOtaReadPolls]
      rcases uartOtaGetc_before hk h with ⟨b, polls', hget, i, hi, hbefore⟩ | ⟨polls', hget, hpast⟩
      · rw [hget]
        dsimp only
        obtain ⟨garbage, hlen, heq⟩ := hbefore
        rcases ih ⟨garbage, Nat.le_trans hlen (Nat.le_of_lt hi), heq⟩ with ⟨hn, h⟩ | ⟨hn, h⟩
        · exact .inl ⟨congrArg Nat.succ hn, h⟩
        · exact .inr ⟨fun hsucc ↦ hn (Nat.succ.inj hsucc), h⟩
      · rw [hget]
        exact .inr ⟨(Nat.succ_ne_zero n).symm, hpast⟩

theorem resyncPolls_before {n : Nat} {polls : Polls} (h : Before k tail n polls) :
    (∃ polls', resyncPolls polls = (true, polls') ∧ ∃ m < n, Before k tail m polls') ∨
    ∃ polls', resyncPolls polls = (false, polls') ∧ Past k tail n polls' := by
  induction n using Nat.strongRecOn generalizing polls with
  | ind n ih =>
      rcases uartOtaGetc_before hk h with ⟨b, polls', hget, m, hm, hbefore⟩ | ⟨polls', hget, hpast⟩
      · rw [resyncPolls_some hget]
        by_cases hb : b = otaFrameSoh
        · exact .inl ⟨polls', if_pos hb, m, hm, hbefore⟩
        · rw [if_neg hb]
          rcases ih m hm hbefore with ⟨left, hsync, i, hi, h⟩ | ⟨left, hsync, h⟩
          · exact .inl ⟨left, hsync, i, Nat.lt_trans hi hm, h⟩
          · exact .inr ⟨left, hsync, h.mono (Nat.le_of_lt hm)⟩
      · exact .inr ⟨polls', resyncPolls_none hget, hpast⟩

theorem readCrcPolls_before (hdr : List UInt8) (frame : OtaFrame) {m : Nat} {polls : Polls}
    (h : Before k tail m polls) : Past k tail (m + 1) (readCrcPolls hdr frame polls).2 := by
  unfold readCrcPolls
  dsimp only
  rcases uartOtaReadPolls_before hk 4 h with ⟨hlen, hread⟩ | ⟨hlen, hread⟩
  · rw [if_neg (not_not.2 hlen)]
    split
    · exact .inr ⟨m, Nat.lt_succ_self m, hread⟩
    · exact .inr ⟨m, Nat.lt_succ_self m, hread⟩
  · rw [if_pos hlen]
    exact hread.mono (Nat.le_succ m)

theorem readPayloadPolls_before (hdr : List UInt8) (op : UInt8) (seq : UInt16) (len : Nat)
    {m : Nat} {polls : Polls} (h : Before k tail m polls) :
    Past k tail (m + 1) (readPayloadPolls hdr op seq len polls).2 := by
  unfold readPayloadPolls
  split
  · exact .inr ⟨m, Nat.lt_succ_self m, h⟩
  dsimp only
  rcases uartOtaReadPolls_before hk len h with ⟨hlen, hread⟩ | ⟨hlen, hread⟩
  · rw [if_neg (not_not.2 hlen)]
    exact readCrcPolls_before hk hdr _ hread
  · rw [if_pos hlen]
    exact hread.mono (Nat.le_succ m)

/-- One call of `read_frame` makes the garbage shorter or ends in the silence. -/
theorem readFramePolls_before {n : Nat} {polls : Polls} (h : Before k tail n polls) :
    Past k tail n (readFramePolls polls).2 := by
  unfold readFramePolls
  rcases resyncPolls_before hk h with ⟨polls', hsync, m, hm, hbefore⟩ | ⟨polls', hsync, hpast⟩
  · rw [hsync]
    dsimp only
    rcases uartOtaReadPolls_before hk 5 hbefore with ⟨hlen, hread⟩ | ⟨hlen, hread⟩
    · rw [if_neg (not_not.2 hlen)]
      exact (readPayloadPolls_before hk _ _ _ _ hread).mono hm
    · rw [if_pos hlen]
      exact hread.mono (Nat.le_of_lt hm)
  · rw [hsync]
    exact hpast

/-- After some calls the garbage is consumed. -/
theorem callsPolls_before {n : Nat} {polls : Polls} (h : Before k tail n polls) :
    ∃ calls, Silent k tail (callsPolls calls polls) := by
  induction n using Nat.strongRecOn generalizing polls with
  | ind n ih =>
      rcases readFramePolls_before hk h with hsilent | ⟨m, hm, hbefore⟩
      · exact ⟨1, hsilent⟩
      · obtain ⟨calls, hsilent⟩ := ih m hm hbefore
        exact ⟨calls + 1, hsilent⟩

end Garbage

/-- During the silence `read_frame` times out until less than one timeout of it is left. -/
theorem callsPolls_silent (k : Nat) (tail : Polls) :
    ∃ calls, ∃ k' ≤ k, k' < pollBudget otaByteTimeoutMs ∧
      callsPolls calls (List.replicate k none ++ tail) = List.replicate k' none ++ tail := by
  induction k using Nat.strongRecOn with
  | ind k ih =>
      by_cases hk : k < pollBudget otaByteTimeoutMs
      · exact ⟨0, k, Nat.le_refl k, hk, rfl⟩
      have hle := Nat.not_lt.1 hk
      have hpos := pollBudget_pos otaByteTimeoutMs
      obtain ⟨calls, k', hk', hlt, hcalls⟩ := ih (k - pollBudget otaByteTimeoutMs)
        (Nat.sub_lt (Nat.lt_of_lt_of_le hpos hle) hpos)
      refine ⟨calls + 1, k', Nat.le_trans hk' (Nat.sub_le _ _), hlt, ?_⟩
      have hread : (readFramePolls (List.replicate k none ++ tail)).2 =
          List.replicate (k - pollBudget otaByteTimeoutMs) none ++ tail := by
        rw [readFramePolls, resyncPolls_none (getcLoop_silent hle tail)]
      rw [callsPolls, hread, hcalls]

/-- **Self-synchronisation.**  After any bytes whatsoever and a silence that outlasts the
timeout, the calls of `read_frame` consume what came before the frame and nothing of the
frame itself, and then return it. -/
theorem frame_after_garbage (garbage rest : Polls) {k : Nat}
    (hk : otaByteTimeoutMs * pollsPerMs < k) {f : OtaFrame} {arrivals : List (Nat × UInt8)}
    (hwire : otaFrameSoh :: arrivals.map Prod.snd = f.wire) (htime : InTime arrivals) :
    ∃ calls, ∃ k' ≤ k,
      callsPolls calls (garbage ++ (arrive ((k, otaFrameSoh) :: arrivals) ++ rest)) =
        arrive ((k', otaFrameSoh) :: arrivals) ++ rest ∧
      readFramePolls (arrive ((k', otaFrameSoh) :: arrivals) ++ rest) = (.ok f, rest) := by
  have htail : ∀ i, arrive ((i, otaFrameSoh) :: arrivals) ++ rest =
      List.replicate i none ++ (some otaFrameSoh :: arrive arrivals ++ rest) := fun i ↦ by
    rw [arrive_cons, List.append_assoc]
  obtain ⟨before, k₁, hk₁, hsilent⟩ := callsPolls_before (pollBudget_le hk)
    ⟨garbage, Nat.le_refl _, congrArg (garbage ++ ·) (htail k)⟩
  obtain ⟨waits, k', hk', hlt, hwait⟩ :=
    callsPolls_silent k₁ (some otaFrameSoh :: arrive arrivals ++ rest)
  refine ⟨before + waits, k', Nat.le_trans hk' hk₁, ?_, ?_⟩
  · rw [callsPolls_add, hsilent, hwait, htail]
  · have htimes : InTime ((k', otaFrameSoh) :: arrivals) := List.forall_mem_cons.2 ⟨hlt, htime⟩
    exact readFramePolls_wire htimes hwire rest

/-- The bytes of a frame, sent without a pause. -/
def backToBack (bytes : List UInt8) : List (Nat × UInt8) := bytes.map fun b ↦ (0, b)

/-- Behind a header that announces 1024 bytes of payload. -/
theorem frame_after_false_length :
    ∃ calls, ∃ k' ≤ 800001,
      callsPolls calls ([some 0x01, some 0x22, none, some 0x07, some 0x00, some 0x00, some 0x04] ++
          (arrive ((800001, otaFrameSoh) :: backToBack sampleFrame.wire.tail) ++ [])) =
        arrive ((k', otaFrameSoh) :: backToBack sampleFrame.wire.tail) ++ [] ∧
      readFramePolls (arrive ((k', otaFrameSoh) :: backToBack sampleFrame.wire.tail) ++ []) =
        (.ok sampleFrame, []) := by
  refine frame_after_garbage _ [] (by decide) ?_ ?_
  · rw [backToBack, List.map_map, OtaFrame.wire_eq]
    exact congrArg _ (List.map_id _)
  · intro arrival harrival
    obtain ⟨b, -, rfl⟩ := List.mem_map.1 harrival
    exact pollBudget_pos _

end DualBank
