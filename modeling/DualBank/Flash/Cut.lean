import DualBank.Flash.Hardware

/-!
# Power cuts and flash faults

What the hardware backend leaves behind when the supply fails or the controller
reports an error.  Whatever happens, a program operation has stored a prefix of its
data, and it reports success only when that is all of it or the supply is gone.
-/

namespace DualBank

open Lib

namespace Hw

/-- The supply is gone: nothing changes the flash any more. -/
def Dead (s : Hw) : Prop := s.power = some 0

/-- The same flash and supply. -/
def Same (s s' : Hw) : Prop := s.mem = s'.mem ∧ s.power = s'.power

theorem Same.symm {s s' : Hw} (h : Same s s') : Same s' s := ⟨h.1.symm, h.2.symm⟩

theorem Same.trans {s₁ s₂ s₃ : Hw} (h : Same s₁ s₂) (h' : Same s₂ s₃) : Same s₁ s₃ :=
  ⟨h.1.trans h'.1, h.2.trans h'.2⟩

theorem same_modifyCr (f : FlashCr → FlashCr) (s : Hw) : Same s (s.modifyCr f) := ⟨rfl, rfl⟩

theorem same_flashLock (s : Hw) : Same s s.flashLock := ⟨rfl, rfl⟩

theorem same_writeKeys (s : Hw) : Same s s.writeKeys := ⟨rfl, rfl⟩

theorem same_waitBusy (s : Hw) : Same s s.waitBusy.2 := by
  unfold waitBusy
  split <;> exact ⟨rfl, rfl⟩

theorem same_finishWord (addr : Nat) (value : UInt32) (w : FlashStatus × Hw) :
    Same w.2 (finishWord addr value w).2 := by
  unfold finishWord
  dsimp only
  split_ifs <;> exact ⟨rfl, rfl⟩

theorem same_finishErase (i : Nat) (w : FlashStatus × Hw) : Same w.2 (finishErase i w).2 := by
  unfold finishErase
  dsimp only
  split_ifs <;> exact ⟨rfl, rfl⟩

/-! ## Programming -/

/-- The operation that took `s` to `r` has programmed a prefix of `data`; success
means all of it, unless the supply is gone. -/
def Programs (addr : Nat) (data : List UInt8) (s : Hw) (r : FlashStatus × Hw) : Prop :=
  ∃ k ≤ data.length, r.2.mem = s.mem.program addr (data.take k) ∧
    (r.1 = .ok → k = data.length ∨ r.2.Dead) ∧ (s.Dead → k = 0 ∧ r.2.Dead)

theorem Programs.congr {addr : Nat} {data : List UInt8} {s s' : Hw} {r r' : FlashStatus × Hw}
    (h : Programs addr data s r) (hs : Same s' s) (hr : Same r.2 r'.2)
    (hok : r'.1 = .ok → r.1 = .ok) : Programs addr data s' r' := by
  obtain ⟨k, hk, hm, ho, hd⟩ := h
  refine ⟨k, hk, by rw [← hr.1, hm, hs.1], fun h ↦ ?_, fun h ↦ ?_⟩
  · exact (ho (hok h)).imp_right fun hdead ↦ hr.2.symm.trans hdead
  · exact (hd (hs.2.symm.trans h)).imp_right fun hdead ↦ hr.2.symm.trans hdead

/-- An operation that fails without a store. -/
theorem Programs.refused {s : Hw} {r : FlashStatus × Hw} (h : r.1 ≠ .ok) (hs : Same s r.2)
    (addr : Nat) (data : List UInt8) : Programs addr data s r :=
  ⟨0, Nat.zero_le _, hs.1.symm, fun ho ↦ absurd ho h, fun hd ↦ ⟨rfl, hs.2.symm.trans hd⟩⟩

/-- An operation that fails leaves a prefix of any longer data. -/
theorem Programs.stopped {addr : Nat} {data : List UInt8} {s : Hw} {r : FlashStatus × Hw}
    (h : Programs addr data s r) (hne : r.1 ≠ .ok) (data' : List UInt8) :
    Programs addr (data ++ data') s r := by
  obtain ⟨k, hk, hm, -, hd⟩ := h
  refine ⟨k, by rw [List.length_append]; omega, ?_, fun ho ↦ absurd ho hne, hd⟩
  rw [List.take_append_of_le_length hk]
  exact hm

/-- Two operations in a row. -/
theorem Programs.append {addr : Nat} {data data' : List UInt8} {s : Hw}
    {r r' : FlashStatus × Hw} (h : Programs addr data s r) (hok : r.1 = .ok)
    (h' : Programs (addr + data.length) data' r.2 r') : Programs addr (data ++ data') s r' := by
  obtain ⟨k, hk, hm, ho, hd⟩ := h
  obtain ⟨k', hk', hm', ho', hd'⟩ := h'
  rcases ho hok with rfl | hdead
  · refine ⟨data.length + k', by rw [List.length_append]; omega, ?_, fun h ↦ ?_, fun h ↦ ?_⟩
    · rw [List.take_length_add_append, Mem.program_append, hm', hm, List.take_length]
    · rw [List.length_append]
      exact (ho' h).imp_left fun e ↦ by rw [e]
    · obtain ⟨h0, hr⟩ := hd h
      obtain ⟨h0', hr'⟩ := hd' hr
      exact ⟨by omega, hr'⟩
  · -- the supply went in the first one, so the second one stores nothing
    obtain ⟨rfl, hr'⟩ := hd' hdead
    refine ⟨k, by rw [List.length_append]; omega, ?_, fun _ ↦ .inr hr', fun h ↦ ⟨(hd h).1, hr'⟩⟩
    rw [List.take_append_of_le_length hk, hm', List.take_zero, Mem.program, hm]

theorem storeByte_programs (addr : Nat) (b : UInt8) (s : Hw) (st : FlashStatus) :
    Programs addr [b] s (st, s.storeByte addr b) := by
  unfold storeByte pulse
  split
  · rename_i hp
    refine ⟨1, Nat.le_refl 1, rfl, fun _ ↦ .inl rfl, fun hd ↦ ?_⟩
    rw [Dead, hp] at hd
    cases hd
  · rename_i hp
    exact ⟨0, by simp, rfl, fun _ ↦ .inr hp, fun _ ↦ ⟨rfl, hp⟩⟩
  · rename_i n hp
    refine ⟨1, Nat.le_refl 1, rfl, fun _ ↦ .inl rfl, fun hd ↦ ?_⟩
    rw [Dead, hp] at hd
    cases hd

theorem storeBytes_programs (addr : Nat) (bs : List UInt8) (s : Hw) :
    Programs addr bs s (.ok, s.storeBytes addr bs) := by
  induction bs generalizing addr s with
  | nil => exact ⟨0, Nat.le_refl 0, rfl, fun _ ↦ .inl rfl, fun hd ↦ ⟨rfl, hd⟩⟩
  | cons b bs ih => exact (storeByte_programs addr b s .ok).append rfl (ih (addr + 1) _)

theorem flashProgramWord_programs (addr : Nat) (value : UInt32) (s : Hw) :
    Programs addr (bytes32 value) s (flashProgramWord addr value s) := by
  rw [flashProgramWord_eq]
  split_ifs with h₁ h₂
  · exact .refused (by simp) ⟨rfl, rfl⟩ _ _
  · have hw : Same s (s.waitBusy.2.writeKeys.modifyCr fun cr ↦
        { cr with ser := false, pg := true, psize := cr.psize ||| psizeX32 }) := same_waitBusy s
    exact (storeBytes_programs addr (bytes32 value) _).congr hw
      ((same_waitBusy _).trans (same_finishWord addr value _)) fun _ ↦ rfl
  · exact .refused h₂ (same_waitBusy s) _ _

theorem programTail_programs (addr : Nat) (bs : List UInt8) (s : Hw) :
    Programs addr bs s (programTail addr bs s) := by
  induction bs generalizing addr s with
  | nil => exact ⟨0, Nat.le_refl 0, rfl, fun _ ↦ .inl rfl, fun hd ↦ ⟨rfl, hd⟩⟩
  | cons b bs ih =>
      -- one byte store and the busy wait after it
      have hone : ∀ st, Programs addr [b] s
          (st, afterByte (startByte addr b s.waitBusy.2).waitBusy) := fun st ↦
        (storeByte_programs addr b (s.waitBusy.2.modifyCr fun cr ↦
          { cr with ser := false, pg := true }) st).congr (same_waitBusy s)
          ((same_waitBusy _).trans (same_modifyCr _ _)) fun h ↦ h
      rw [programTail_cons]
      dsimp only
      split_ifs with h₁ h₂ h₃
      · exact ((hone _).stopped h₂ bs).congr ⟨rfl, rfl⟩ (same_flashLock _) fun h ↦ h
      · exact ((hone .errVerify).stopped (by simp) bs).congr ⟨rfl, rfl⟩
          (same_flashLock _) fun h ↦ h
      · exact (hone .ok).append rfl (ih (addr + 1) _)
      · exact .refused h₁ ((same_waitBusy s).trans (same_flashLock _)) _ _

theorem programWords_programs (addr : Nat) (bs : List UInt8) (s : Hw) :
    Programs addr bs s (programWords addr bs s) := by
  match bs with
  | b₀ :: b₁ :: b₂ :: b₃ :: bs =>
      have hw := flashProgramWord_programs addr (le32 b₀ b₁ b₂ b₃) s
      rw [bytes32_le32] at hw
      rw [programWords_cons]
      dsimp only
      split_ifs with h₁ h₂
      · exact hw.append h₂ (programWords_programs (addr + 4) bs _)
      · exact (hw.stopped h₂ bs).congr ⟨rfl, rfl⟩ (same_flashLock _) fun h ↦ h
      · exact programTail_programs addr _ s
  | [] => exact programTail_programs addr _ s
  | [_] => exact programTail_programs addr _ s
  | [_, _] => exact programTail_programs addr _ s
  | [_, _, _] => exact programTail_programs addr _ s

/-- Whatever the controller reports and whenever the supply fails, a prefix of the
data is programmed. -/
theorem flashProgramBytes_programs (addr : Nat) (data : List UInt8) (s : Hw) :
    Programs addr data s (flashProgramBytes addr data s) := by
  rw [flashProgramBytes_eq]
  exact (programWords_programs addr data s.writeKeys).congr (same_writeKeys s) ⟨rfl, rfl⟩ fun h ↦ h

/-- What has been stored and is read back only had to clear bits. -/
theorem Programs.clears {addr : Nat} {data : List UInt8} {s : Hw} {r : FlashStatus × Hw}
    (h : Programs addr data s r) (hok : r.1 = .ok) (hr : r.2.Healthy)
    (hread : r.2.mem.read addr data.length = data) : s.mem.Clears addr data := by
  obtain ⟨k, -, hm, ho, -⟩ := h
  rcases ho hok with rfl | hdead
  · rw [Mem.clears_iff_read_program]
    rwa [hm, List.take_length] at hread
  · rw [Dead, hr.2] at hdead
    cases hdead

/-- Without faults, bytes are stored when they only clear bits, and not otherwise. -/
theorem flashProgramBytes_ok_iff {addr : Nat} {data : List UInt8} {s : Hw} (h : s.Healthy) :
    (flashProgramBytes addr data s).1 = .ok ↔ s.mem.Clears addr data := by
  constructor
  · intro hok
    exact (flashProgramBytes_programs addr data s).clears hok
      (flashProgramBytes_of_healthy h).1 (flashProgramBytes_read hok)
  · exact (flashProgramBytes_of_healthy h).2

/-- Without faults, an aligned word is stored when it only clears bits, and not
otherwise. -/
theorem flashProgramWord_ok_iff {addr : Nat} {value : UInt32} {s : Hw} (h : s.Healthy)
    (ha : addr % 4 = 0) :
    (flashProgramWord addr value s).1 = .ok ↔ s.mem.Clears addr (bytes32 value) := by
  constructor
  · intro hok
    exact (flashProgramWord_programs addr value s).clears hok
      (h.flashProgramWord addr value) (flashProgramWord_read hok)
  · exact flashProgramWord_of_healthy value h ha

/-! ## Sector erase -/

/-- A sector erase has erased the whole sector or nothing, and success means erased. -/
theorem flashEraseSector_cases {i : Nat} (hi : i < 12) (s : Hw) :
    ((flashEraseSector (kSectorStart i) s).2.mem = s.mem ∨
        (flashEraseSector (kSectorStart i) s).2.mem =
          s.mem.fill (kSectorStart i) (kSectorStart i + kSectorSize i) 0xFF) ∧
      ((flashEraseSector (kSectorStart i) s).1 = .ok →
        ∀ x, kSectorStart i ≤ x → x < kSectorStart i + kSectorSize i →
          (flashEraseSector (kSectorStart i) s).2.mem x = 0xFF) := by
  rw [flashEraseSector_eq hi]
  split_ifs with h
  · refine ⟨?_, fun hok ↦ ?_⟩
    · have hs : (startErase i s.waitBusy.2).mem = s.mem ∨ (startErase i s.waitBusy.2).mem =
          s.mem.fill (kSectorStart i) (kSectorStart i + kSectorSize i) 0xFF := by
        rw [← waitBusy_mem s]
        unfold startErase pulse
        split
        · exact .inr rfl
        · exact .inl rfl
        · exact .inr rfl
      rw [finishErase_mem, waitBusy_mem]
      exact hs
    · unfold finishErase at hok ⊢
      dsimp only at hok ⊢
      split_ifs at hok ⊢ with h₁ h₂
      · exact isErased_iff.1 h₂
      · exact absurd hok h₁
  · exact ⟨.inl (waitBusy_mem s), fun hok ↦ absurd hok h⟩

/-- An erased byte stays erased in a range erase, whatever becomes of it. -/
theorem flashEraseRange_erased {addr size x : Nat} {s : Hw} (h : s.mem x = 0xFF) :
    (flashEraseRange addr size s).2.mem x = 0xFF :=
  eraseRangeWith_inv flashEraseSector_refuses (I := fun t ↦ t.mem x = 0xFF)
    (fun i hi _ _ t ht ↦ by
      rcases (flashEraseSector_cases hi t).1 with hm | hm
      · rw [hm]; exact ht
      · rw [hm]
        by_cases hx : x < kSectorStart i ∨ kSectorStart i + kSectorSize i ≤ x
        · rw [Mem.fill_of_notMem _ _ hx]; exact ht
        · exact Mem.fill_of_mem _ _ (by omega) (by omega)) h

theorem pulse_of_dead {s : Hw} (h : s.Dead) (f : Mem → Mem) : s.pulse f = s := by
  unfold pulse
  rw [h]

/-- Once the supply is gone an erase changes nothing. -/
theorem flashEraseSector_of_dead {i : Nat} (hi : i < 12) {s : Hw} (h : s.Dead) :
    Same s (flashEraseSector (kSectorStart i) s).2 := by
  rw [flashEraseSector_eq hi]
  split_ifs
  · have hd : (s.waitBusy.2.writeKeys.modifyCr fun cr ↦
        { cr with pg := false, ser := true, snb := i, psize := cr.psize ||| psizeX32 }).Dead :=
      (same_waitBusy s).2.symm.trans h
    have hs : Same s (startErase i s.waitBusy.2) := by
      rw [startErase, pulse_of_dead hd]
      exact same_waitBusy s
    exact (hs.trans (same_waitBusy _)).trans (same_finishErase _ _)
  · exact same_waitBusy s

/-- A supply of one step lasts for the erase of one sector. -/
theorem flashEraseSector_of_one {i : Nat} (hi : i < 12) {s : Hw} (hb : s.busy = [])
    (h : s.power = some 1) :
    (flashEraseSector (kSectorStart i) s).1 = .ok ∧
      (flashEraseSector (kSectorStart i) s).2.Dead := by
  have hw : ∀ t : Hw, t.busy = [] → t.waitBusy = (.ok, t) := fun t ht ↦ by
    unfold waitBusy; rw [ht]
  have hs : startErase i s = { s.writeKeys.modifyCr fun cr ↦
      { cr with pg := false, ser := true, snb := i, psize := cr.psize ||| psizeX32 } with
        mem := s.mem.fill (kSectorStart i) (kSectorStart i + kSectorSize i) 0xFF
        power := some 0 } := by
    have hp : (s.writeKeys.modifyCr fun cr ↦
      { cr with pg := false, ser := true, snb := i, psize := cr.psize ||| psizeX32 }).power =
        some 1 := h
    unfold startErase pulse
    rw [hp]
    rfl
  rw [flashEraseSector_eq hi, hw s hb, if_pos rfl, hw _ (by rw [hs]; exact hb), hs, finishErase,
    if_pos rfl, if_pos]
  · exact ⟨rfl, rfl⟩
  · exact isErased_iff.2 fun x h₁ h₂ ↦ Mem.fill_of_mem _ _ h₁ h₂

/-! ## Reported faults -/

/-- The status of a busy wait that ends in `o`. -/
def statusOf : BusyOutcome → FlashStatus
  | .idle => .ok
  | .error => .errProg
  | .timeout => .errBusy

theorem waitBusy_cons (m : Mem) (cr : FlashCr) (o : BusyOutcome) (rest : List BusyOutcome)
    (power : Option Nat) :
    waitBusy ⟨m, cr, o :: rest, power⟩ = (statusOf o, ⟨m, cr, rest, power⟩) := by
  cases o <;> rfl

/-- A sector erase whose second busy wait ends in `o`: the sector is erased, and the
status is that of the wait. -/
theorem flashEraseSector_reported {i : Nat} (hi : i < 12) (m : Mem) (cr : FlashCr)
    (o : BusyOutcome) (rest : List BusyOutcome) :
    ∃ cr', flashEraseSector (kSectorStart i) ⟨m, cr, .idle :: o :: rest, none⟩ =
      (statusOf o,
        ⟨m.fill (kSectorStart i) (kSectorStart i + kSectorSize i) 0xFF, cr', rest, none⟩) := by
  obtain ⟨cr₁, hstart⟩ : ∃ cr₁, startErase i ⟨m, cr, o :: rest, none⟩ =
      ⟨m.fill (kSectorStart i) (kSectorStart i + kSectorSize i) 0xFF, cr₁, o :: rest, none⟩ :=
    ⟨_, rfl⟩
  have herased : isErased (m.fill (kSectorStart i) (kSectorStart i + kSectorSize i) 0xFF)
      (kSectorStart i) (kSectorSize i) = true :=
    isErased_iff.2 fun x h₁ h₂ ↦ Mem.fill_of_mem _ _ h₁ h₂
  refine ⟨{ cr₁ with ser := false, snb := 0 }, ?_⟩
  have hidle : statusOf .idle = .ok := rfl
  rw [flashEraseSector_eq hi, waitBusy_cons, if_pos hidle, hstart, waitBusy_cons]
  unfold finishErase
  dsimp only [modifyCr]
  cases o with
  | idle => rw [if_pos hidle, if_pos herased]; rfl
  | error => rw [if_neg (by decide)]
  | timeout => rw [if_neg (by decide)]

/-- A word programmed over erased bytes, with two busy waits that end idle. -/
theorem flashProgramBytes_reported (m : Mem) (cr : FlashCr) {addr : Nat} (value : UInt32)
    (rest : List BusyOutcome) (ha : addr % 4 = 0) (hc : m.Clears addr (bytes32 value)) :
    ∃ cr', flashProgramBytes addr (bytes32 value) ⟨m, cr, .idle :: .idle :: rest, none⟩ =
      (.ok, ⟨m.program addr (bytes32 value), cr', rest, none⟩) := by
  obtain ⟨cr₁, hstart⟩ : ∃ cr₁,
      startWord addr value ⟨m, { cr with lock := false }, .idle :: rest, none⟩ =
        ⟨m.program addr (bytes32 value), cr₁, .idle :: rest, none⟩ :=
    ⟨_, storeBytes_of_powered rfl⟩
  have hidle : statusOf .idle = .ok := rfl
  have hread : (m.program addr (bytes32 value)).read addr 4 = bytes32 value :=
    Mem.clears_iff_read_program.1 hc
  have hword : flashProgramWord addr value
      ⟨m, { cr with lock := false }, .idle :: .idle :: rest, none⟩ =
        (.ok, ⟨m.program addr (bytes32 value), { cr₁ with pg := false }, rest, none⟩) := by
    rw [flashProgramWord_eq, if_neg (not_not.mpr ha), waitBusy_cons, if_pos hidle, hstart,
      waitBusy_cons, finishWord, if_neg]
    · rfl
    · exact fun h ↦ h.2 hread
  have hkeys : writeKeys ⟨m, cr, .idle :: .idle :: rest, none⟩ =
      ⟨m, { cr with lock := false }, .idle :: .idle :: rest, none⟩ := rfl
  refine ⟨{ cr₁ with pg := false, lock := true }, ?_⟩
  rw [flashProgramBytes_eq, hkeys]
  obtain ⟨b₀, b₁, b₂, b₃, hbytes, hle⟩ : ∃ b₀ b₁ b₂ b₃, bytes32 value = [b₀, b₁, b₂, b₃] ∧
      le32 b₀ b₁ b₂ b₃ = value := ⟨_, _, _, _, rfl, le32_bytes value⟩
  rw [hbytes, programWords_cons, if_pos ha, hle, hword]
  rw [hbytes]
  rfl

end Hw

end DualBank
