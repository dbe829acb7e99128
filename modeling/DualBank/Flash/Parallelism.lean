import DualBank.Flash.Agreement

/-!
# Programming parallelism

The controller takes a store of 8 or 32 bits only with `PSIZE` set for that width.  The
driver ors `PSIZE_X32` into the register before an erase and before a word store, and leaves
the field alone before a byte store; so the width of a byte store is whatever the field
came to be.

Here the programming functions also report the stores they issue, each with the control
register of that moment.
-/

namespace DualBank

open Lib

namespace Hw

/-! ## Stores -/

inductive StoreWidth where
  | x8
  | x32
deriving DecidableEq

/-- The value of `PSIZE` for a width. -/
def StoreWidth.psize : StoreWidth → BitVec 2
  | x8 => 0
  | x32 => psizeX32

/-- A store to the flash, and `FLASH_CR` when it is issued. -/
structure FlashStore where
  addr : Nat
  width : StoreWidth
  cr : FlashCr

/-- What the controller requires of a store. -/
def FlashStore.Accepted (x : FlashStore) : Prop :=
  x.cr.pg = true ∧ x.cr.ser = false ∧ x.cr.psize = x.width.psize

/-- A store of a width, set up for programming, with `PSIZE` at `p`. -/
structure FlashStore.Of (w : StoreWidth) (p : BitVec 2) (x : FlashStore) : Prop where
  width : x.width = w
  pg : x.cr.pg = true
  ser : x.cr.ser = false
  psize : x.cr.psize = p

theorem FlashStore.Of.accepted_iff {w : StoreWidth} {p : BitVec 2} {x : FlashStore}
    (h : x.Of w p) : x.Accepted ↔ p = w.psize := by
  rw [Accepted, h.pg, h.ser, h.psize, h.width]
  exact ⟨fun h ↦ h.2.2, fun h ↦ ⟨rfl, rfl, h⟩⟩

/-! ## The driver with its stores -/

/-- The outcome of a call, and the stores it issued. -/
abbrev Traced := (FlashStatus × Hw) × List FlashStore

def flashProgramWordTraced (addr : Nat) (value : UInt32) (s : Hw) : Traced :=
  if addr % 4 ≠ 0 then ((.errRange, s), [])
  else match s.waitBusy with
    | (.ok, s) =>
      match s.flashUnlock with
      | (.ok, s) =>
        let s := s.modifyCr fun cr ↦
          { cr with ser := false, pg := true, psize := cr.psize ||| psizeX32 }
        let store : FlashStore := ⟨addr, .x32, s.cr⟩
        let s := s.storeBytes addr (bytes32 value)
        let (st, s) := s.waitBusy
        let s := s.modifyCr fun cr ↦ { cr with pg := false }
        (if st = .ok ∧ s.mem.read addr 4 ≠ bytes32 value then (.errVerify, s) else (st, s),
          [store])
      | r => (r, [])
    | r => (r, [])

def programTailTraced (addr : Nat) : List UInt8 → Hw → Traced
  | [], s => ((.ok, s.flashLock), [])
  | b :: bs, s =>
    match s.waitBusy with
    | (.ok, s) =>
      let s := s.modifyCr fun cr ↦ { cr with ser := false, pg := true }
      let store : FlashStore := ⟨addr, .x8, s.cr⟩
      let s := s.storeByte addr b
      let (st, s) := s.waitBusy
      let s := s.modifyCr fun cr ↦ { cr with pg := false }
      if st ≠ .ok then ((st, s.flashLock), [store])
      else if s.mem addr ≠ b then ((.errVerify, s.flashLock), [store])
      else
        let r := programTailTraced (addr + 1) bs s
        (r.1, store :: r.2)
    | (st, s) => ((st, s.flashLock), [])

def programWordsTraced (addr : Nat) : List UInt8 → Hw → Traced
  | b₀ :: b₁ :: b₂ :: b₃ :: bs, s =>
    if addr % 4 = 0 then
      match flashProgramWordTraced addr (le32 b₀ b₁ b₂ b₃) s with
      | ((.ok, s), stores) =>
        let r := programWordsTraced (addr + 4) bs s
        (r.1, stores ++ r.2)
      | ((st, s), stores) => ((st, s.flashLock), stores)
    else programTailTraced addr (b₀ :: b₁ :: b₂ :: b₃ :: bs) s
  | bs, s => programTailTraced addr bs s

def flashProgramBytesTraced (addr : Nat) (data : List UInt8) (s : Hw) : Traced :=
  match s.flashUnlock with
  | (.ok, s) => programWordsTraced addr data s
  | r => (r, [])

/-! ## The control register -/

@[simp] theorem writeKeys_psize (s : Hw) : s.writeKeys.cr.psize = s.cr.psize := rfl

@[simp] theorem startByte_psize (addr : Nat) (b : UInt8) (s : Hw) :
    (startByte addr b s).cr.psize = s.cr.psize := by
  rw [startByte, storeByte, pulse_cr, modifyCr_cr]

@[simp] theorem afterByte_psize (w : FlashStatus × Hw) : (afterByte w).cr.psize = w.2.cr.psize :=
  rfl

/-- A word that is programmed leaves `PSIZE` with its upper bit set. -/
theorem flashProgramWord_psize {addr : Nat} {value : UInt32} {s : Hw}
    (h : (flashProgramWord addr value s).1 = .ok) :
    (flashProgramWord addr value s).2.cr.psize = s.cr.psize ||| psizeX32 := by
  have hstart : ∀ t : Hw, (startWord addr value t).cr.psize = t.cr.psize ||| psizeX32 :=
    fun t ↦ by rw [startWord, storeBytes_cr, modifyCr_cr, writeKeys_psize]
  have hfinish : ∀ w : FlashStatus × Hw, (finishWord addr value w).2.cr.psize = w.2.cr.psize :=
    fun w ↦ by unfold finishWord; dsimp only; split <;> rfl
  rw [flashProgramWord_eq] at h ⊢
  split_ifs at h ⊢ with h₁ h₂
  · rw [hfinish, waitBusy_cr, hstart, waitBusy_cr]
  · exact absurd h h₂

/-! ## What the stores are -/

/-- The word store of a call, if it comes to it. -/
theorem flashProgramWordTraced_eq (addr : Nat) (value : UInt32) (s : Hw) :
    flashProgramWordTraced addr value s = (flashProgramWord addr value s,
      if addr % 4 = 0 ∧ s.waitBusy.1 = .ok then
        [⟨addr, .x32, { s.cr with
          lock := false, ser := false, pg := true, psize := s.cr.psize ||| psizeX32 }⟩]
      else []) := by
  have hcr := s.waitBusy_cr
  unfold flashProgramWordTraced flashProgramWord
  simp only [flashUnlock_eq]
  by_cases ha : addr % 4 = 0
  · rw [if_neg (not_not.2 ha), if_neg (not_not.2 ha)]
    cases hw : s.waitBusy with
    | mk st t =>
        rw [hw] at hcr
        cases st with
        | ok =>
            rw [if_pos ⟨ha, rfl⟩, ← hcr]
            rfl
        | _ => rw [if_neg fun h ↦ (by cases h.2)]
  · rw [if_pos ha, if_pos ha, if_neg fun h ↦ ha h.1]

/-- The byte store of a device. -/
def byteStore (addr : Nat) (s : Hw) : FlashStore :=
  ⟨addr, .x8, { s.cr with ser := false, pg := true }⟩

theorem byteStore_of (addr : Nat) (s : Hw) : (byteStore addr s).Of .x8 s.cr.psize :=
  ⟨rfl, rfl, rfl, rfl⟩

theorem programTailTraced_cons (addr : Nat) (b : UInt8) (bs : List UInt8) (s : Hw) :
    programTailTraced addr (b :: bs) s =
      if s.waitBusy.1 = .ok then
        let w := (startByte addr b s.waitBusy.2).waitBusy
        if w.1 ≠ .ok then ((w.1, (afterByte w).flashLock), [byteStore addr s])
        else if (afterByte w).mem addr ≠ b then
          ((.errVerify, (afterByte w).flashLock), [byteStore addr s])
        else
          let r := programTailTraced (addr + 1) bs (afterByte w)
          (r.1, byteStore addr s :: r.2)
      else ((s.waitBusy.1, s.waitBusy.2.flashLock), []) := by
  have hcr := s.waitBusy_cr
  unfold byteStore
  rw [programTailTraced, ← hcr]
  cases hw : s.waitBusy with
  | mk st t => cases st <;> rfl

/-- The byte phase issues byte stores only, all with the `PSIZE` that it finds. -/
theorem programTailTraced_spec (addr : Nat) (bs : List UInt8) (s : Hw) :
    (programTailTraced addr bs s).1 = programTail addr bs s ∧
      (∀ x ∈ (programTailTraced addr bs s).2, bs ≠ [] ∧ x.Of .x8 s.cr.psize) ∧
      ((programTail addr bs s).1 = .ok → bs ≠ [] → (programTailTraced addr bs s).2 ≠ []) := by
  induction bs generalizing addr s with
  | nil => exact ⟨rfl, fun x hx ↦ (by cases hx), fun _ h ↦ absurd rfl h⟩
  | cons b bs ih =>
      rw [programTailTraced_cons, programTail_cons]
      dsimp only
      have hone : ∀ x ∈ [byteStore addr s], b :: bs ≠ [] ∧ x.Of .x8 s.cr.psize := fun x hx ↦ by
        rw [List.mem_singleton.1 hx]
        exact ⟨List.cons_ne_nil b bs, byteStore_of addr s⟩
      split_ifs with h₁ h₂ h₃
      · exact ⟨rfl, hone, fun _ _ ↦ List.cons_ne_nil _ _⟩
      · exact ⟨rfl, hone, fun _ _ ↦ List.cons_ne_nil _ _⟩
      · obtain ⟨he, hs, -⟩ := ih (addr + 1) (afterByte (startByte addr b s.waitBusy.2).waitBusy)
        refine ⟨he, fun x hx ↦ ?_, fun _ _ ↦ List.cons_ne_nil _ _⟩
        rcases List.mem_cons.1 hx with rfl | hx
        · exact hone _ (List.mem_singleton.2 rfl)
        · have hof := (hs x hx).2
          rw [afterByte_psize, waitBusy_cr, startByte_psize, waitBusy_cr] at hof
          exact ⟨List.cons_ne_nil b bs, hof⟩
      · exact ⟨rfl, fun x hx ↦ (by cases hx), fun h ↦ absurd h h₁⟩

/-! ## The two phases of a call -/

/-- The call has a word phase. -/
def HasWords (addr : Nat) (data : List UInt8) : Prop := addr % 4 = 0 ∧ 4 ≤ data.length

/-- The call has a byte phase. -/
def HasTail (addr : Nat) (data : List UInt8) : Prop :=
  data ≠ [] ∧ ¬(addr % 4 = 0 ∧ data.length % 4 = 0)

instance (addr : Nat) (data : List UInt8) : Decidable (HasWords addr data) :=
  inferInstanceAs (Decidable (_ ∧ _))

/-- The `PSIZE` of the byte phase of a call that finds `p`. -/
def tailPsize (addr : Nat) (data : List UInt8) (p : BitVec 2) : BitVec 2 :=
  if HasWords addr data then p ||| psizeX32 else p

/-- The stores of a call, one way or the other. -/
def PhaseStore (addr : Nat) (data : List UInt8) (p : BitVec 2) (x : FlashStore) : Prop :=
  (HasWords addr data ∧ x.Of .x32 (p ||| psizeX32)) ∨
    (HasTail addr data ∧ x.Of .x8 (tailPsize addr data p))

/-- What is known of the stores of a call: the outcome is that of the driver, every store
belongs to one of the phases, and a call that succeeds has a store of each phase it has. -/
structure TracedSpec (addr : Nat) (data : List UInt8) (s : Hw) (r : FlashStatus × Hw)
    (t : Traced) : Prop where
  outcome : t.1 = r
  phase : ∀ x ∈ t.2, PhaseStore addr data s.cr.psize x
  words : r.1 = .ok → HasWords addr data → ∃ x ∈ t.2, x.width = .x32
  tail : r.1 = .ok → HasTail addr data → ∃ x ∈ t.2, x.width = .x8

theorem programTailTraced_traced {addr : Nat} {bs : List UInt8} (s : Hw)
    (h : ¬HasWords addr bs) :
    TracedSpec addr bs s (programTail addr bs s) (programTailTraced addr bs s) := by
  obtain ⟨he, hs, hne⟩ := programTailTraced_spec addr bs s
  have htail : ∀ x ∈ (programTailTraced addr bs s).2, HasTail addr bs ∧ x.Of .x8 s.cr.psize :=
    fun x hx ↦ ⟨⟨(hs x hx).1, fun ha ↦ h ⟨ha.1, by
      have := List.length_pos_iff.2 (hs x hx).1
      omega⟩⟩, (hs x hx).2⟩
  refine ⟨he, fun x hx ↦ .inr ?_, fun _ hw ↦ absurd hw h, fun hok ht ↦ ?_⟩
  · rw [tailPsize, if_neg h]
    exact htail x hx
  · obtain ⟨x, hx⟩ := List.exists_mem_of_ne_nil _ (hne hok ht.1)
    exact ⟨x, hx, (htail x hx).2.width⟩

theorem programWordsTraced_cons (addr : Nat) (b₀ b₁ b₂ b₃ : UInt8) (bs : List UInt8) (s : Hw) :
    programWordsTraced addr (b₀ :: b₁ :: b₂ :: b₃ :: bs) s =
      if addr % 4 = 0 then
        let t := flashProgramWordTraced addr (le32 b₀ b₁ b₂ b₃) s
        if t.1.1 = .ok then
          let r := programWordsTraced (addr + 4) bs t.1.2
          (r.1, t.2 ++ r.2)
        else ((t.1.1, t.1.2.flashLock), t.2)
      else programTailTraced addr (b₀ :: b₁ :: b₂ :: b₃ :: bs) s := by
  rw [programWordsTraced]
  split_ifs
  · dsimp only
    cases h : flashProgramWordTraced addr (le32 b₀ b₁ b₂ b₃) s with
    | mk r stores =>
        obtain ⟨st, t⟩ := r
        cases st <;> rfl
  · rfl

theorem tailPsize_next (addr : Nat) (bs : List UInt8) (p : BitVec 2) :
    tailPsize (addr + 4) bs (p ||| psizeX32) = p ||| psizeX32 := by
  have hidem : p ||| psizeX32 ||| psizeX32 = p ||| psizeX32 := by rw [BitVec.or_assoc]; rfl
  unfold tailPsize
  split_ifs
  · exact hidem
  · rfl

/-- The stores after the first word belong to the phases of the whole call. -/
theorem PhaseStore.of_next {addr : Nat} {b₀ b₁ b₂ b₃ : UInt8} {bs : List UInt8} {p : BitVec 2}
    {x : FlashStore} (ha : addr % 4 = 0) (h : PhaseStore (addr + 4) bs (p ||| psizeX32) x) :
    PhaseStore addr (b₀ :: b₁ :: b₂ :: b₃ :: bs) p x := by
  have hidem : p ||| psizeX32 ||| psizeX32 = p ||| psizeX32 := by rw [BitVec.or_assoc]; rfl
  have hw : HasWords addr (b₀ :: b₁ :: b₂ :: b₃ :: bs) :=
    ⟨ha, by simp only [List.length_cons]; omega⟩
  rcases h with ⟨-, hof⟩ | ⟨ht, hof⟩
  · rw [hidem] at hof
    exact .inl ⟨hw, hof⟩
  · rw [tailPsize_next] at hof
    refine .inr ⟨⟨List.cons_ne_nil _ _, fun hc ↦ ht.2 ⟨by omega, ?_⟩⟩, ?_⟩
    · have := hc.2
      simp only [List.length_cons] at this
      omega
    · rw [tailPsize, if_pos hw]
      exact hof

theorem programWordsTraced_traced (addr : Nat) (bs : List UInt8) (s : Hw) :
    TracedSpec addr bs s (programWords addr bs s) (programWordsTraced addr bs s) := by
  match bs with
  | b₀ :: b₁ :: b₂ :: b₃ :: bs =>
      rw [programWords_cons, programWordsTraced_cons]
      split_ifs with ha
      · have hw : HasWords addr (b₀ :: b₁ :: b₂ :: b₃ :: bs) :=
          ⟨ha, by simp only [List.length_cons]; omega⟩
        rw [flashProgramWordTraced_eq]
        dsimp only
        split_ifs with hok hbusy
        · -- a word is programmed, and the call goes on behind it
          have hpsize := flashProgramWord_psize hok
          have ih := programWordsTraced_traced (addr + 4) bs
            (s.flashProgramWord addr (le32 b₀ b₁ b₂ b₃)).2
          refine ⟨ih.outcome, fun x hx ↦ ?_, fun _ _ ↦ ?_, fun hr ht ↦ ?_⟩
          · rcases List.mem_append.1 hx with hx | hx
            · rw [List.mem_singleton.1 hx]
              exact .inl ⟨hw, rfl, rfl, rfl, rfl⟩
            · have hp := ih.phase x hx
              rw [hpsize] at hp
              exact hp.of_next ha
          · exact ⟨_, List.mem_append_left _ (List.mem_singleton.2 rfl), rfl⟩
          · have hlen : (b₀ :: b₁ :: b₂ :: b₃ :: bs).length = bs.length + 4 := rfl
            obtain ⟨x, hx, hwidth⟩ := ih.tail hr ⟨fun hnil ↦ ht.2 ⟨ha, by rw [hlen, hnil]; decide⟩,
              fun hc ↦ ht.2 ⟨ha, by omega⟩⟩
            exact ⟨x, List.mem_append_right _ hx, hwidth⟩
        · rw [flashProgramWord_eq, if_neg (not_not.2 ha), if_neg fun h ↦ hbusy ⟨ha, h⟩] at hok
          exact absurd ⟨ha, hok⟩ hbusy
        · refine ⟨rfl, fun x hx ↦ ?_, fun h ↦ absurd h hok, fun h ↦ absurd h hok⟩
          rw [List.mem_singleton.1 hx]
          exact .inl ⟨hw, rfl, rfl, rfl, rfl⟩
        · exact ⟨rfl, fun x hx ↦ (by cases hx), fun h ↦ absurd h hok, fun h ↦ absurd h hok⟩
      · exact programTailTraced_traced s fun h ↦ ha h.1
  | [] => exact programTailTraced_traced s fun h ↦ absurd h.2 (by simp)
  | [_] => exact programTailTraced_traced s fun h ↦ absurd h.2 (by simp)
  | [_, _] => exact programTailTraced_traced s fun h ↦ absurd h.2 (by simp)
  | [_, _, _] => exact programTailTraced_traced s fun h ↦ absurd h.2 (by simp)

theorem flashProgramBytesTraced_traced (addr : Nat) (data : List UInt8) (s : Hw) :
    TracedSpec addr data s (flashProgramBytes addr data s)
      (flashProgramBytesTraced addr data s) := by
  have h := programWordsTraced_traced addr data s.writeKeys
  rw [flashProgramBytes_eq, flashProgramBytesTraced, flashUnlock_eq]
  exact ⟨h.outcome, h.phase, h.words, h.tail⟩

end Hw

/-! ## Runs of driver calls -/

namespace FlashOp

open Hw

/-- The outcome of a driver call, and the stores it issues; an erase issues none. -/
def traced : FlashOp → Hw → Traced
  | eraseSector sectorStartAddr, s => (Hw.flashEraseSector sectorStartAddr s, [])
  | eraseRange addr size, s => (Hw.flashEraseRange addr size s, [])
  | programWord addr value, s => flashProgramWordTraced addr value s
  | programBytes addr data, s => flashProgramBytesTraced addr data s

/-- Reporting the stores changes nothing else. -/
theorem traced_fst (op : FlashOp) (s : Hw) : (op.traced s).1 = op.onHw s := by
  cases op with
  | eraseSector a => rfl
  | eraseRange addr size => rfl
  | programWord addr value => exact congrArg Prod.fst (flashProgramWordTraced_eq addr value s)
  | programBytes addr data => exact (flashProgramBytesTraced_traced addr data s).outcome

/-- Every store of the call is one that the controller takes. -/
def StoresAccepted (s : Hw) (op : FlashOp) : Prop := ∀ x ∈ (op.traced s).2, x.Accepted

/-- `PSIZE` fits the call: a word store needs the lower bit clear; a byte phase needs the
whole field clear, and no word phase before it. -/
def PsizeFits (s : Hw) : FlashOp → Prop
  | eraseSector _ => True
  | eraseRange _ _ => True
  | programWord addr _ => addr % 4 = 0 → s.cr.psize = 0 ∨ s.cr.psize = 2
  | programBytes addr data =>
    (HasWords addr data → (s.cr.psize = 0 ∨ s.cr.psize = 2) ∧ ¬HasTail addr data) ∧
      (¬HasWords addr data → HasTail addr data → s.cr.psize = 0)

theorem or_psizeX32_iff (p : BitVec 2) : p ||| psizeX32 = StoreWidth.x32.psize ↔ p = 0 ∨ p = 2 := by
  revert p
  decide

/-- The upper bit is never clear again. -/
theorem or_psizeX32_ne (p : BitVec 2) : p ||| psizeX32 ≠ StoreWidth.x8.psize := by
  revert p
  decide

theorem PsizeFits.storesAccepted {s : Hw} {op : FlashOp} (h : PsizeFits s op) :
    StoresAccepted s op := by
  intro x hx
  cases op with
  | eraseSector a => cases hx
  | eraseRange addr size => cases hx
  | programWord addr value =>
      have hx' : x ∈ (flashProgramWordTraced addr value s).2 := hx
      rw [flashProgramWordTraced_eq] at hx'
      split_ifs at hx' with hc
      · rw [List.mem_singleton.1 hx']
        exact ⟨rfl, rfl, (or_psizeX32_iff _).2 (h hc.1)⟩
      · cases hx'
  | programBytes addr data =>
      rcases (flashProgramBytesTraced_traced addr data s).phase x hx with ⟨hw, hof⟩ | ⟨ht, hof⟩
      · exact hof.accepted_iff.2 ((or_psizeX32_iff _).2 (h.1 hw).1)
      · have hw : ¬HasWords addr data := fun hw ↦ (h.1 hw).2 ht
        rw [tailPsize, if_neg hw, h.2 hw ht] at hof
        exact hof.accepted_iff.2 rfl

/-- A call that succeeds issues all its stores, so the condition is necessary. -/
theorem psizeFits_of_ok {s : Hw} {op : FlashOp} (hok : (op.onHw s).1 = .ok)
    (h : StoresAccepted s op) : PsizeFits s op := by
  cases op with
  | eraseSector a => trivial
  | eraseRange addr size => trivial
  | programWord addr value =>
      intro ha
      have hok' : (flashProgramWord addr value s).1 = .ok := hok
      have hbusy : s.waitBusy.1 = .ok := by
        rw [flashProgramWord_eq, if_neg (not_not.2 ha)] at hok'
        split_ifs at hok' with hb
        · exact hb
        · exact absurd hok' hb
      have htr : (traced (programWord addr value) s).2 = _ :=
        congrArg Prod.snd (flashProgramWordTraced_eq addr value s)
      rw [if_pos ⟨ha, hbusy⟩] at htr
      exact (or_psizeX32_iff _).1 (h _ (by rw [htr]; exact List.mem_singleton.2 rfl)).2.2
  | programBytes addr data =>
      have hspec := flashProgramBytesTraced_traced addr data s
      have hbyte : HasTail addr data → tailPsize addr data s.cr.psize = StoreWidth.x8.psize :=
        fun ht ↦ by
          obtain ⟨x, hx, hwidth⟩ := hspec.tail hok ht
          rcases hspec.phase x hx with ⟨-, hof⟩ | ⟨-, hof⟩
          · rw [hof.width] at hwidth
            cases hwidth
          · exact hof.accepted_iff.1 (h x hx)
      refine ⟨fun hw ↦ ⟨?_, fun ht ↦ ?_⟩, fun hw ht ↦ ?_⟩
      · obtain ⟨x, hx, hwidth⟩ := hspec.words hok hw
        rcases hspec.phase x hx with ⟨-, hof⟩ | ⟨-, hof⟩
        · exact (or_psizeX32_iff _).1 (hof.accepted_iff.1 (h x hx))
        · rw [hof.width] at hwidth
          cases hwidth
      · have := hbyte ht
        rw [tailPsize, if_pos hw] at this
        exact or_psizeX32_ne _ this
      · have := hbyte ht
        rwa [tailPsize, if_neg hw] at this

/-- The state after a driver call. -/
def step (s : Hw) (op : FlashOp) : Hw := (op.onHw s).2

/-- **Parallelism.**  In every run of erase and program calls, from any control register and
whatever the controller reports, every store is taken if `PSIZE` fits at each call; in a run
whose calls all succeed it is also necessary. -/
theorem stores_accepted (s : Hw) (ops : List FlashOp) :
    (Along step PsizeFits s ops → Along step StoresAccepted s ops) ∧
      (Along step (fun t op ↦ (op.onHw t).1 = .ok) s ops →
        Along step StoresAccepted s ops → Along step PsizeFits s ops) := by
  constructor
  · intro h
    exact h.mono_of_inv (I := fun _ ↦ True) (fun _ _ _ hc ↦ ⟨hc.storesAccepted, trivial⟩) trivial
  · intro hok h
    exact (along_and.2 ⟨hok, h⟩).mono_of_inv (I := fun _ ↦ True)
      (fun _ _ _ hc ↦ ⟨psizeFits_of_ok hc.1 hc.2, trivial⟩) trivial

/-- Five bytes on an erased device out of reset: the fifth store is a byte store with
`PSIZE` at 32 bits. -/
theorem tail_store_refused :
    ¬Along step StoresAccepted (.reset fun _ ↦ 0xFF) [programBytes slotBAddr [1, 2, 3, 4, 5]] := by
  rintro ⟨h, -⟩
  have hok : ((programBytes slotBAddr [1, 2, 3, 4, 5]).onHw (.reset fun _ ↦ 0xFF)).1 = .ok :=
    (flashProgramBytes_of_healthy (healthy_reset _)).2 (Mem.clears_of_erased fun _ _ ↦ rfl)
  exact ((psizeFits_of_ok hok h).1 (by decide)).2 (by unfold HasTail; decide)

end FlashOp

end DualBank
