import DualBank.Patch.CodeReader
import DualBank.Patch.Head

/-!
# Decoding inside the dictionary

The stream decoder of tinyuz follows the reader of its code.  Where all distances that are
read stay inside the dictionary, so do all accesses, in whatever pieces HPatchLite asks for
the output.
-/

namespace DualBank

open Lib Stateful

section Staged

variable {σ : Type} [FlashBackend σ] {base self : TuzTStream} {t : StagedState σ} {r : CodeReader}

/-! ## Reading code -/

/-- The cache goes on with these bytes, and once it has found the patch at an end, so it is. -/
structure CodeAhead (bytes : List UInt8) (cache : InputCache Unit) (t : StagedState σ) : Prop where
  bytes : cache.unread ++ t.patch = bytes
  supplied : cache.cacheEnd = 0 → t.patch = []

omit [FlashBackend σ] in
/-- A read of the patch, as an update of the cache sees it. -/
theorem stagedRead_getD {n : Nat} (h : n = 0 → t.patch = []) :
    ((stagedRead n t).1.getD []) ++ (stagedRead n t).2.patch = t.patch ∧
      ((stagedRead n t).1.getD [] = [] → t.patch = []) := by
  unfold stagedRead
  by_cases h0 : n = 0
  · rw [if_pos h0]
    exact ⟨rfl, fun _ ↦ h h0⟩
  rw [if_neg h0]
  by_cases hempty : t.patch = []
  · rw [if_pos hempty]
    exact ⟨rfl, fun _ ↦ hempty⟩
  · rw [if_neg hempty]
    exact ⟨List.take_append_drop n t.patch, fun htake ↦
      (List.take_eq_nil_iff.1 htake).resolve_left h0⟩

/-- An update of an empty cache fills it, where the patch is not at its end. -/
theorem update_ahead {cache : InputCache Unit} (h : cache.cacheEnd = 0 → t.patch = []) :
    EndsIn stagedAnswer (InputCache.update TuzTStream.diffRead) (fun ok cache' t' ↦
      CodeAhead t.patch cache' t' ∧
        (ok = some true ∧ cache'.unread ≠ [] ∨ ok = some false ∧ t.patch = [])) cache t := by
  obtain ⟨hbytes, hend⟩ := stagedRead_getD h
  refine endsIn_get_bind (endsIn_bind (endsIn_zoom (endsIn_lift
    (endsIn_modify_bind (endsIn_pure ?_)))))
  have hrun : (askDiff cache.cacheEnd).run stagedAnswer t = stagedRead cache.cacheEnd t := rfl
  rw [hrun]
  generalize (stagedRead cache.cacheEnd t).1.getD [] = got at hbytes hend ⊢
  refine ⟨⟨hbytes, fun h0 ↦ ?_⟩, ?_⟩
  · have hnil := List.length_eq_zero_iff.1 h0
    rwa [hnil, List.nil_append, hend hnil] at hbytes
  · by_cases hgot : got = []
    · exact .inr ⟨congrArg some (decide_eq_false (not_not.2 (congrArg List.length hgot))),
        hend hgot⟩
    · exact .inl ⟨congrArg some (decide_eq_true fun h ↦ hgot (List.length_eq_zero_iff.1 h)), hgot⟩

/-- A byte of the code, or 0 behind its end. -/
theorem CodeAhead.read1byte {bytes : List UInt8} {cache : InputCache Unit}
    (h : CodeAhead bytes cache t) :
    EndsIn stagedAnswer (InputCache.read1byte TuzTStream.diffRead)
      (fun b cache t ↦ b = some (bytes.headD 0) ∧ CodeAhead bytes.tail cache t) cache t := by
  obtain ⟨rfl, hsupplied⟩ := h
  have htake : ∀ (cache : InputCache Unit) (t : StagedState σ), cache.unread ≠ [] →
      (cache.cacheEnd = 0 → t.patch = []) → EndsIn stagedAnswer InputCache.takeByte
        (fun b cache' t' ↦ b = some ((cache.unread ++ t.patch).headD 0) ∧
          CodeAhead (cache.unread ++ t.patch).tail cache' t') cache t := by
    intro cache t hne hsupplied
    obtain ⟨x, unread, hcache⟩ := List.exists_cons_of_ne_nil hne
    refine endsIn_get_bind (endsIn_modify_bind (endsIn_pure ⟨?_, ?_, hsupplied⟩))
    · rw [hcache]
      rfl
    · rw [hcache]
      rfl
  refine endsIn_get_bind ?_
  by_cases hne : cache.unread ≠ []
  · rw [if_pos hne]
    exact htake cache t hne hsupplied
  rw [if_neg hne]
  have hnil := not_not.1 hne
  rw [hnil, List.nil_append]
  refine endsIn_bind ((update_ahead hsupplied).mono fun ok cache' t' h ↦ ?_)
  obtain ⟨⟨hbytes, hsupplied⟩, ⟨rfl, hne⟩ | ⟨rfl, hend⟩⟩ := h
  · rw [← hbytes]
    exact htake cache' t' hne hsupplied
  · rw [hend] at hbytes ⊢
    exact ⟨rfl, hbytes, hsupplied⟩

/-- The decoder stands where the reader does, and is otherwise as `base`. -/
structure ReadsAt (base : TuzTStream) (r : CodeReader) (tuz : TuzTStream) (t : StagedState σ) :
    Prop where
  ahead : CodeAhead r.bytes tuz.codeCache t
  types : tuz.state.types = r.types
  typeCount : tuz.state.typeCount = r.typeCount
  isHaveDataBack : tuz.state.isHaveDataBack = r.isHaveDataBack
  dictPosBack : tuz.state.dictPosBack = r.dictPosBack
  dict : tuz.dict = base.dict
  accesses : tuz.accesses = base.accesses
  dictTypeLen : tuz.state.dictTypeLen = base.state.dictTypeLen
  literalTypeLen : tuz.state.literalTypeLen = base.state.literalTypeLen

/-- What is left of it where the fuel runs out. -/
def SameAccesses (base self : TuzTStream) (_ : StagedState σ) : Prop :=
  self.accesses = base.accesses

/-- The decoder reads what the reader reads. -/
abbrev ReadsAs {α : Type} (σ : Type) [FlashBackend σ] (p : TuzM α) (x : CodeM α) : Prop :=
  ∀ base : TuzTStream,
    Follows (stagedAnswer (σ := σ)) (fun r self t ↦ ReadsAt base r self t) (SameAccesses base) p x

namespace ReadsAs

variable {α β : Type}

theorem pure (a : α) : ReadsAs σ (Pure.pure a : TuzM α) (Pure.pure a) := fun _ ↦ follows_pure a

theorem stop : ReadsAs σ (Stateful.stop : TuzM α) failure :=
  fun _ ↦ follows_stop fun _ _ _ h ↦ h.accesses

theorem bind {p : TuzM α} {f : α → TuzM β} {x : CodeM α} {y : α → CodeM β} (hp : ReadsAs σ p x)
    (hf : ∀ a, ReadsAs σ (f a) (y a)) : ReadsAs σ (p >>= f) (x >>= y) :=
  fun base ↦ (hp base).bind fun a ↦ hf a base

theorem ite {c : Prop} [Decidable c] {p q : TuzM α} {x y : CodeM α} (hp : ReadsAs σ p x)
    (hq : ReadsAs σ q y) : ReadsAs σ (if c then p else q) (if c then x else y) :=
  fun base ↦ (hp base).ite (hq base)

/-- What follows the reading of a code. -/
theorem andThen {p : TuzM α} {x : CodeM α} (hp : ReadsAs σ p x) (h : ReadsAt base r self t)
    {f : α → TuzM β} {Q : Option β → TuzTStream → StagedState σ → Prop}
    (hnone : x r = none → ∀ tuz t, tuz.accesses = base.accesses → Q none tuz t)
    (hsome : ∀ a r' tuz t, x r = some (a, r') → ReadsAt base r' tuz t →
      EndsIn stagedAnswer (f a) Q tuz t) : EndsIn stagedAnswer (p >>= f) Q self t := by
  refine endsIn_bind ((hp base r self t h).mono fun a tuz t h ↦ ?_)
  cases hx : x r with
  | none =>
      rw [hx] at h
      obtain ⟨rfl, h⟩ := h
      exact hnone hx tuz t h
  | some y =>
      rw [hx] at h
      obtain ⟨rfl, h⟩ := h
      exact hsome y.1 y.2 tuz t hx h

end ReadsAs

theorem readsAs_byte : ReadsAs σ TuzTStream.cacheRead1byte CodeReader.readByte := by
  intro base r self t h
  refine endsIn_bind (endsIn_zoom (h.ahead.read1byte.mono ?_))
  rintro _ cache t ⟨rfl, hahead⟩
  exact ⟨rfl, hahead, h.types, h.typeCount, h.isHaveDataBack, h.dictPosBack, h.dict, h.accesses,
    h.dictTypeLen, h.literalTypeLen⟩

theorem readsAs_setTypes (types typeCount : UInt32) :
    ReadsAs σ (Stateful.modify (TuzTStream.setTypes types typeCount))
      (modify (CodeReader.setTypes types typeCount)) :=
  fun _ ↦ follows_modify fun _ _ _ h ↦ ⟨h.ahead, rfl, rfl, h.isHaveDataBack, h.dictPosBack,
    h.dict, h.accesses, h.dictTypeLen, h.literalTypeLen⟩

theorem readsAs_bits (bitCount : UInt32) :
    ReadsAs σ (TuzTStream.cacheReadLowbits bitCount) (CodeReader.readBits bitCount) := by
  intro base
  refine follows_get_bind fun r self t h ↦ ?_
  dsimp only
  rw [h.types, h.typeCount]
  have hbits := ReadsAs.ite (σ := σ) (c := r.typeCount ≥ bitCount)
    ((readsAs_setTypes (r.types >>> bitCount) (r.typeCount - bitCount)).bind fun _ ↦
      ReadsAs.pure r.types)
    (readsAs_byte.bind fun v ↦ (readsAs_setTypes (v >>> (bitCount - r.typeCount))
      (tuzKMaxTypeBitCount - (bitCount - r.typeCount))).bind fun _ ↦
        ReadsAs.pure (r.types ||| (v <<< r.typeCount)))
  exact hbits base r self t h

theorem readsAs_bit : ReadsAs σ TuzTStream.cacheRead1bit CodeReader.readBit :=
  (readsAs_bits 1).bind fun _ ↦ .pure _

theorem readsAs_len (groupBits : UInt32) (fuel : Nat) (v : UInt32) :
    ReadsAs σ (TuzTStream.unpackLen groupBits fuel v) (CodeReader.readLen groupBits fuel v) := by
  induction fuel generalizing v with
  | zero => exact .stop
  | succ fuel ih => exact (readsAs_bits groupBits).bind fun _ ↦ (ReadsAs.pure _).ite (ih _)

theorem readsAs_pos (fuel : Nat) :
    ReadsAs σ (TuzTStream.cacheUnpackDictPos fuel) (CodeReader.readPos fuel) :=
  readsAs_byte.bind fun _ ↦ (ReadsAs.pure _).ite ((readsAs_len 3 fuel 0).bind fun _ ↦ .pure _)

theorem readsAs_useBack : ReadsAs σ TuzTStream.readUseBack CodeReader.readUseBack := by
  intro base
  refine follows_get_bind fun r self t h ↦ ?_
  rw [h.isHaveDataBack]
  exact ReadsAs.ite readsAs_bit (ReadsAs.pure 0) base r self t h

theorem readsAs_distance (fuel : Nat) (length useBack : UInt32) :
    ReadsAs σ (TuzTStream.readDictPos fuel length useBack)
      (CodeReader.readDistance fuel length useBack) := by
  intro base
  refine follows_get_bind fun r self t h ↦ ?_
  rw [h.dictPosBack]
  exact ReadsAs.ite (ReadsAs.pure (length, r.dictPosBack))
    ((readsAs_pos fuel).bind fun _ ↦ .pure _) base r self t h

theorem readsAs_haveData (b : Bool) :
    ReadsAs σ (Stateful.modify fun self ↦
        { self with state := { self.state with isHaveDataBack := b } })
      (modify (CodeReader.setHaveData b)) :=
  fun _ ↦ follows_modify fun _ _ _ h ↦ ⟨h.ahead, h.types, h.typeCount, rfl, h.dictPosBack,
    h.dict, h.accesses, h.dictTypeLen, h.literalTypeLen⟩

theorem readsAs_copy (fuel : Nat) :
    ReadsAs σ (TuzTStream.readDictCode fuel) (CodeReader.readCopy fuel) :=
  (readsAs_len 2 fuel 0).bind fun length ↦ readsAs_useBack.bind fun useBack ↦
    (readsAs_distance fuel length useBack).bind fun _ ↦ (readsAs_haveData false).bind fun _ ↦
      .pure _

/-! ## Steps -/

/-- What the decoder has still to do of a copy and of a literal line. -/
def TuzTStream.openBytes (tuz : TuzTStream) : List (Option UInt32) :=
  (CodeStep.copy tuz.state.dictTypeLen tuz.state.dictPosBack).distances ++
    (CodeStep.line tuz.state.literalTypeLen).distances

/-- The reader that stands where the decoder does, with these bytes left of the patch. -/
def TuzTStream.reader (tuz : TuzTStream) (left : List UInt8) : CodeReader where
  bytes := tuz.codeCache.unread ++ left
  types := tuz.state.types
  typeCount := tuz.state.typeCount
  isHaveDataBack := tuz.state.isHaveDataBack
  dictPosBack := tuz.state.dictPosBack

/-- The reader behind what is open. -/
def TuzTStream.behind (tuz : TuzTStream) (left : List UInt8) : CodeReader :=
  (CodeStep.line tuz.state.literalTypeLen).skip (tuz.reader left)

/-- All accesses have been inside the dictionary. -/
def TuzTStream.AllInRange (tuz : TuzTStream) : Prop := ∀ a ∈ tuz.accesses, a.InRange

/-- What holds of the decoder between two steps. -/
structure Decoding (tuz : TuzTStream) (t : StagedState σ) : Prop where
  supplied : tuz.codeCache.cacheEnd = 0 → t.patch = []
  /-- An open copy is at its distance. -/
  copy : tuz.state.dictTypeLen ≠ 0 → tuz.state.dictPosBack ≠ 0 ∧
    tuz.state.dictTypePos = tuz.dict.dictSize - tuz.state.dictPosBack

/-- Nothing is open. -/
structure Closed (tuz : TuzTStream) : Prop where
  copy : tuz.state.dictTypeLen = 0
  line : tuz.state.literalTypeLen = 0

/-- A byte of output has been put out, which is copied over this distance, or not at all. -/
structure Emits (x : Option UInt32) (base tuz : TuzTStream) : Prop where
  dictSize : tuz.dict.dictSize = base.dict.dictSize
  dictCur : tuz.dict.dictCur = nextCur base.dict.dictSize base.dict.dictCur
  allInRange : tuz.AllInRange ↔
    base.AllInRange ∧ ∀ d ∈ x, Reaches base.dict.dictSize base.dict.dictCur d

/-- A type code has been read that adds these bytes to the output. -/
structure Turns (step : List (Option UInt32)) (r : CodeReader) (base tuz : TuzTStream)
    (t : StagedState σ) : Prop where
  decoding : Decoding tuz t
  dict : tuz.dict = base.dict
  accesses : tuz.accesses = base.accesses
  openBytes : tuz.openBytes = step
  behind : tuz.behind t.patch = r

variable {M : PatchMemory} {fuel room : Nat} {out : List UInt8}

/-- The decoder behind `_dict_write_byte`. -/
def TuzTStream.written (x : UInt8) (tuz : TuzTStream) : TuzTStream :=
  { note tuz.dict.dictCur none tuz with dict := tuz.dict.writeByte x }

/-- A write is at the cursor. -/
theorem allInRange_written (x : UInt8) : (self.written x).AllInRange ↔ self.AllInRange := by
  refine ⟨fun h a ha ↦ h a (List.mem_append_left _ ha), fun h a ha ↦ ?_⟩
  rcases List.mem_append.1 ha with ha | ha
  · exact h a ha
  · rw [List.mem_singleton.1 ha]
    exact self.dict.dictCur_lt

theorem emits_written (x : UInt8) : Emits none self (self.written x) :=
  ⟨rfl, rfl, (allInRange_written x).trans (and_iff_left nofun).symm⟩

section Reads

omit [FlashBackend σ]

theorem ReadsAt.reader_eq (h : ReadsAt base r self t) : self.reader t.patch = r := by
  unfold TuzTStream.reader
  rw [h.ahead.bytes, h.types, h.typeCount, h.isHaveDataBack, h.dictPosBack]

theorem Decoding.readsAt (h : Decoding self t) : ReadsAt self (self.reader t.patch) self t :=
  ⟨⟨rfl, h.supplied⟩, rfl, rfl, rfl, rfl, rfl, rfl, rfl, rfl⟩

theorem ReadsAt.emits {x : UInt8} (h : ReadsAt (base.written x) r self t) :
    Emits none base self where
  dictSize := (congrArg TuzDict.dictSize h.dict).trans (emits_written x).dictSize
  dictCur := (congrArg TuzDict.dictCur h.dict).trans (emits_written x).dictCur
  allInRange := by
    refine Iff.trans ?_ (emits_written x).allInRange
    unfold TuzTStream.AllInRange
    rw [h.accesses]

theorem Closed.openBytes (h : Closed self) : self.openBytes = [] := by
  unfold TuzTStream.openBytes
  rw [h.copy, h.line]
  rfl

theorem Closed.behind (h : Closed self) (left : List UInt8) :
    self.behind left = self.reader left := by
  unfold TuzTStream.behind
  rw [h.line]
  rfl

theorem Closed.of_reads (h : Closed base) (hat : ReadsAt base r self t) : Closed self :=
  ⟨hat.dictTypeLen.trans h.copy, hat.literalTypeLen.trans h.line⟩

/-- In front of a type code. -/
theorem ReadsAt.turns (h : ReadsAt base r self t) (hclosed : Closed base) :
    Turns [] r base self t where
  decoding := ⟨h.ahead.supplied, fun hopen ↦ absurd (hclosed.of_reads h).copy hopen⟩
  dict := h.dict
  accesses := h.accesses
  openBytes := (hclosed.of_reads h).openBytes
  behind := ((hclosed.of_reads h).behind _).trans h.reader_eq

/-- At the start of a copy. -/
theorem ReadsAt.startCopy (h : ReadsAt base r self t) (hclosed : Closed base) {d : UInt32}
    (hd : d ≠ 0) (savedLen : UInt32) :
    Turns (CodeStep.copy (savedLen + tuzKMinDictMatchLen) d).distances
      { r with dictPosBack := d } base (TuzTStream.startCopy savedLen d self) t where
  decoding := ⟨h.ahead.supplied, fun _ ↦ ⟨hd, rfl⟩⟩
  dict := h.dict
  accesses := h.accesses
  openBytes := by
    have hline : (TuzTStream.startCopy savedLen d self).state.literalTypeLen = 0 :=
      (hclosed.of_reads h).line
    unfold TuzTStream.openBytes
    rw [hline]
    exact List.append_nil _
  behind := by
    have hline : (TuzTStream.startCopy savedLen d self).state.literalTypeLen = 0 :=
      (hclosed.of_reads h).line
    unfold TuzTStream.behind
    rw [hline, ← h.reader_eq]
    rfl

/-- At the start of a literal line. -/
theorem ReadsAt.startLine (h : ReadsAt base r self t) (hclosed : Closed base) (length : UInt32) :
    Turns (CodeStep.line length).distances ((CodeStep.line length).skip r) base
      { self with state := { self.state with literalTypeLen := length } } t where
  decoding := ⟨h.ahead.supplied, fun hopen ↦ absurd (hclosed.of_reads h).copy hopen⟩
  dict := h.dict
  accesses := h.accesses
  openBytes := by
    unfold TuzTStream.openBytes
    dsimp only
    rw [(hclosed.of_reads h).copy]
    rfl
  behind := congrArg (CodeStep.line length).skip h.reader_eq

theorem ReadsAt.endClip (h : ReadsAt base r self t) : ReadsAt base r.endClip self.endClip t :=
  ⟨h.ahead, h.types, rfl, h.isHaveDataBack, rfl, h.dict, h.accesses, h.dictTypeLen,
    h.literalTypeLen⟩

/-- A bit of data that is pushed back, where there is no room for the byte. -/
theorem ReadsAt.pushBit (h : ReadsAt base r self t) (hclosed : Closed base) :
    Turns [] (CodeReader.setTypes ((r.types <<< 1) + tuzCodeTypeData) (r.typeCount + 1) r) base
      (TuzTStream.setTypes ((self.state.types <<< 1) + tuzCodeTypeData)
        (self.state.typeCount + 1) self) t := by
  refine ReadsAt.turns ?_ hclosed
  rw [h.types, h.typeCount]
  exact ⟨h.ahead, rfl, rfl, h.isHaveDataBack, h.dictPosBack, h.dict, h.accesses,
    h.dictTypeLen, h.literalTypeLen⟩

end Reads

/-- A byte of the code, to the dictionary. -/
theorem ReadsAt.literalByte (h : ReadsAt base r self t) :
    EndsIn stagedAnswer TuzTStream.literalByte (fun b tuz t ↦ ∃ x, b = some x ∧
      ReadsAt (base.written x) { r with bytes := r.bytes.tail } tuz t) self t := by
  refine endsIn_bind ((readsAs_byte base r self t h).mono fun v tuz t h ↦ ?_)
  obtain ⟨rfl, h⟩ := h
  have haccesses : tuz.accesses ++ [⟨tuz.dict.dictCur, tuz.dict.dictSize, tuz.dict.dictCur, none⟩] =
      base.accesses ++ [⟨base.dict.dictCur, base.dict.dictSize, base.dict.dictCur, none⟩] := by
    rw [h.accesses, h.dict]
  exact ⟨_, rfl, h.ahead, h.types, h.typeCount, h.isHaveDataBack, h.dictPosBack,
    congrArg (TuzDict.writeByte · _) h.dict, haccesses, h.dictTypeLen, h.literalTypeLen⟩

/-- A byte of an open copy. -/
theorem Decoding.copyByte (h : Decoding self t) (hopen : self.state.dictTypeLen ≠ 0) :
    EndsIn stagedAnswer (TuzTStream.copyByte M) (fun b tuz t' ↦ (∃ x, b = some x) ∧
      Decoding tuz t' ∧ ∃ d, Emits (some d) self tuz ∧ self.openBytes = some d :: tuz.openBytes ∧
        tuz.behind t'.patch = self.behind t.patch) self t := by
  obtain ⟨hback, hpos⟩ := h.copy hopen
  refine endsIn_bind (endsIn_get_bind (endsIn_modify_bind (endsIn_pure ?_)))
  refine endsIn_modify_bind (endsIn_modify_bind (endsIn_pure ⟨⟨_, rfl⟩, ⟨h.supplied, fun _ ↦ ?_⟩,
    self.state.dictPosBack, ⟨rfl, rfl, ?_⟩, ?_, rfl⟩))
  · exact ⟨hback, hpos⟩
  · refine (allInRange_written 0).trans
      ⟨fun hin ↦ ⟨fun a ha ↦ hin a (List.mem_append_left _ ha), ?_⟩,
      fun hin a ha ↦ ?_⟩
    · intro d hd
      cases hd
      have hread := hin _ (List.mem_append_right _ (List.mem_singleton.2 rfl))
      rw [DictAccess.InRange, hpos] at hread
      exact (dictIndexPos_lt_iff self.dict.dictCur_lt hback).1 hread
    · rcases List.mem_append.1 ha with ha | ha
      · exact hin.1 a ha
      · rw [List.mem_singleton.1 ha, DictAccess.InRange, hpos]
        exact (dictIndexPos_lt_iff self.dict.dictCur_lt hback).2 (hin.2 _ rfl)
  · show List.replicate self.state.dictTypeLen.toNat _ ++ _ = _
    rw [← toNat_sub_one hopen]
    rfl

/-- A byte of an open line. -/
theorem Decoding.lineByte (h : Decoding self t) (hcopy : self.state.dictTypeLen = 0)
    (hline : self.state.literalTypeLen ≠ 0) :
    EndsIn stagedAnswer TuzTStream.literalByte (fun b tuz t' ↦ (∃ x, b = some x) ∧
      ∃ tuz', tuz' = { tuz with state := { tuz.state with
          literalTypeLen := tuz.state.literalTypeLen - 1 } } ∧
        Decoding tuz' t' ∧ Emits none self tuz' ∧ self.openBytes = none :: tuz'.openBytes ∧
          tuz'.behind t'.patch = self.behind t.patch) self t := by
  refine h.readsAt.literalByte.mono ?_
  rintro _ tuz t' ⟨x, rfl, hat⟩
  have hnone : tuz.state.dictTypeLen = 0 := hat.dictTypeLen.trans hcopy
  have hemits : Emits none self _ := hat.emits
  refine ⟨⟨x, rfl⟩, _, rfl, ⟨hat.ahead.supplied, fun hopen ↦ absurd hnone hopen⟩,
    ⟨hemits.dictSize, hemits.dictCur, hemits.allInRange⟩, ?_, ?_⟩
  · unfold TuzTStream.openBytes
    rw [hcopy, hnone, hat.literalTypeLen]
    show List.replicate self.state.literalTypeLen.toNat _ = _
    rw [← toNat_sub_one hline]
    rfl
  · show (CodeStep.line (tuz.state.literalTypeLen - 1)).skip (tuz.reader t'.patch) = _
    rw [hat.literalTypeLen, hat.reader_eq]
    show (CodeStep.line (self.state.literalTypeLen - 1)).skip _ = _
    unfold TuzTStream.behind CodeStep.skip
    dsimp only
    rw [← toNat_sub_one hline, List.drop_tail]

/-- A byte of data. -/
theorem ReadsAt.dataByte (h : ReadsAt base r self t) (hclosed : Closed base) :
    EndsIn stagedAnswer TuzTStream.literalByte (fun b tuz t' ↦ (∃ x, b = some x) ∧
      ∃ tuz', tuz' = { tuz with state := { tuz.state with isHaveDataBack := true } } ∧
        Decoding tuz' t' ∧ Emits none base tuz' ∧ tuz'.openBytes = [] ∧ tuz'.behind t'.patch =
          CodeReader.setHaveData true { r with bytes := r.bytes.tail }) self t := by
  refine h.literalByte.mono ?_
  rintro _ tuz t' ⟨x, rfl, hat⟩
  have hat' : ReadsAt (base.written x)
      (CodeReader.setHaveData true { r with bytes := r.bytes.tail })
      { tuz with state := { tuz.state with isHaveDataBack := true } } t' :=
    ⟨hat.ahead, hat.types, hat.typeCount, rfl, hat.dictPosBack, hat.dict, hat.accesses,
      hat.dictTypeLen, hat.literalTypeLen⟩
  have hturns := hat'.turns ⟨hclosed.copy, hclosed.line⟩
  exact ⟨⟨x, rfl⟩, _, rfl, hturns.decoding, hat'.emits, hturns.openBytes, hturns.behind⟩

/-! ## An iteration of the loop -/

/-- What is to show of the things that an iteration can do, for `Q` to hold behind the loop. -/
structure Iteration (M : PatchMemory) (fuel room : Nat) (out : List UInt8) (base : TuzTStream)
    (t : StagedState σ) (Q : Option (TuzResult × List UInt8) → TuzTStream → StagedState σ → Prop) :
    Prop where
  /-- The fuel does not suffice for a type code. -/
  stop : base.openBytes = [] → CodeReader.readStep fuel (base.behind t.patch) = none →
    ∀ tuz t', tuz.accesses = base.accesses → Q none tuz t'
  /-- There is no room. -/
  full : room = 0 → ∀ r tuz t' result, r.readBit = (base.behind t.patch).readBit →
    Turns base.openBytes r base tuz t' → result = .ok ∨ result = .readCodeError →
      Q (some (result, out)) tuz t'
  /-- A byte of what is open. -/
  put : room ≠ 0 → ∀ x b tuz t', Decoding tuz t' → Emits x base tuz →
    base.openBytes = x :: tuz.openBytes → tuz.behind t'.patch = base.behind t.patch →
      EndsIn stagedAnswer (TuzTStream.decompressLoop M fuel (room - 1) (out ++ [b])) Q tuz t'
  /-- A byte of data. -/
  data : room ≠ 0 → base.openBytes = [] → ∀ r b tuz t',
    CodeReader.readStep fuel (base.behind t.patch) = some (.data, r) → Decoding tuz t' →
      Emits none base tuz → tuz.openBytes = [] → tuz.behind t'.patch = r →
        EndsIn stagedAnswer (TuzTStream.decompressLoop M fuel (room - 1) (out ++ [b])) Q tuz t'
  /-- A copy, a line or the end of a clip. -/
  turn : base.openBytes = [] → ∀ x r tuz t',
    CodeReader.readStep fuel (base.behind t.patch) = some (x, r) → x.goesOn = true →
      Turns x.distances (x.skip r) base tuz t' →
        EndsIn stagedAnswer (TuzTStream.decompressLoop M fuel room out) Q tuz t'
  streamEnd : base.openBytes = [] → ∀ r tuz t',
    CodeReader.readStep fuel (base.behind t.patch) = some (.streamEnd, r) →
      Turns [] r base tuz t' → Q (some (.streamEnd, out)) tuz t'
  unknown : base.openBytes = [] → ∀ r r' tuz t' result,
    CodeReader.readStep fuel (base.behind t.patch) = some (.unknown, r) → Turns [] r' base tuz t' →
      result = .ctrlTypeUnknowError ∨ result = .readCodeError → Q (some (result, out)) tuz t'

variable {Q : Option (TuzResult × List UInt8) → TuzTStream → StagedState σ → Prop}

theorem Iteration.returns (hQ : Iteration M fuel room out self t Q) (hroom : ¬room ≠ 0)
    {tuz : TuzTStream} {t' : StagedState σ} (hbit : r.readBit = (self.behind t.patch).readBit)
    (hturns : Turns self.openBytes r self tuz t') :
    EndsIn stagedAnswer (TuzTStream.returnProcess out) Q tuz t' := by
  refine endsIn_get_bind (endsIn_pure ?_)
  refine hQ.full (not_not.1 hroom) r tuz t' _ hbit hturns ?_
  cases tuz.codeCache.successFinish with
  | true => exact .inl rfl
  | false => exact .inr rfl

/-- The length of a literal line. -/
theorem ReadsAt.line (h : ReadsAt base r self t) (hclosed : Closed base) (fuel : Nat) :
    EndsIn stagedAnswer (TuzTStream.startLiteralLine fuel) (fun x tuz t ↦ match x with
      | some _ => ∃ n r', CodeReader.readLine fuel r = some (n, r') ∧
        Turns (CodeStep.line n).distances ((CodeStep.line n).skip r') base tuz t
      | none => CodeReader.readLine fuel r = none ∧ tuz.accesses = base.accesses) self t := by
  have hline : CodeReader.readLine fuel r =
      (CodeReader.readLen 3 fuel 0 (r.setHaveData true)).bind fun x ↦
        some (x.1 + tuzKMinLiteralLen, x.2) := rfl
  refine endsIn_bind ((readsAs_haveData true base r self t h).mono fun x tuz t h ↦ ?_)
  obtain ⟨rfl, h⟩ := h
  refine endsIn_bind ((readsAs_len 3 fuel 0 base _ tuz t h).mono fun x tuz t h ↦ ?_)
  cases hlen : CodeReader.readLen 3 fuel 0 (r.setHaveData true) with
  | none =>
      rw [hlen] at h hline
      obtain ⟨rfl, h⟩ := h
      exact ⟨hline, h⟩
  | some y =>
      rw [hlen] at h hline
      obtain ⟨rfl, h⟩ := h
      exact ⟨_, _, hline, h.startLine hclosed _⟩

/-- One iteration of `tuz_TStream_decompress_partial`. -/
theorem Iteration.ends (hQ : Iteration M fuel room out self t Q) (h : Decoding self t) :
    EndsIn stagedAnswer (TuzTStream.decompressLoop M (fuel + 1) room out) Q self t := by
  have hself : Turns self.openBytes (self.behind t.patch) self self t := ⟨h, rfl, rfl, rfl, rfl⟩
  refine endsIn_get_bind ?_
  -- what is open goes on first: a copy, else a line
  by_cases hcopy : self.state.dictTypeLen ≠ 0
  · rw [if_pos hcopy]
    split
    case isTrue hne =>
      refine endsIn_bind ((h.copyByte hcopy).mono ?_)
      rintro _ tuz t' ⟨⟨b, rfl⟩, hdec, d, hemits, hopen, hbehind⟩
      exact hQ.put hne (some d) b tuz t' hdec hemits hopen hbehind
    case isFalse hne => exact hQ.returns hne rfl hself
  rw [if_neg hcopy]
  by_cases hline : self.state.literalTypeLen ≠ 0
  · rw [if_pos hline]
    split
    case isTrue hne =>
      refine endsIn_bind ((h.lineByte (not_not.1 hcopy) hline).mono ?_)
      rintro _ tuz t' ⟨⟨b, rfl⟩, _, rfl, hdec, hemits, hopen, hbehind⟩
      exact endsIn_modify_bind (hQ.put hne none b _ t' hdec hemits hopen hbehind)
    case isFalse hne => exact hQ.returns hne rfl hself
  rw [if_neg hline]
  have hclosed : Closed self := ⟨not_not.1 hcopy, not_not.1 hline⟩
  have hopen := hclosed.openBytes
  have hbehind := hclosed.behind t.patch
  -- nothing is open: the next bit is a type code
  refine readsAs_bit.andThen h.readsAt (fun hnone ↦ hQ.stop hopen ?_)
    fun codeType r₁ tuz t₁ hbit hat ↦ ?_
  · rw [hbehind]
    exact congrArg (Option.bind · _) hnone
  rw [← hbehind] at hbit
  by_cases htype : codeType = tuzCodeTypeDict
  · rw [if_pos htype]
    subst htype
    refine (readsAs_copy fuel).andThen hat
      (fun hnone ↦ hQ.stop hopen (CodeReader.readStep_of_copy_none hbit hnone))
      fun code r₂ tuz t₂ hcode hat ↦ ?_
    have hread := CodeReader.readStep_of_dict hbit hcode
    by_cases hpos : code.2 ≠ 0
    · rw [if_pos hpos]
      exact endsIn_modify_bind (hQ.turn hopen _ _ _ _
        (hread.trans (CodeReader.readControl_of_copy hpos)) rfl (hat.startCopy hclosed hpos _))
    rw [if_neg hpos]
    by_cases hctrl : code.1 = tuzCtrlTypeLiteralLine
    · rw [if_pos hctrl]
      refine endsIn_bind ((hat.line hclosed fuel).mono ?_)
      rintro (_ | _) tuz t' hline
      · exact hQ.stop hopen (hread.trans (CodeReader.readControl_of_line_none hpos hctrl hline.1))
          tuz t' hline.2
      · obtain ⟨n, r', hn, hturns⟩ := hline
        exact hQ.turn hopen _ _ _ _
          (hread.trans (CodeReader.readControl_of_line hpos hctrl hn)) rfl hturns
    rw [if_neg hctrl]
    -- the codes that end a clip or the stream, and those that do not exist
    have hclip := hread.trans (CodeReader.readControl_of_clip hpos hctrl)
    have hturns := hat.endClip.turns hclosed
    refine endsIn_modify_bind ?_
    by_cases hend : code.1 = tuzCtrlTypeClipEnd
    · rw [if_pos hend] at hclip ⊢
      exact hQ.turn hopen _ _ _ _ hclip rfl hturns
    rw [if_neg hend] at hclip ⊢
    by_cases hstream : code.1 = tuzCtrlTypeStreamEnd
    · rw [if_pos hstream] at hclip ⊢
      exact endsIn_pure (hQ.streamEnd hopen _ _ _ hclip hturns)
    · rw [if_neg hstream] at hclip ⊢
      refine endsIn_get_bind (endsIn_pure (hQ.unknown hopen _ _ _ _ _ hclip hturns ?_))
      cases tuz.endClip.codeCache.successFinish with
      | true => exact .inl rfl
      | false => exact .inr rfl
  · rw [if_neg htype]
    split
    case isTrue hne =>
      refine endsIn_bind ((hat.dataByte hclosed).mono ?_)
      rintro _ tuz t' ⟨⟨b, rfl⟩, _, rfl, hdec, hemits, hnone, hnext⟩
      exact endsIn_modify_bind (hQ.data hne hopen _ b _ t' (CodeReader.readStep_of_data hbit htype)
        hdec hemits hnone hnext)
    case isFalse hne =>
      refine endsIn_modify_bind (hQ.returns hne ?_ (hopen ▸ hat.pushBit hclosed))
      exact (CodeReader.readBit_push hbit htype).trans hbit.symm

/-! ## Staying inside -/

/-- The decoder has stayed inside its dictionary, and as long as it is `alive`, what it goes
on with stays inside as well. -/
structure Contained (alive : Prop) (tuz : TuzTStream) (t : StagedState σ) : Prop where
  decoding : Decoding tuz t
  inRange : tuz.AllInRange
  safe : alive → (tuz.behind t.patch).Safe tuz.dict.dictSize tuz.dict.dictCur tuz.openBytes

/-- What the decoder returns, `n` bytes at most, and what it is left with: on an error nothing
is known of what is still to come. -/
def Decoded (alive : Prop) (n : Nat) :
    Option (TuzResult × List UInt8) → TuzTStream → StagedState σ → Prop
  | some (.ok, out), tuz, t | some (.streamEnd, out), tuz, t =>
    out.length ≤ n ∧ Contained alive tuz t
  | some (.ctrlTypeUnknowError, _), tuz, t | some (.readCodeError, _), tuz, t =>
    Contained False tuz t
  | none, tuz, _ => tuz.AllInRange

variable {alive : Prop}

omit [FlashBackend σ] in
theorem Contained.dead (h : Contained alive self t) : Contained False self t :=
  ⟨h.decoding, h.inRange, False.elim⟩

omit [FlashBackend σ] in
theorem Contained.turns (h : Contained alive self t) {step : List (Option UInt32)}
    {tuz : TuzTStream} {t' : StagedState σ} (hturns : Turns step r self tuz t')
    (hsafe : alive → r.Safe self.dict.dictSize self.dict.dictCur step) :
    Contained alive tuz t' := by
  refine ⟨hturns.decoding, ?_, fun halive ↦ ?_⟩
  · unfold TuzTStream.AllInRange
    rw [hturns.accesses]
    exact h.inRange
  · rw [hturns.behind, hturns.openBytes, hturns.dict]
    exact hsafe halive

omit [FlashBackend σ] in
/-- A byte of output, in front of what is safe behind it. -/
theorem Contained.emits (h : Contained alive self t) {x : Option UInt32}
    {tuz : TuzTStream} {t' : StagedState σ} (hdec : Decoding tuz t') (hemits : Emits x self tuz)
    (hsafe : (tuz.behind t'.patch).Safe self.dict.dictSize self.dict.dictCur
      (x :: tuz.openBytes)) : Contained alive tuz t' := by
  obtain ⟨hreaches, hnext⟩ := hsafe.tail
  refine ⟨hdec, hemits.allInRange.2 ⟨h.inRange, hreaches⟩, fun _ ↦ ?_⟩
  rw [hemits.dictSize, hemits.dictCur]
  exact hnext

/-- In whatever pieces the output is asked for, the accesses stay inside the dictionary. -/
theorem Contained.decompressLoop (h : Contained alive self t) (hroom : room ≠ 0 → alive) {n : Nat}
    (hn : out.length + room ≤ n) :
    EndsIn stagedAnswer (TuzTStream.decompressLoop M fuel room out) (Decoded alive n) self t := by
  induction fuel generalizing room out self t with
  | zero => exact endsIn_stop h.inRange
  | succ fuel ih =>
      have hle : out.length ≤ n := Nat.le_trans (Nat.le_add_right _ _) hn
      -- a byte more in the output, with that much less room
      have hput : ∀ x : UInt8, room ≠ 0 → (out ++ [x]).length + (room - 1) ≤ n := by
        intro x hne
        rw [List.length_append, List.length_singleton]
        omega
      have hroom' : room - 1 ≠ 0 → alive := fun hne ↦ hroom fun h0 ↦ hne (by rw [h0])
      have hsafe : self.openBytes = [] → alive →
          (self.behind t.patch).Safe self.dict.dictSize self.dict.dictCur [] :=
        fun hopen halive ↦ hopen ▸ h.safe halive
      refine Iteration.ends ?_ h.decoding
      constructor
      case stop =>
        intro _ _ tuz t' hacc a ha
        exact h.inRange a (hacc ▸ ha)
      case full =>
        intro _ r tuz t' result hbit hturns hresult
        have hnext := h.turns hturns fun halive ↦ (h.safe halive).congr hbit
        rcases hresult with rfl | rfl
        · exact ⟨hle, hnext⟩
        · exact hnext.dead
      case put =>
        intro hne x b tuz t' hdec hemits hopen hbehind
        refine ih (h.emits hdec hemits ?_) hroom' (hput b hne)
        rw [hbehind, ← hopen]
        exact h.safe (hroom hne)
      case data =>
        intro hne hopen r b tuz t' hread hdec hemits hnone hbehind
        refine ih (h.emits hdec hemits ?_) hroom' (hput b hne)
        rw [hbehind, hnone]
        exact (hsafe hopen (hroom hne)).step hread rfl
      case turn =>
        intro hopen x r tuz t' hread hgoes hturns
        refine ih (h.turns hturns fun halive ↦ ?_) hroom hn
        refine (hsafe hopen halive).step hread ?_
        cases x with
        | unknown => cases hgoes
        | _ => rfl
      case streamEnd =>
        intro hopen r tuz t' hread hturns
        exact ⟨hle, h.turns hturns fun halive ↦ (hsafe hopen halive).step hread rfl⟩
      case unknown =>
        intro hopen r r' tuz t' result hread hturns hresult
        have hdead : Contained False tuz t' := h.dead.turns hturns False.elim
        rcases hresult with rfl | rfl
        · exact hdead
        · exact hdead

/-! ## Reaching -/

/-- What a run of the loop with room for `room` bytes leaves behind: if all accesses have been
inside the dictionary, the first distances that are read stay inside of it. -/
def Reached (self : TuzTStream) (t : StagedState σ) (fuel room : Nat)
    (a : Option (TuzResult × List UInt8)) (tuz : TuzTStream) (t' : StagedState σ) : Prop :=
  (a ≠ none → Decoding tuz t') ∧ (tuz.AllInRange → self.AllInRange ∧ ∀ n, n + room ≤ fuel →
    AllReach self.dict.dictSize self.dict.dictCur
      ((self.openBytes ++ (self.behind t.patch).firstDistances n).take room))

/-- With enough fuel, the loop gets to all the bytes that it has room for. -/
theorem Decoding.reached (h : Decoding self t) :
    EndsIn stagedAnswer (TuzTStream.decompressLoop M fuel room out) (Reached self t fuel room)
      self t := by
  induction fuel generalizing room out self t with
  | zero =>
      refine endsIn_stop ⟨fun hne ↦ absurd rfl hne, fun hin ↦ ⟨hin, fun n hn ↦ ?_⟩⟩
      rw [show room = 0 by omega]
      exact trivial
  | succ fuel ih =>
      -- where a type code ends the run, nothing more is read of the first distances
      have hends : ∀ {x r}, CodeReader.readStep fuel (self.behind t.patch) = some (x, r) →
          x.goesOn = false → self.openBytes = [] → ∀ n, n + room ≤ fuel + 1 →
            AllReach self.dict.dictSize self.dict.dictCur
              ((self.openBytes ++ (self.behind t.patch).firstDistances n).take room) := by
        intro x r hread hx hopen n hn
        rw [hopen, List.nil_append]
        refine CodeReader.allReach_firstDistances hread (Nat.le_trans (Nat.le_add_right n room) hn)
          fun hgoes ↦ ?_
        rw [hx] at hgoes
        cases hgoes
      refine Iteration.ends ?_ h
      constructor
      case stop =>
        intro hopen hread tuz t' hacc
        refine ⟨fun hne ↦ absurd rfl hne, fun hin ↦ ⟨fun a ha ↦ hin a (hacc ▸ ha), fun n hn ↦ ?_⟩⟩
        rw [hopen, CodeReader.firstDistances,
          CodeReader.distancesWhile_of_none _ (by omega) hread, List.append_nil, List.take_nil]
        exact trivial
      case full =>
        intro hzero r tuz t' result _ hturns _
        refine ⟨fun _ ↦ hturns.decoding, fun hin ↦ ⟨fun a ha ↦ hin a (hturns.accesses ▸ ha),
          fun n hn ↦ ?_⟩⟩
        rw [hzero]
        exact trivial
      case put =>
        intro hne x b tuz t' hdec hemits hopen hbehind
        refine (ih hdec).mono fun a tuz' t'' hreached ↦ ⟨hreached.1, fun hin ↦ ?_⟩
        obtain ⟨hmid, hrest⟩ := hreached.2 hin
        obtain ⟨hself, hx⟩ := hemits.allInRange.1 hmid
        refine ⟨hself, fun n hn ↦ ?_⟩
        have hnext := hrest n (by omega)
        rw [hemits.dictSize, hemits.dictCur, hbehind] at hnext
        obtain ⟨k, rfl⟩ := Nat.exists_eq_succ_of_ne_zero hne
        rw [hopen]
        exact ⟨hx, hnext⟩
      case data =>
        intro hne hopen r b tuz t' hread hdec hemits hnone hbehind
        refine (ih hdec).mono fun a tuz' t'' hreached ↦ ⟨hreached.1, fun hin ↦ ?_⟩
        obtain ⟨hmid, hrest⟩ := hreached.2 hin
        obtain ⟨hself, hx⟩ := hemits.allInRange.1 hmid
        refine ⟨hself, fun n hn ↦ ?_⟩
        rw [hopen, List.nil_append]
        refine CodeReader.allReach_firstDistances hread (Nat.le_trans (Nat.le_add_right n room) hn)
          fun _ k hk ↦ ?_
        have hnext := hrest k (by omega)
        rw [hemits.dictSize, hemits.dictCur, hbehind, hnone] at hnext
        obtain ⟨room, rfl⟩ := Nat.exists_eq_succ_of_ne_zero hne
        exact ⟨hx, hnext⟩
      case turn =>
        intro hopen x r tuz t' hread _ hturns
        refine (ih hturns.decoding).mono fun a tuz' t'' hreached ↦ ⟨hreached.1, fun hin ↦ ?_⟩
        obtain ⟨hmid, hrest⟩ := hreached.2 hin
        refine ⟨fun a ha ↦ hmid a (hturns.accesses ▸ ha), fun n hn ↦ ?_⟩
        rw [hopen, List.nil_append]
        refine CodeReader.allReach_firstDistances hread (Nat.le_trans (Nat.le_add_right n room) hn)
          fun _ k hk ↦ ?_
        have hnext := hrest k (by omega)
        rw [hturns.dict, hturns.openBytes, hturns.behind] at hnext
        exact hnext
      case streamEnd =>
        intro hopen r tuz t' hread hturns
        exact ⟨fun _ ↦ hturns.decoding, fun hin ↦ ⟨fun a ha ↦ hin a (hturns.accesses ▸ ha),
          hends hread rfl hopen⟩⟩
      case unknown =>
        intro hopen r r' tuz t' result hread hturns _
        exact ⟨fun _ ↦ hturns.decoding, fun hin ↦ ⟨fun a ha ↦ hin a (hturns.accesses ▸ ha),
          hends hread rfl hopen⟩⟩

/-! ## Patching -/

/-- The output unless the result is an error. -/
def TuzResult.taken : TuzResult × List UInt8 → Option (List UInt8)
  | (.ok, out) | (.streamEnd, out) => some out
  | (.ctrlTypeUnknowError, _) | (.readCodeError, _) => none

theorem endsIn_decompress {n : Nat}
    {Q : Option (Option (List UInt8)) → TuzTStream → StagedState σ → Prop}
    (h : EndsIn stagedAnswer (TuzTStream.decompressLoop M fuel n [])
      (fun a tuz t ↦ Q (a.map TuzResult.taken) tuz t) self t) :
    EndsIn stagedAnswer (TuzTStream.decompress M fuel n) Q self t := by
  refine endsIn_bind (h.mono ?_)
  rintro (_ | ⟨_ | _ | _ | _, out⟩) tuz t h
  · exact h
  · exact h
  · exact h
  · exact h
  · exact h

theorem endsIn_readDiff {n : Nat}
    {Q : Option (Option (List UInt8)) → DiffData → StagedState σ → Prop}
    (h : EndsIn stagedAnswer (TuzTStream.decompress M fuel n)
      (fun a tuz t ↦ Q a (some tuz) t) self t) :
    EndsIn stagedAnswer (readDiff M fuel n) Q (some self) t := by
  unfold EndsIn readDiff
  rw [Calls.run_bind]
  exact h

/-- What holds of the decoder under a cache of this size; `raw` where there is none. -/
def Under (raw : Prop) (J : Nat → TuzTStream → StagedState σ → Prop) (cache : InputCache DiffData)
    (t : StagedState σ) : Prop :=
  match cache.inputStream with
  | none => raw
  | some tuz => J cache.cacheEnd tuz t

/-- What is left of it at the end. -/
def LeftUnder (raw : Prop) (L : TuzTStream → Prop) : DiffData → Prop
  | none => raw
  | some tuz => L tuz

/-- The size of the cache behind an update, and what then holds of the decoder. -/
def Updated (J : Nat → TuzTStream → StagedState σ → Prop) (L : TuzTStream → Prop) :
    Option (Option (List UInt8)) → TuzTStream → StagedState σ → Prop
  | some data, tuz, t => J (data.getD []).length tuz t
  | none, tuz, _ => L tuz

section Under

variable {raw : Prop} {J : Nat → TuzTStream → StagedState σ → Prop} {L : TuzTStream → Prop}

theorem endsIn_update {cache : InputCache DiffData} (hraw : cache.inputStream = none → raw)
    (h : ∀ self, cache.inputStream = some self →
      EndsIn stagedAnswer (TuzTStream.decompressLoop M fuel cache.cacheEnd [])
        (fun a ↦ Updated J L (a.map TuzResult.taken)) self t) :
    EndsIn stagedAnswer (InputCache.update (readDiff M fuel))
      (Kept (Under raw J) fun cache _ ↦ LeftUnder raw L cache.inputStream) cache t := by
  refine endsIn_get_bind (endsIn_bind (endsIn_zoom ?_))
  cases hstream : cache.inputStream with
  | none => exact hraw hstream
  | some self =>
      refine endsIn_readDiff ((endsIn_decompress (Q := Updated J L) (h self hstream)).mono ?_)
      rintro (_ | data) tuz t h
      · exact h
      · exact h

theorem diffInvariant_under (hstop : ∀ n tuz t, J n tuz t → L tuz)
    (hsame : ∀ n tuz t t', t'.patch = t.patch → J n tuz t → J n tuz t')
    (hloop : ∀ n self t, J n self t → EndsIn stagedAnswer (TuzTStream.decompressLoop M fuel n [])
      (fun a ↦ Updated J L (a.map TuzResult.taken)) self t) :
    DiffInvariant M fuel stagedAnswer (Under raw J)
      (fun cache _ ↦ LeftUnder raw L cache.inputStream) where
  stop cache t h := by
    unfold Under at h
    cases hstream : cache.inputStream with
    | none => exact (hstream ▸ h :)
    | some tuz =>
        rw [hstream] at h
        exact hstop _ tuz t h
  update cache t h := by
    unfold Under at h
    refine endsIn_update (fun hnone ↦ ?_) fun self hself ↦ ?_
    · rw [hnone] at h
      exact h
    · rw [hself] at h
      exact hloop _ self t h
  unread _ _ _ h := h
  old _ _ _ _ h := h
  new cache data t h := by
    unfold Under at h ⊢
    cases hstream : cache.inputStream with
    | none =>
        rw [hstream] at h
        exact h
    | some tuz =>
        rw [hstream] at h
        exact hsame _ tuz t _ rfl h

/-- Where the decoder ends under `hpatch_lite_patch`. -/
theorem left_hpatchLitePatchFrom
    (hinv : DiffInvariant M fuel stagedAnswer (Under raw J)
      (fun cache _ ↦ LeftUnder raw L cache.inputStream)) {newSize : UInt32} {diffData : DiffData}
    (h : EndsIn stagedAnswer (hpatchLitePatch M fuel newSize)
      (Kept (Under raw J) fun cache _ ↦ LeftUnder raw L cache.inputStream)
      (.start (deltaPatchCacheSize / 2) diffData) t) :
    LeftUnder raw L ((hpatchLitePatchFrom M fuel newSize diffData).run stagedAnswer t).1.2 := by
  have hleft : EndsIn stagedAnswer (hpatchLitePatch M fuel newSize)
      (fun _ cache _ ↦ LeftUnder raw L cache.inputStream)
      (.start (deltaPatchCacheSize / 2) diffData) t := h.mono fun ok cache t h ↦ by
    cases ok with
    | none => exact h
    | some ok => exact hinv.stop cache t h
  unfold hpatchLitePatchFrom
  rw [Calls.run_bind]
  exact hleft

end Under

omit [FlashBackend σ] in
theorem Decoding.same {t' : StagedState σ} (h : Decoding self t) (hpatch : t'.patch = t.patch) :
    Decoding self t' := ⟨fun hend ↦ hpatch.trans (h.supplied hend), h.copy⟩

/-- The decoder has stayed inside, and is asked no more once it has given nothing. -/
theorem diffInvariant_contained (M : PatchMemory) (fuel : Nat) :
    DiffInvariant M fuel stagedAnswer
      (Under (σ := σ) True fun n tuz t ↦ Contained (n ≠ 0) tuz t)
      (fun cache _ ↦ LeftUnder True TuzTStream.AllInRange cache.inputStream) := by
  refine diffInvariant_under (fun _ _ _ h ↦ h.inRange) (fun n tuz t t' hpatch h ↦ ?_) ?_
  · refine ⟨h.decoding.same hpatch, h.inRange, fun hn ↦ ?_⟩
    rw [hpatch]
    exact h.safe hn
  · intro n self t h
    have hle : ([] : List UInt8).length + n ≤ n := Nat.le_of_eq (Nat.zero_add n)
    refine (h.decompressLoop id hle).mono ?_
    rintro (_ | ⟨_ | _ | _ | _, out⟩) tuz t h
    · exact h
    · exact ⟨h.2.decoding, h.2.inRange, fun hne ↦ h.2.safe fun h0 ↦
        hne (Nat.le_zero.1 (h0 ▸ h.1))⟩
    · exact ⟨h.2.decoding, h.2.inRange, fun hne ↦ h.2.safe fun h0 ↦
        hne (Nat.le_zero.1 (h0 ▸ h.1))⟩
    · exact ⟨h.decoding, h.inRange, fun hne ↦ absurd rfl hne⟩
    · exact ⟨h.decoding, h.inRange, fun hne ↦ absurd rfl hne⟩

/-- What the accesses so far have shown, they show to the end. -/
theorem diffInvariant_reached (M : PatchMemory) (fuel : Nat) (X : Prop) :
    DiffInvariant M fuel stagedAnswer
      (Under (σ := σ) False fun _ tuz t ↦ Decoding tuz t ∧ (tuz.AllInRange → X))
      (fun cache _ ↦ LeftUnder False (fun tuz ↦ tuz.AllInRange → X) cache.inputStream) := by
  refine diffInvariant_under (fun _ _ _ h ↦ h.2) (fun n tuz t t' hpatch h ↦
    ⟨h.1.same hpatch, h.2⟩) ?_
  intro n self t h
  refine h.1.reached.mono ?_
  rintro (_ | ⟨_ | _ | _ | _, out⟩) tuz t hreached
  · exact fun hin ↦ h.2 (hreached.2 hin).1
  · exact ⟨hreached.1 nofun, fun hin ↦ h.2 (hreached.2 hin).1⟩
  · exact ⟨hreached.1 nofun, fun hin ↦ h.2 (hreached.2 hin).1⟩
  · exact ⟨hreached.1 nofun, fun hin ↦ h.2 (hreached.2 hin).1⟩
  · exact ⟨hreached.1 nofun, fun hin ↦ h.2 (hreached.2 hin).1⟩

/-- The first update of the cache asks for as many bytes as it holds. -/
theorem Decoding.hpatchLitePatch (h : Decoding self t) {n : Nat}
    (hn : n + deltaPatchCacheSize / 2 ≤ fuel) (newSize : UInt32) :
    LeftUnder False (fun tuz ↦ tuz.AllInRange →
      AllReach self.dict.dictSize self.dict.dictCur
        ((self.openBytes ++ (self.behind t.patch).firstDistances n).take
          (deltaPatchCacheSize / 2)))
      ((hpatchLitePatchFrom M fuel newSize (some self)).run stagedAnswer t).1.2 := by
  generalize hX : AllReach self.dict.dictSize self.dict.dictCur _ = X
  have hinv := diffInvariant_reached (σ := σ) M fuel X
  refine left_hpatchLitePatchFrom hinv ?_
  have hupdate : EndsIn stagedAnswer (InputCache.update (readDiff M fuel))
      (Kept (Under False fun _ tuz t ↦ Decoding tuz t ∧ (tuz.AllInRange → X))
        fun cache _ ↦ LeftUnder False (fun tuz ↦ tuz.AllInRange → X) cache.inputStream)
      (.start (deltaPatchCacheSize / 2) (some self)) t := by
    refine endsIn_update nofun fun self' hself' ↦ ?_
    obtain rfl := Option.some.inj hself'
    refine h.reached.mono fun a tuz t hreached ↦ ?_
    have hall : tuz.AllInRange → X := fun hin ↦ hX ▸ (hreached.2 hin).2 n hn
    rcases a with _ | ⟨_ | _ | _ | _, out⟩
    · exact hall
    · exact ⟨hreached.1 nofun, hall⟩
    · exact ⟨hreached.1 nofun, hall⟩
    · exact ⟨hreached.1 nofun, hall⟩
    · exact ⟨hreached.1 nofun, hall⟩
  obtain ⟨fuel, rfl⟩ : ∃ k, fuel = k + 1 := Nat.exists_eq_succ_of_ne_zero fun h0 ↦
    absurd (h0 ▸ hn) (Nat.not_le.2 (Nat.lt_of_lt_of_le (by decide) (Nat.le_add_left _ n)))
  -- the first byte of the number of covers
  have hread : EndsIn stagedAnswer (diffRead1byte M (fuel + 1))
      (Kept (Under False fun _ tuz t ↦ Decoding tuz t ∧ (tuz.AllInRange → X))
        fun cache _ ↦ LeftUnder False (fun tuz ↦ tuz.AllInRange → X) cache.inputStream)
      (.start (deltaPatchCacheSize / 2) (some self)) t := by
    refine EndsIn.bind_keeps (endsIn_get_bind (hupdate.bind_keeps fun ok ↦ ?_))
      fun _ ↦ keepsIn_pure _
    split
    · exact hinv.keepsIn_takeByte
    · exact keepsIn_pure _
  refine (hread.bind_keeps fun b ↦ hinv.keepsIn_cacheUnpackUInt _ _ _).bind_keeps fun count ↦ ?_
  refine (hinv.keepsIn_patchCovers _ _ _).bind fun newPosBack ↦ ?_
  split
  · exact keepsIn_pure _
  · exact keepsIn_get_bind fun _ _ hI ↦ endsIn_pure hI

/-- A compressed diff: the size of the dictionary, one that is taken, and the code. -/
inductive TuzBody (dictSize : UInt32) (code : List UInt8) : List UInt8 → Prop
  | mk {b₀ b₁ b₂ b₃ : UInt8} (hsize : le32 b₀ b₁ b₂ b₃ = dictSize) (hpos : 0 < dictSize)
      (hmax : dictSize ≤ deltaTuzDictMax) :
      TuzBody dictSize code (b₀ :: b₁ :: b₂ :: b₃ :: code)

theorem TuzBody.taken {dictSize : UInt32} {code body : List UInt8}
    (h : TuzBody dictSize code body) :
    ∃ b₀ b₁ b₂ b₃ code, body = b₀ :: b₁ :: b₂ :: b₃ :: code ∧
      le32 b₀ b₁ b₂ b₃ ≤ deltaTuzDictMax := by
  cases h with
  | mk hsize _ hmax => exact ⟨_, _, _, _, _, rfl, hsize ▸ hmax⟩

/-- The first distances of the code, up to the end of what HPatchLite asks for at first, stay
inside the dictionary. -/
def FirstDistancesReach (dictSize : UInt32) (code : List UInt8) : Prop :=
  ∀ n, AllReach dictSize 0 (((CodeReader.start code).firstDistances n).take
    (deltaPatchCacheSize / 2))

/-- The stream that `tuz_TStream_open` makes of a dictionary of this size. -/
def openedStream (M : PatchMemory) {dictSize : UInt32} (hpos : 0 < dictSize) : TuzTStream where
  codeCache := .start deltaTuzDecBuf ()
  dict := ⟨0, dictSize, M.dictBuf, hpos⟩
  state := ⟨0, 1, 0, 0, 0, 0, false⟩
  accesses := []

omit [FlashBackend σ] in
theorem decoding_openedStream {dictSize : UInt32} (hpos : 0 < dictSize) :
    Decoding (openedStream M hpos) t :=
  ⟨fun h0 ↦ absurd h0 (show deltaTuzDecBuf ≠ 0 by decide), fun hopen ↦ absurd rfl hopen⟩

/-- On a compressed diff, `hpatch_lite_patch` runs over the stream. -/
theorem deltaRunPatchTrace_tuzBody {dictSize : UInt32} {code body : List UInt8}
    (h : TuzBody dictSize code body) (newSize : UInt32) (listener : DeltaListener) (dev : σ) :
    ∃ hpos : 0 < dictSize,
      ((deltaRunPatchTrace M fuel hpiCompressTypeTuz newSize).run stagedAnswer
        ⟨listener, body, dev⟩).1.2 =
          DiffData.accesses ((hpatchLitePatchFrom M fuel newSize (some (openedStream M hpos))).run
            stagedAnswer ⟨listener, code, dev⟩).1.2 := by
  obtain @⟨b₀, b₁, b₂, b₃, hsize, hpos, hmax⟩ := h
  refine ⟨hpos, ?_⟩
  obtain ⟨hkept, hallowed⟩ := dictSize_kept hpos hmax
  have hread : tuzTStreamReadDictSize.run stagedAnswer
      ⟨listener, b₀ :: b₁ :: b₂ :: b₃ :: code, dev⟩ =
        (some dictSize, (⟨listener, code, dev⟩ : StagedState σ)) := by
    have hrun : tuzTStreamReadDictSize.run stagedAnswer
        ⟨listener, b₀ :: b₁ :: b₂ :: b₃ :: code, dev⟩ =
          (if le32 b₀ b₁ b₂ b₃ > 0 then some (le32 b₀ b₁ b₂ b₃) else none,
            (⟨listener, code, dev⟩ : StagedState σ)) := rfl
    rw [hrun, hsize, if_pos hpos]
  have hstart : TuzTStream.start M dictSize deltaTuzDecBuf = some (openedStream M hpos) :=
    dif_pos hpos
  unfold deltaRunPatchTrace
  rw [if_pos rfl, Calls.run_bind, hread]
  dsimp only
  rw [if_neg hkept, if_neg hallowed, hstart]
  dsimp only
  rw [Calls.run_bind]
  rfl

theorem allInRange_of_left {diffData : DiffData}
    (h : LeftUnder True TuzTStream.AllInRange diffData) :
    ∀ a ∈ DiffData.accesses diffData, a.InRange := by
  cases diffData with
  | none => exact nofun
  | some tuz => exact h

/-- Compressed code whose distances stay inside the dictionary. -/
theorem TuzBody.inRange {dictSize : UInt32} {code body : List UInt8}
    (h : TuzBody dictSize code body)
    (hreach : DistancesReach dictSize code) (newSize : UInt32) (listener : DeltaListener)
    (dev : σ) : ∀ a ∈ ((deltaRunPatchTrace M fuel hpiCompressTypeTuz newSize).run stagedAnswer
      ⟨listener, body, dev⟩).1.2, a.InRange := by
  obtain ⟨hpos, hrun⟩ := deltaRunPatchTrace_tuzBody (M := M) h newSize listener dev
  rw [hrun]
  have hstart : Contained (deltaPatchCacheSize / 2 ≠ 0) (openedStream M hpos)
      ⟨listener, code, dev⟩ :=
    ⟨decoding_openedStream hpos, nofun, fun _ ↦ ⟨0, fun n _ ↦ hreach n⟩⟩
  have hinv := diffInvariant_contained (σ := σ) M fuel
  have hleft := left_hpatchLitePatchFrom hinv (hinv.keepsIn_hpatchLitePatch newSize
    (.start (deltaPatchCacheSize / 2) (some (openedStream M hpos))) ⟨listener, code, dev⟩ hstart)
  exact allInRange_of_left hleft

/-- Compressed code that stays inside the dictionary has its first distances there. -/
theorem TuzBody.reach {dictSize : UInt32} {code body : List UInt8} (h : TuzBody dictSize code body)
    (newSize : UInt32) (listener : DeltaListener) (dev : σ) (hin : ∀ fuel, ∀ a ∈
      ((deltaRunPatchTrace M fuel hpiCompressTypeTuz newSize).run stagedAnswer
        ⟨listener, body, dev⟩).1.2, a.InRange) : FirstDistancesReach dictSize code := by
  intro n
  obtain ⟨fuel, hn⟩ : ∃ fuel, n + deltaPatchCacheSize / 2 ≤ fuel := ⟨_, Nat.le_refl _⟩
  have hall := hin fuel
  obtain ⟨hpos, hrun⟩ := deltaRunPatchTrace_tuzBody (M := M) h newSize listener dev
  rw [hrun] at hall
  have hstart : Decoding (openedStream M hpos) (⟨listener, code, dev⟩ : StagedState σ) :=
    decoding_openedStream hpos
  have hleft := hstart.hpatchLitePatch (M := M) hn newSize
  generalize ((hpatchLitePatchFrom M fuel newSize _).run stagedAnswer
    (⟨listener, code, dev⟩ : StagedState σ)).1.2 = diffData at hleft hall
  cases diffData with
  | none => exact hleft.elim
  | some tuz => exact hleft hall

/-- What is read of the size of the dictionary. -/
theorem readDictSize_staged (listener : DeltaListener) (body : List UInt8) (dev : σ) :
    ∃ v t, tuzTStreamReadDictSize.run stagedAnswer ⟨listener, body, dev⟩ = (v, t) ∧
      ∀ dictSize, v = some dictSize → 0 < dictSize → dictSize ≤ deltaTuzDictMax →
        TuzBody dictSize t.patch body := by
  match body with
  | [] | [_] | [_, _] | [_, _, _] =>
      exact ⟨_, _, rfl, fun dictSize hv hpos _ ↦ absurd (Option.some.inj hv ▸ hpos)
        (UInt32.lt_irrefl 0)⟩
  | b₀ :: b₁ :: b₂ :: b₃ :: code =>
      refine ⟨_, _, rfl, fun dictSize hv hpos hmax ↦ ?_⟩
      refine .mk ?_ hpos hmax
      have hsaved : (if le32 b₀ b₁ b₂ b₃ > 0 then some (le32 b₀ b₁ b₂ b₃) else none) =
        some dictSize := hv
      split at hsaved
      · exact Option.some.inj hsaved
      · cases hsaved

/-- The accesses stay inside the dictionary where the distances of compressed code do. -/
theorem inRange_deltaRunPatchTrace (ct : UInt8) (newSize : UInt32) (listener : DeltaListener)
    (body : List UInt8) (dev : σ) (h : ct = hpiCompressTypeTuz → ∀ dictSize code,
      TuzBody dictSize code body → DistancesReach dictSize code) :
    ∀ a ∈ ((deltaRunPatchTrace M fuel ct newSize).run stagedAnswer ⟨listener, body, dev⟩).1.2,
      a.InRange := by
  by_cases htuz : ct = hpiCompressTypeTuz
  · subst htuz
    by_cases hbody : ∃ dictSize code, TuzBody dictSize code body
    · obtain ⟨dictSize, code, hbody⟩ := hbody
      exact hbody.inRange (h rfl dictSize code hbody) newSize listener dev
    · -- the size of the dictionary is refused
      obtain ⟨v, t, hrun, hv⟩ := readDictSize_staged listener body dev
      unfold deltaRunPatchTrace
      rw [if_pos rfl, Calls.run_bind, hrun]
      cases v with
      | none => exact nofun
      | some v =>
          have hrefused : (if v - 1 ≥ tuzKMaxOfDictSize then 0 else v) = 0 ∨
              (if v - 1 ≥ tuzKMaxOfDictSize then 0 else v) > deltaTuzDictMax := by
            split
            · exact .inl rfl
            · refine or_iff_not_imp_left.2 fun hzero ↦ UInt32.not_le.1 fun hmax ↦ ?_
              have hpos : 0 < v := by
                rw [UInt32.lt_iff_toNat_lt]
                exact Nat.pos_of_ne_zero fun h0 ↦ hzero (UInt32.toNat_inj.1 h0)
              exact hbody ⟨v, _, hv v rfl hpos hmax⟩
          dsimp only
          rw [if_pos hrefused]
          exact nofun
  · unfold deltaRunPatchTrace
    rw [if_neg htuz]
    split_ifs with hno
    · exact nofun
    · rw [Calls.run_bind]
      have hinv := diffInvariant_contained (σ := σ) M fuel
      exact allInRange_of_left (left_hpatchLitePatchFrom hinv
        (hinv.keepsIn_hpatchLitePatch newSize _ _ trivial))

/-- A diff that is not taken. -/
theorem result_deltaRunPatchTrace {ct : UInt8} {body : List UInt8} (M : PatchMemory) (fuel : Nat)
    (newSize : UInt32) (listener : DeltaListener) (dev : σ) (h : ¬BodyTaken ct body) :
    ((deltaRunPatchTrace M fuel ct newSize).run stagedAnswer ⟨listener, body, dev⟩).1.1 =
      some false := by
  obtain ⟨hno, htaken⟩ := not_or.1 h
  unfold deltaRunPatchTrace
  by_cases htuz : ct = hpiCompressTypeTuz
  · rw [if_pos htuz, Calls.run_bind]
    match body with
    | [] | [_] | [_, _] | [_, _, _] => rfl
    | b₀ :: b₁ :: b₂ :: b₃ :: code =>
        have hlarge : le32 b₀ b₁ b₂ b₃ > deltaTuzDictMax := UInt32.not_le.1 fun hle ↦
          htaken ⟨htuz, _, _, _, _, _, rfl, hle⟩
        have hpos : le32 b₀ b₁ b₂ b₃ > 0 := UInt32.lt_of_le_of_lt UInt32.zero_le hlarge
        have hread : (tuzTStreamReadDictSize.run stagedAnswer
            ⟨listener, b₀ :: b₁ :: b₂ :: b₃ :: code, dev⟩).1 = some (le32 b₀ b₁ b₂ b₃) :=
          if_pos hpos
        rw [hread]
        dsimp only
        have hrefused : (if le32 b₀ b₁ b₂ b₃ - 1 ≥ tuzKMaxOfDictSize then 0
              else le32 b₀ b₁ b₂ b₃) = 0 ∨
            (if le32 b₀ b₁ b₂ b₃ - 1 ≥ tuzKMaxOfDictSize then 0
              else le32 b₀ b₁ b₂ b₃) > deltaTuzDictMax := by
          split
          · exact .inl rfl
          · exact .inr hlarge
        rw [if_pos hrefused]
        rfl
  · rw [if_neg htuz, if_pos hno]
    rfl

end Staged

end DualBank
