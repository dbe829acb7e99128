import DualBank.Patch.Expanded

/-!
# The loop of tinyuz

What `tuz_TStream_decompress_partial` returns on code of the format: one lemma for each thing
that a step can start with, an open copy, an open line, or a token.
-/

namespace DualBank

open Lib Stateful InputCache Bits

namespace TuzTStream

section Expanding

variable {T : Type} {answer : (op : PatchOp) → T → op.Res × T} {Src : List UInt8 → Unit → T → Prop}
  {bound : Nat} {hist rest line : List UInt8} {tokens : List TuzToken} {items : List TuzItem}
  {base self : TuzTStream} {t : T}

/-! ## Tokens -/

/-- Where nothing is open, the tokens and their code are all there is. -/
theorem live_of_closed (hcopy : self.state.dictTypeLen = 0) (hline : self.state.literalTypeLen = 0)
    (hholds : self.dict.Holds hist)
    (hcode : TuzCode self.state.isHaveDataBack self.state.dictPosBack.toNat tokens items)
    (hreaches : TuzReaches self.dict.dictSize.toNat hist tokens)
    (hbound : items.length + (tuzExpand hist tokens).length < bound)
    (hrest : (tuzExpand hist tokens).length < 2 ^ 32) :
    Live bound hist (tuzExpand hist tokens) [] tokens items self := by
  have hnone : self.openCopy hist = [] := openCopy_of_zero hcopy
  refine ⟨hholds, fun h ↦ absurd hcopy h, ?_, hcode, ?_, ?_, ?_, hrest⟩
  · rw [hline]
    rfl
  · rw [hnone, List.append_nil, List.append_nil]
    exact hreaches
  · rw [hnone, List.append_nil, List.append_nil, List.nil_append, List.nil_append]
  · rw [List.length_nil, Nat.zero_add]
    exact hbound

/-- The stream behind the type code of a copy or a control. -/
def noData (tuz : TuzTStream) : TuzTStream :=
  { tuz with state := { tuz.state with isHaveDataBack := false } }

/-- The stream in front of a line of this length. -/
def startLine (length : UInt32) (tuz : TuzTStream) : TuzTStream :=
  { tuz with state := { tuz.state with literalTypeLen := length } }

theorem blind_startLine (length : UInt32) : Blind (startLine length) where
  same h := ⟨h.dict, h.dictTypePos, h.dictPosBack, h.dictTypeLen, rfl, h.isHaveDataBack⟩
  codeCache _ := rfl
  types _ := rfl
  typeCount _ := rfl

theorem blind_startCopy (savedLen savedDictPos : UInt32) :
    Blind (startCopy savedLen savedDictPos) where
  same h := ⟨h.dict, congrArg (fun dict : TuzDict ↦ dict.dictSize - savedDictPos) h.dict,
    rfl, rfl, h.literalTypeLen, h.isHaveDataBack⟩
  codeCache _ := rfl
  types _ := rfl
  typeCount _ := rfl

/-- Starting over with the bits. -/
theorem CodeAt.endClip (h : CodeAt Src base (.reset :: items) self t) :
    CodeAt Src base.endClip items self.endClip t := by
  obtain ⟨hsame, pend, bytes, hpres, htypes, hcount, hle, hat⟩ := h
  cases hpres with
  | reset hpend hpres =>
      refine ⟨⟨hsame.dict, hsame.dictTypePos, rfl, hsame.dictTypeLen, hsame.literalTypeLen,
        hsame.isHaveDataBack⟩, [], bytes, hpres, ?_, rfl, Nat.zero_le 8, hat⟩
      exact htypes.trans (ofBits_eq_zero hpend)

/-- A byte of data. -/
theorem Live.data {x : UInt8}
    (h : Live (bound + 1) hist rest [] (.data x :: tokens) (.bit true :: .byte x :: items) self)
    (hcopy : self.state.dictTypeLen = 0) (hline : self.state.literalTypeLen = 0)
    (hcode : TuzCode true self.state.dictPosBack.toNat tokens items) :
    ∃ left, rest = x :: left ∧
      Live bound (hist ++ [x]) left [] tokens items (self.wrote x).haveData := by
  obtain ⟨-, rfl, -, hreaches⟩ := h.closed hcopy hline
  have hbound := h.lt_bound
  have hrest := h.rest_lt
  have hexpands : tuzExpand hist (.data x :: tokens) = x :: tuzExpand (hist ++ [x]) tokens := rfl
  rw [hexpands, List.length_cons] at hbound hrest
  simp only [List.length_cons, List.length_nil] at hbound
  exact ⟨_, hexpands, live_of_closed hcopy hline (h.holds.writeByte x) hcode hreaches (by omega)
    (by omega)⟩

/-- The start of a copy. -/
theorem Live.startCopy {n d : Nat} {savedLen savedDictPos : UInt32} {code : List TuzItem}
    (h : Live (bound + 1) hist rest [] (.copy (n + tuzKMinDictMatchLen.toNat) d :: tokens)
      (.bit false :: (code ++ items)) self)
    (hcopy : self.state.dictTypeLen = 0) (hline : self.state.literalTypeLen = 0) (hd : 0 < d)
    (hlen : savedLen.toNat = n) (hpos : savedDictPos.toNat = d)
    (hcode : TuzCode false d tokens items) :
    Live bound hist rest [] tokens items (startCopy savedLen savedDictPos self.noData) := by
  obtain ⟨-, rfl, ⟨hsize, hle⟩, hreaches⟩ := h.closed hcopy hline
  have hbound := h.lt_bound
  have hrest := h.rest_lt
  have hexpands : tuzExpand hist (.copy (n + tuzKMinDictMatchLen.toNat) d :: tokens) =
      Window.copy hist d (n + 2) ++ tuzExpand (hist ++ Window.copy hist d (n + 2)) tokens := rfl
  have hcopyLen : (savedLen + tuzKMinDictMatchLen).toNat = n + 2 := by
    rw [hexpands, List.length_append, Window.length_copy] at hrest
    rw [UInt32.toNat_add, hlen]
    exact Nat.mod_eq_of_lt (Nat.lt_of_le_of_lt (Nat.le_add_right _ _) hrest)
  have hopen : (TuzTStream.startCopy savedLen savedDictPos self.noData).openCopy hist =
      Window.copy hist d (n + 2) := by
    show Window.copy hist savedDictPos.toNat (savedLen + tuzKMinDictMatchLen).toNat = _
    rw [hpos, hcopyLen]
  rw [List.length_cons, List.length_append] at hbound
  refine ⟨h.holds, fun _ ↦ ⟨hpos ▸ hd, hpos ▸ hsize, hpos ▸ hle, rfl⟩, h.literalTypeLen, ?_, ?_, ?_,
    by omega, hrest⟩
  · show TuzCode false savedDictPos.toNat tokens items
    rw [hpos]
    exact hcode
  · rw [hopen, List.append_nil]
    exact hreaches
  · rw [hopen, List.append_nil, List.nil_append]
    exact hexpands

/-- The start of a line. -/
theorem Live.startLine {bytes : List UInt8} {n : Nat} {posLen : UInt32} {code : List TuzItem}
    (h : Live (bound + 1) hist rest [] (.line bytes :: tokens)
      (.bit false :: (code ++ (bytes.map .byte ++ items))) self)
    (hcopy : self.state.dictTypeLen = 0) (hline : self.state.literalTypeLen = 0)
    (hbytes : bytes.length = n + tuzKMinLiteralLen.toNat) (hlen : posLen.toNat = n)
    (hcode : TuzCode true self.state.dictPosBack.toNat tokens items) :
    Live bound hist rest bytes tokens items
      (startLine (posLen + tuzKMinLiteralLen) self.noData.haveData) := by
  obtain ⟨-, rfl, -, hreaches⟩ := h.closed hcopy hline
  have hbound := h.lt_bound
  have hrest := h.rest_lt
  have hexpands : tuzExpand hist (.line bytes :: tokens) =
      bytes ++ tuzExpand (hist ++ bytes) tokens := rfl
  have hnone : (TuzTStream.startLine (posLen + tuzKMinLiteralLen) self.noData.haveData).openCopy
      hist = [] := openCopy_of_zero hcopy
  simp only [List.length_cons, List.length_append, List.length_map, List.length_nil] at hbound
  refine ⟨h.holds, fun hopen ↦ absurd hcopy hopen, ?_, hcode, ?_, ?_, by omega, hrest⟩
  · show (posLen + tuzKMinLiteralLen).toNat = _
    rw [hexpands, List.length_append] at hrest
    rw [UInt32.toNat_add, hlen, ← hbytes]
    exact Nat.mod_eq_of_lt (Nat.lt_of_le_of_lt (Nat.le_add_right _ _) hrest)
  · rw [hnone, List.nil_append]
    exact hreaches
  · rw [hnone, List.nil_append, List.nil_append]
    exact hexpands

/-- The end of a clip. -/
theorem Live.endClip {code : List TuzItem}
    (h : Live (bound + 1) hist rest [] (.clip :: tokens)
      (.bit false :: (code ++ .reset :: items)) self)
    (hcopy : self.state.dictTypeLen = 0) (hline : self.state.literalTypeLen = 0)
    (hcode : TuzCode false 1 tokens items) :
    Live bound hist rest [] tokens items self.noData.endClip := by
  obtain ⟨-, rfl, -, hreaches⟩ := h.closed hcopy hline
  have hbound := h.lt_bound
  have hrest := h.rest_lt
  have hexpands : tuzExpand hist (.clip :: tokens) = tuzExpand (hist ++ []) tokens := rfl
  rw [List.length_cons, List.length_append, List.length_cons] at hbound
  rw [hexpands] at hbound hrest ⊢
  have hhist : hist ++ TuzToken.output hist .clip = hist := List.append_nil hist
  rw [List.append_nil] at hbound hrest ⊢
  rw [hhist] at hreaches
  exact live_of_closed hcopy hline h.holds hcode hreaches (by omega) hrest

/-! ## The loop -/

/-- What a call of the decoder returns of what is still to come. -/
structure Returned (Src : List UInt8 → Unit → T → Prop) (bound : Nat) (rest out : List UInt8)
    (room : Nat) (r : TuzResult × List UInt8) (tuz : TuzTStream) (t : T) : Prop where
  result : r.1 = .ok ∨ r.1 = .streamEnd
  output : ∃ got left, r.2 = out ++ got ∧ rest = got ++ left ∧ (left = [] ∨ got.length = room) ∧
    Gives Src bound left tuz t

variable {out left : List UInt8} {room : Nat}

theorem Returned.cons {x : UInt8} {r : TuzResult × List UInt8}
    (h : Returned Src bound left (out ++ [x]) (room - 1) r self t) (hroom : room ≠ 0) :
    Returned Src bound (x :: left) out room r self t := by
  obtain ⟨hresult, got, left, hout, rfl, hend, hgives⟩ := h
  refine ⟨hresult, x :: got, left, ?_, rfl, hend.imp_right fun h ↦ ?_, hgives⟩
  · rw [hout, List.append_assoc, List.singleton_append]
  · rw [List.length_cons, h]
    exact Nat.sub_one_add_one hroom

theorem returnProcess_returns (hgives : Gives Src bound rest self t)
    (hfinish : self.codeCache.successFinish = true) :
    Returns answer (returnProcess out) (Returned Src bound rest out 0) self t := by
  refine returns_get_bind (returns_pure ⟨?_, [], rest, ?_, rfl, .inr rfl, hgives⟩)
  · rw [if_pos hfinish]
    exact .inl rfl
  · exact (List.append_nil out).symm

theorem CodeAt.successFinish (h : CodeAt Src base items self t) :
    self.codeCache.successFinish = true := by
  obtain ⟨bytes, hat⟩ := h.at
  exact hat.successFinish

theorem Live.copyByte (M : PatchMemory) (h : Live bound hist rest line tokens items self)
    (hopen : self.state.dictTypeLen ≠ 0) {items' : List TuzItem}
    (hcode : CodeAt Src self items' self t) :
    Returns answer (copyByte M) (fun x tuz t ↦ x = Window.back hist self.state.dictPosBack.toNat ∧
      CodeAt Src (self.wrote x).copied items' tuz t) self t := by
  refine (h.dictReadByte M hopen hcode).bind ?_
  rintro x tuz t ⟨hx, hcode⟩
  refine (hcode.dictWriteByte x).bind ?_
  rintro _ tuz t hcode
  exact returns_modify_bind (returns_pure ⟨hx, hcode.modify blind_copied⟩)

theorem CodeAt.startLiteralLine (hread : Serves answer diffRead Src) {fuel n : Nat}
    {code : List TuzItem} (hcode : LenCode 2 0 code n) (hn : n < 2 ^ 32)
    (hfuel : code.length ≤ fuel)
    (h : CodeAt Src base (code ++ items) self t) :
    Returns answer (startLiteralLine fuel) (fun _ tuz t ↦ ∃ posLen : UInt32, posLen.toNat = n ∧
      CodeAt Src (startLine (posLen + tuzKMinLiteralLen) base.haveData) items tuz t) self t := by
  refine returns_modify_bind ?_
  refine (CodeAt.unpackLen hread (k := 2) rfl (by decide) hcode hn hfuel rfl
    (h.modify blind_haveData)).bind ?_
  rintro posLen tuz t ⟨hlen, h⟩
  exact returns_modify ⟨posLen, hlen, h.modify (blind_startLine _)⟩

/-- The code of a copy or a control, behind its bit. -/
theorem CodeAt.readDictType (hread : Serves answer diffRead Src) {α : Type} {fuel n d : Nat}
    {code : List TuzItem} {next : UInt32 × UInt32 → TuzM α} {other : UInt32 → TuzM α}
    {Q : α → TuzTStream → T → Prop}
    (hcode : DictCode base.state.isHaveDataBack base.state.dictPosBack.toNat code n d)
    (hn : n < 2 ^ 32) (hd : d < 2 ^ 32) (hfuel : code.length ≤ fuel)
    (h : CodeAt Src base (.bit false :: (code ++ items)) self t)
    (hnext : ∀ r tuz t, r.1.toNat = n → r.2.toNat = d → CodeAt Src base.noData items tuz t →
      Returns answer (next r) Q tuz t) :
    Returns answer (do
      let codeType ← TuzTStream.cacheRead1bit
      if codeType = tuzCodeTypeDict then TuzTStream.readDictCode fuel >>= next else other codeType)
      Q self t := by
  refine (CodeAt.cacheRead1bit hread h).bind ?_
  rintro codeType tuz t ⟨htype, h, -⟩
  have hdict : codeType = tuzCodeTypeDict := htype
  rw [if_pos hdict]
  refine (CodeAt.readDictCode hread hcode hn hd hfuel h).bind ?_
  rintro r tuz t ⟨hlen, hpos, h⟩
  exact hnext r tuz t hlen hpos h

/-- The loop with this fuel gives what is to come, up to the end or as far as there is room. -/
def Expands (answer : (op : PatchOp) → T → op.Res × T) (Src : List UInt8 → Unit → T → Prop)
    (M : PatchMemory) (bound fuel : Nat) : Prop :=
  ∀ {hist rest line out : List UInt8} {tokens : List TuzToken} {items : List TuzItem}
    {self : TuzTStream} {t : T} {room : Nat}, Live fuel hist rest line tokens items self →
    CodeAt Src self (line.map .byte ++ items) self t →
    Returns answer (decompressLoop M fuel room out) (Returned Src bound rest out room) self t

section Step

variable {M : PatchMemory} {fuel : Nat} (ih : Expands answer Src M bound fuel)
  (hfuel : fuel < bound) (hread : Serves answer diffRead Src)
include ih

theorem Expands.congr (h : Live fuel hist rest line tokens items base)
    (hcode : CodeAt Src base (line.map .byte ++ items) self t) :
    Returns answer (decompressLoop M fuel room out) (Returned Src bound rest out room) self t :=
  ih (h.congr hcode.same) hcode.rebase

include hfuel

/-- A step where a copy is open. -/
theorem Expands.openCopy (h : Live (fuel + 1) hist rest line tokens items self)
    (hcode : CodeAt Src self (line.map .byte ++ items) self t)
    (hcopy : self.state.dictTypeLen ≠ 0) :
    Returns answer (decompressLoop M (fuel + 1) room out) (Returned Src bound rest out room)
      self t := by
  refine returns_get_bind ?_
  rw [if_pos hcopy]
  by_cases hroom : room ≠ 0
  · rw [if_pos hroom]
    obtain ⟨left, rfl, hlive⟩ := h.copied hcopy
    refine (h.copyByte M hcopy hcode).bind ?_
    rintro _ tuz t ⟨rfl, hcode⟩
    exact (ih.congr hlive hcode).mono fun _ _ _ h ↦ h.cons hroom
  · rw [if_neg hroom, not_not.1 hroom]
    exact returnProcess_returns (.live (h.mono hfuel) hcode) hcode.successFinish

include hread

/-- A step where a line is open. -/
theorem Expands.openLine (h : Live (fuel + 1) hist rest line tokens items self)
    (hcode : CodeAt Src self (line.map .byte ++ items) self t)
    (hcopy : self.state.dictTypeLen = 0) (hline : self.state.literalTypeLen ≠ 0) :
    Returns answer (decompressLoop M (fuel + 1) room out) (Returned Src bound rest out room)
      self t := by
  refine returns_get_bind ?_
  rw [if_neg (not_not.2 hcopy), if_pos hline]
  by_cases hroom : room ≠ 0
  · rw [if_pos hroom]
    obtain ⟨x, line, left, rfl, rfl, hlive⟩ := h.lined hcopy hline
    refine (CodeAt.literalByte hread hcode).bind ?_
    rintro _ tuz t ⟨rfl, hcode⟩
    refine returns_modify_bind ?_
    exact (ih.congr hlive (hcode.modify blind_lined)).mono fun _ _ _ h ↦ h.cons hroom
  · rw [if_neg hroom, not_not.1 hroom]
    exact returnProcess_returns (.live (h.mono hfuel) hcode) hcode.successFinish

theorem Expands.data {x : UInt8}
    (h : Live (fuel + 1) hist rest [] (.data x :: tokens) (.bit true :: .byte x :: items) self)
    (hcode : CodeAt Src self (.bit true :: .byte x :: items) self t)
    (hcopy : self.state.dictTypeLen = 0) (hline : self.state.literalTypeLen = 0)
    (hs : TuzCode true self.state.dictPosBack.toNat tokens items) :
    Returns answer (decompressLoop M (fuel + 1) room out) (Returned Src bound rest out room)
      self t := by
  refine returns_get_bind ?_
  rw [if_neg (not_not.2 hcopy), if_neg (not_not.2 hline)]
  refine (CodeAt.cacheRead1bit hread hcode).bind ?_
  rintro codeType tuz t ⟨htype, hcode, hcount⟩
  rw [if_neg (by rw [htype]; decide)]
  by_cases hroom : room ≠ 0
  · rw [if_pos hroom]
    obtain ⟨left, rfl, hlive⟩ := h.data hcopy hline hs
    refine (CodeAt.literalByte hread hcode).bind ?_
    rintro _ tuz t ⟨rfl, hcode⟩
    refine returns_modify_bind ?_
    exact (ih.congr hlive (hcode.modify blind_haveData)).mono fun _ _ _ h ↦ h.cons hroom
  · -- the bit goes back, for the next call
    rw [if_neg hroom, not_not.1 hroom]
    refine (hcode.cachePush1bit hcount).bind ?_
    rintro _ tuz t hcode
    exact returnProcess_returns (.live ((h.mono hfuel).congr hcode.same) hcode.rebase)
      hcode.successFinish

omit hfuel

theorem Expands.literalLine {bytes : List UInt8} {n : Nat} {code lenCode : List TuzItem}
    (h : Live (fuel + 1) hist rest [] (.line bytes :: tokens)
      (.bit false :: (code ++ (lenCode ++ (bytes.map .byte ++ items)))) self)
    (hcode : CodeAt Src self
      (.bit false :: (code ++ (lenCode ++ (bytes.map .byte ++ items)))) self t)
    (hcopy : self.state.dictTypeLen = 0) (hline : self.state.literalTypeLen = 0)
    (hctrl : DictCode self.state.isHaveDataBack self.state.dictPosBack.toNat code
      tuzCtrlTypeLiteralLine.toNat 0)
    (hlen : LenCode 2 0 lenCode n) (hbytes : bytes.length = n + tuzKMinLiteralLen.toNat)
    (hs : TuzCode true self.state.dictPosBack.toNat tokens items) :
    Returns answer (decompressLoop M (fuel + 1) room out) (Returned Src bound rest out room)
      self t := by
  have hbound := h.lt_bound
  have hlt := h.rest_lt
  have hbytesLen : bytes.length ≤ rest.length := by
    rw [(h.closed hcopy hline).2.1]
    exact List.length_append ▸ Nat.le_add_right _ _
  simp only [List.length_cons, List.length_append] at hbound
  refine returns_get_bind ?_
  rw [if_neg (not_not.2 hcopy), if_neg (not_not.2 hline)]
  refine CodeAt.readDictType hread hctrl (by decide) (by decide) (by omega) hcode ?_
  intro r tuz t hsaved hpos hcode
  rw [if_neg (not_not.2 (UInt32.toNat_inj.1 hpos)), if_pos (UInt32.toNat_inj.1 hsaved)]
  refine (CodeAt.startLiteralLine hread hlen (by omega) (by omega) hcode).bind ?_
  rintro _ tuz t ⟨posLen, hposLen, hcode⟩
  rw [← List.append_assoc] at h
  exact ih.congr (h.startLine hcopy hline hbytes hposLen hs) hcode

theorem Expands.copy {n d : Nat} {code : List TuzItem}
    (h : Live (fuel + 1) hist rest [] (.copy (n + tuzKMinDictMatchLen.toNat) d :: tokens)
      (.bit false :: (code ++ items)) self)
    (hcode : CodeAt Src self (.bit false :: (code ++ items)) self t)
    (hcopy : self.state.dictTypeLen = 0) (hline : self.state.literalTypeLen = 0)
    (hdict : DictCode self.state.isHaveDataBack self.state.dictPosBack.toNat code n d) (hd : 0 < d)
    (hs : TuzCode false d tokens items) :
    Returns answer (decompressLoop M (fuel + 1) room out) (Returned Src bound rest out room)
      self t := by
  obtain ⟨-, hrest, ⟨hsize, -⟩, -⟩ := h.closed hcopy hline
  have hbound := h.lt_bound
  have hlt := h.rest_lt
  have hcopyLen : n ≤ rest.length := by
    rw [hrest]
    refine Nat.le_trans (Nat.le_add_right _ 2) ?_
    rw [← Window.length_copy hist d (n + 2)]
    exact List.length_append ▸ Nat.le_add_right _ _
  simp only [List.length_cons, List.length_append] at hbound
  refine returns_get_bind ?_
  rw [if_neg (not_not.2 hcopy), if_neg (not_not.2 hline)]
  refine CodeAt.readDictType hread hdict (by omega)
    (Nat.lt_of_le_of_lt hsize self.dict.dictSize.toNat_lt) (by omega) hcode ?_
  intro r tuz t hlen hpos hcode
  have hne : r.2 ≠ 0 := by
    intro hzero
    rw [hzero] at hpos
    exact Nat.ne_of_lt hd hpos
  rw [if_pos hne]
  refine returns_modify_bind ?_
  exact ih.congr (h.startCopy hcopy hline hd hlen hpos hs) (hcode.modify (blind_startCopy r.1 r.2))

theorem Expands.clip {code : List TuzItem}
    (h : Live (fuel + 1) hist rest [] (.clip :: tokens)
      (.bit false :: (code ++ .reset :: items)) self)
    (hcode : CodeAt Src self (.bit false :: (code ++ .reset :: items)) self t)
    (hcopy : self.state.dictTypeLen = 0) (hline : self.state.literalTypeLen = 0)
    (hctrl : DictCode self.state.isHaveDataBack self.state.dictPosBack.toNat code
      tuzCtrlTypeClipEnd.toNat 0)
    (hs : TuzCode false 1 tokens items) :
    Returns answer (decompressLoop M (fuel + 1) room out) (Returned Src bound rest out room)
      self t := by
  have hbound := h.lt_bound
  simp only [List.length_cons, List.length_append] at hbound
  refine returns_get_bind ?_
  rw [if_neg (not_not.2 hcopy), if_neg (not_not.2 hline)]
  refine CodeAt.readDictType hread hctrl (by decide) (by decide) (by omega) hcode ?_
  intro r tuz t hlen hpos hcode
  have hclip : r.1 = tuzCtrlTypeClipEnd := UInt32.toNat_inj.1 hlen
  rw [if_neg (not_not.2 (UInt32.toNat_inj.1 hpos)), hclip, if_neg (by decide), if_pos rfl]
  refine returns_modify_bind ?_
  exact ih.congr (h.endClip hcopy hline hs) hcode.endClip

omit ih

theorem streamEnd_returns {code : List TuzItem}
    (h : Live (fuel + 1) hist rest [] [] (.bit false :: code) self)
    (hcode : CodeAt Src self (.bit false :: code) self t)
    (hcopy : self.state.dictTypeLen = 0) (hline : self.state.literalTypeLen = 0)
    (hctrl : DictCode self.state.isHaveDataBack self.state.dictPosBack.toNat code
      tuzCtrlTypeStreamEnd.toNat 0) :
    Returns answer (decompressLoop M (fuel + 1) room out) (Returned Src bound rest out room)
      self t := by
  obtain ⟨-, hrest, -⟩ := h.closed hcopy hline
  have hbound := h.lt_bound
  simp only [List.length_cons] at hbound
  rw [← List.append_nil code] at hcode
  refine returns_get_bind ?_
  rw [if_neg (not_not.2 hcopy), if_neg (not_not.2 hline)]
  refine CodeAt.readDictType hread hctrl (by decide) (by decide) (by omega) hcode ?_
  intro r tuz t hlen hpos hcode
  have hend : r.1 = tuzCtrlTypeStreamEnd := UInt32.toNat_inj.1 hlen
  rw [if_neg (not_not.2 (UInt32.toNat_inj.1 hpos)), hend, if_neg (by decide)]
  obtain ⟨bytes, hat⟩ := hcode.at
  refine returns_modify_bind (returns_pure ⟨.inr rfl, [], [], ?_, hrest, .inl rfl, .ended rfl hat⟩)
  exact (List.append_nil out).symm

end Step

/-- The loop gives what is to come. -/
theorem expands (hread : Serves answer diffRead Src) (M : PatchMemory) {fuel : Nat}
    (hfuel : fuel ≤ bound) : Expands answer Src M bound fuel := by
  induction fuel with
  | zero =>
      intro hist rest line out tokens items self t room h hcode
      exact absurd h.lt_bound (Nat.not_lt_zero _)
  | succ fuel ih =>
      intro hist rest line out tokens items self t room h hcode
      have ih := @ih (Nat.le_of_succ_le hfuel)
      by_cases hcopy : self.state.dictTypeLen ≠ 0
      · exact Expands.openCopy ih hfuel h hcode hcopy
      rw [not_not] at hcopy
      by_cases hline : self.state.literalTypeLen ≠ 0
      · exact Expands.openLine ih hfuel hread h hcode hcopy hline
      rw [not_not] at hline
      -- nothing is open, so the code says which token comes
      obtain ⟨rfl, -, -⟩ := h.closed hcopy hline
      rw [List.map_nil, List.nil_append] at hcode
      have htuz := h.code
      cases htuz with
      | streamEnd hctrl => exact streamEnd_returns hread h hcode hcopy hline hctrl
      | cons htoken hs =>
          cases htoken with
          | data => exact Expands.data ih hfuel hread h hcode hcopy hline hs
          | line hctrl hlen hbytes =>
              simp only [List.cons_append, List.append_assoc] at h hcode
              exact Expands.literalLine ih hread h hcode hcopy hline hctrl hlen hbytes hs
          | copy hdict hd => exact Expands.copy ih hread h hcode hcopy hline hdict hd hs
          | clip hctrl =>
              simp only [List.cons_append, List.append_assoc, List.nil_append] at h hcode
              exact Expands.clip ih hread h hcode hcopy hline hctrl hs

/-- What `hpatch_tuz_stream_decompress` returns. -/
theorem Gives.decompress (hread : Serves answer diffRead Src) (M : PatchMemory) {fuel : Nat}
    (dataSize : Nat) (h : Gives Src fuel rest self t) (hrest : rest ≠ []) :
    Returns answer (decompress M fuel dataSize) (fun data tuz t ↦ ∃ got left, data = some got ∧
      rest = got ++ left ∧ (left = [] ∨ got.length = dataSize) ∧ Gives Src fuel left tuz t)
      self t := by
  cases h with
  | ended hnil => exact absurd hnil hrest
  | live h hcode =>
      refine (expands hread M (Nat.le_refl fuel) h hcode).bind ?_
      rintro ⟨result, data⟩ tuz t ⟨hresult, got, left, hdata, hleft, hend, hgives⟩
      rcases hresult with rfl | rfl
      · exact returns_pure ⟨got, left, congrArg some hdata, hleft, hend, hgives⟩
      · exact returns_pure ⟨got, left, congrArg some hdata, hleft, hend, hgives⟩

/-- The stream behind its start gives what the code stands for. -/
theorem gives_start {M : PatchMemory} {dictSize : UInt32} {cacheSize fuel : Nat} {tuz : TuzTStream}
    {bytes : List UInt8} (hstart : start M dictSize cacheSize = some tuz) (hcache : cacheSize ≠ 0)
    (hcode : TuzCode false 1 tokens items) (hbytes : Presents [] items bytes)
    (hreaches : TuzReaches dictSize.toNat [] tokens)
    (hfuel : items.length + (tuzExpand [] tokens).length < fuel)
    (hrest : (tuzExpand [] tokens).length < 2 ^ 32) (h : Src bytes () t) :
    Gives Src fuel (tuzExpand [] tokens) tuz t := by
  unfold start at hstart
  split_ifs at hstart
  cases hstart
  refine .live (live_of_closed rfl rfl (Window.holds_nil _ _ _) hcode hreaches hfuel hrest) ?_
  exact ⟨.refl _, [], bytes, hbytes, rfl, rfl, Nat.zero_le 8, at_start hcache h⟩

/-- The source under a stream may change as long as it has the same bytes. -/
theorem Gives.map {T' : Type} {Src' : List UInt8 → Unit → T' → Prop} {t' : T'} {fuel : Nat}
    (h : Gives Src fuel rest self t)
    (hsrc : ∀ bytes stream, Src bytes stream t → Src' bytes stream t') :
    Gives Src' fuel rest self t' := by
  cases h with
  | live h hcode =>
      obtain ⟨hsame, pend, bytes, hpres, htypes, hcount, hle, hend, left, hleft, hat⟩ := hcode
      exact .live h ⟨hsame, pend, bytes, hpres, htypes, hcount, hle, hend, left, hleft,
        hsrc _ _ hat⟩
  | ended hrest hat =>
      obtain ⟨hend, left, hleft, hat⟩ := hat
      exact .ended hrest ⟨hend, left, hleft, hsrc _ _ hat⟩

theorem Gives.exists_src {fuel : Nat} (h : Gives Src fuel rest self t) :
    ∃ bytes stream, Src bytes stream t := by
  cases h with
  | live h hcode =>
      obtain ⟨bytes, -, left, -, hat⟩ := hcode.at
      exact ⟨left, _, hat⟩
  | ended hrest hat =>
      obtain ⟨-, left, -, hat⟩ := hat
      exact ⟨left, _, hat⟩

end Expanding

end TuzTStream

end DualBank
