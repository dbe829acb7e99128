import DualBank.Patch.TuzFormat

/-!
# Expanding tinyuz

On code of the format, the stream decoder returns what the tokens stand for, in whatever
pieces the output is asked for and the code comes in.
-/

namespace DualBank

open Lib Stateful InputCache Bits

/-! ## Bits in front -/

theorem Presents.bits_le {pend g : List Bool} {items : List TuzItem} {bytes : List UInt8}
    (h : Presents pend (g.map .bit ++ items) bytes) (hle : g.length ≤ pend.length) :
    ∃ left, pend = g ++ left ∧ Presents left items bytes := by
  induction g generalizing pend with
  | nil => exact ⟨pend, rfl, h⟩
  | cons b g ih =>
      rw [List.map_cons, List.cons_append] at h
      cases h with
      | bit hbit =>
          obtain ⟨left, rfl, h⟩ := ih hbit (Nat.le_of_succ_le_succ hle)
          exact ⟨left, rfl, h⟩
      | types _ => exact absurd hle (Nat.not_succ_le_zero _)

/-- Where the last byte of bits runs out, the next one goes on. -/
theorem Presents.bits_gt {pend g : List Bool} {items : List TuzItem} {bytes : List UInt8}
    (h : Presents pend (g.map .bit ++ items) bytes) (hlt : pend.length < g.length)
    (hle : g.length ≤ pend.length + 8) :
    ∃ x rest g' left, bytes = x :: rest ∧ g = pend ++ g' ∧ toBits 8 x.toNat = g' ++ left ∧
      Presents left items rest := by
  induction g generalizing pend with
  | nil => exact absurd hlt (Nat.not_lt_zero _)
  | cons b g ih =>
      rw [List.map_cons, List.cons_append] at h
      cases h with
      | bit hbit =>
          rw [List.length_cons, List.length_cons] at hle
          obtain ⟨x, rest, g', left, rfl, rfl, hx, h⟩ :=
            ih hbit (Nat.lt_of_succ_lt_succ hlt) (by omega)
          exact ⟨x, rest, g', left, rfl, rfl, hx, h⟩
      | @types x _ _ rest h =>
          obtain ⟨left, hx, h⟩ := @bits_le _ (b :: g) items rest h
            (by rwa [length_toBits, ← Nat.zero_add 8])
          exact ⟨x, rest, b :: g, left, rfl, rfl, hx, h⟩

/-! ## Reading the code -/

namespace TuzTStream

/-- What reading code does not change. -/
structure SameButCode (base tuz : TuzTStream) : Prop where
  dict : tuz.dict = base.dict
  dictTypePos : tuz.state.dictTypePos = base.state.dictTypePos
  dictPosBack : tuz.state.dictPosBack = base.state.dictPosBack
  dictTypeLen : tuz.state.dictTypeLen = base.state.dictTypeLen
  literalTypeLen : tuz.state.literalTypeLen = base.state.literalTypeLen
  isHaveDataBack : tuz.state.isHaveDataBack = base.state.isHaveDataBack

theorem SameButCode.refl (base : TuzTStream) : SameButCode base base :=
  ⟨rfl, rfl, rfl, rfl, rfl, rfl⟩

theorem SameButCode.cache {base tuz : TuzTStream} (h : SameButCode base tuz)
    (cache : InputCache Unit) : SameButCode base { tuz with codeCache := cache } :=
  ⟨h.dict, h.dictTypePos, h.dictPosBack, h.dictTypeLen, h.literalTypeLen, h.isHaveDataBack⟩

theorem SameButCode.types {base tuz : TuzTStream} (h : SameButCode base tuz)
    (types typeCount : UInt32) : SameButCode base (setTypes types typeCount tuz) :=
  ⟨h.dict, h.dictTypePos, h.dictPosBack, h.dictTypeLen, h.literalTypeLen, h.isHaveDataBack⟩

section CodeAt

variable {T : Type} {answer : (op : PatchOp) → T → op.Res × T} {Src : List UInt8 → Unit → T → Prop}
  {base self : TuzTStream} {items : List TuzItem} {t : T}

/-- The items are still to come. -/
structure Presented (Src : List UInt8 → Unit → T → Prop) (items : List TuzItem)
    (tuz : TuzTStream) (pend : List Bool) (bytes : List UInt8) (t : T) : Prop where
  presents : Presents pend items bytes
  types : tuz.state.types.toNat = ofBits pend
  typeCount : tuz.state.typeCount.toNat = pend.length
  length_le : pend.length ≤ 8
  bytes : At Src bytes tuz.codeCache t

/-- The items are still to come, and apart from the code the stream is `base`. -/
structure CodeAt (Src : List UInt8 → Unit → T → Prop) (base : TuzTStream) (items : List TuzItem)
    (tuz : TuzTStream) (t : T) : Prop where
  same : SameButCode base tuz
  code : ∃ pend bytes, Presented Src items tuz pend bytes t

variable (hread : Serves answer diffRead Src)
include hread

theorem cacheRead1byte_returns {bytes : List UInt8} {x : UInt8}
    (hat : At Src (x :: bytes) self.codeCache t) :
    Returns answer cacheRead1byte (fun v tuz t ↦ v = x.toUInt32 ∧ ∃ cache,
      tuz = { self with codeCache := cache } ∧ At Src bytes cache t) self t := by
  refine Returns.bind (I := fun b tuz t ↦ b = x ∧ ∃ cache,
    tuz = { self with codeCache := cache } ∧ At Src bytes cache t) (returns_zoom ?_) ?_
  · refine (hat.read1byte hread).mono ?_
    rintro b cache t ⟨hb, h⟩
    exact ⟨hb, cache, rfl, h⟩
  · rintro b tuz t ⟨rfl, h⟩
    exact returns_pure ⟨rfl, h⟩

theorem CodeAt.cacheRead1byte {x : UInt8} (h : CodeAt Src base (.byte x :: items) self t) :
    Returns answer cacheRead1byte
      (fun v tuz t ↦ v = x.toUInt32 ∧ CodeAt Src base items tuz t) self t := by
  obtain ⟨hsame, pend, _, hpres, htypes, hcount, hle, hat⟩ := h
  cases hpres with
  | byte hpres =>
      refine (cacheRead1byte_returns hread hat).mono ?_
      rintro v _ t ⟨hv, cache, rfl, hat⟩
      exact ⟨hv, hsame.cache cache, pend, _, hpres, htypes, hcount, hle, hat⟩

/-- `_cache_read_lowbits`: only the lowest bits of the result count. -/
theorem CodeAt.cacheReadLowbits {bitCount : UInt32} {g : List Bool} (hg : bitCount.toNat = g.length)
    (hpos : 0 < g.length) (hle : g.length ≤ 8)
    (h : CodeAt Src base (g.map .bit ++ items) self t) :
    Returns answer (cacheReadLowbits bitCount) (fun v tuz t ↦
      v.toNat % 2 ^ g.length = ofBits g ∧ CodeAt Src base items tuz t ∧
        tuz.state.typeCount.toNat ≤ 7) self t := by
  obtain ⟨hsame, pend, bytes, hpres, htypes, hcount, hpend, hat⟩ := h
  have hbits := ofBits_lt pend
  have hpow : 2 ^ pend.length ≤ 2 ^ 8 := Nat.pow_le_pow_right (by decide) hpend
  unfold TuzTStream.cacheReadLowbits
  refine returns_get_bind ?_
  by_cases hge : self.state.typeCount ≥ bitCount
  · rw [if_pos hge]
    obtain ⟨left, rfl, hnext⟩ := hpres.bits_le (by
      rw [← hg, ← hcount]
      exact UInt32.le_iff_toNat_le.1 hge)
    rw [List.length_append] at hcount hpend
    have hleft : (self.state.typeCount - bitCount).toNat = left.length := by
      rw [UInt32.toNat_sub_of_le _ _ hge]
      omega
    refine returns_modify_bind (returns_pure
      ⟨?_, ⟨hsame.types _ _, left, bytes, hnext, ?_, hleft, by omega, hat⟩, ?_⟩)
    · rw [htypes, ofBits_append_mod]
    · show (self.state.types >>> bitCount).toNat = _
      rw [UInt32.toNat_shiftRight, hg, Nat.mod_eq_of_lt (by omega), Nat.shiftRight_eq_div_pow,
        htypes, ofBits_append_div]
    · show (self.state.typeCount - bitCount).toNat ≤ 7
      omega
  · rw [if_neg hge]
    rw [ge_iff_le, UInt32.le_iff_toNat_le] at hge
    obtain ⟨x, rest, g', left, rfl, rfl, hx, hnext⟩ := hpres.bits_gt (by omega) (by omega)
    rw [List.length_append] at hg hpos hle
    refine (cacheRead1byte_returns hread hat).bind ?_
    rintro _ _ t ⟨rfl, cache, rfl, hat⟩
    have hlens : 8 = g'.length + left.length := by
      rw [← List.length_append, ← hx, length_toBits]
    have hcountBits : (bitCount - self.state.typeCount).toNat = g'.length := by
      rw [UInt32.toNat_sub_of_le _ _ (UInt32.le_iff_toNat_le.2 (by omega))]
      omega
    have hleft : (tuzKMaxTypeBitCount - (bitCount - self.state.typeCount)).toNat = left.length := by
      have hmax : tuzKMaxTypeBitCount.toNat = 8 := rfl
      rw [UInt32.toNat_sub_of_le _ _ (UInt32.le_iff_toNat_le.2 (by omega))]
      omega
    have hbyte : ofBits (g' ++ left) = x.toNat := by
      rw [← hx, ofBits_toBits, Nat.mod_eq_of_lt x.toNat_lt]
    -- the bits that were left, with the next byte above them
    have hvalue : (self.state.types ||| x.toUInt32 <<< self.state.typeCount).toNat =
        ofBits pend + 2 ^ pend.length * x.toNat := by
      have hmul := Nat.mul_lt_mul_of_lt_of_le x.toNat_lt hpow (by decide)
      rw [UInt32.or_comm, toNat_shiftLeft_or hcount (by omega) (htypes ▸ hbits)
        (Nat.lt_trans hmul (by decide)), UInt8.toNat_toUInt32, htypes, Nat.add_comm, Nat.mul_comm]
    refine returns_modify_bind (returns_pure
      ⟨?_, ⟨(hsame.cache cache).types _ _, left, rest, hnext, ?_, hleft, by omega, hat⟩, ?_⟩)
    · rw [← hbyte] at hvalue
      rw [hvalue, ← ofBits_append, ← List.append_assoc, ofBits_append_mod]
    · show (x.toUInt32 >>> (bitCount - self.state.typeCount)).toNat = _
      rw [UInt32.toNat_shiftRight, hcountBits, Nat.mod_eq_of_lt (by omega),
        Nat.shiftRight_eq_div_pow, UInt8.toNat_toUInt32, ← hbyte, ofBits_append_div]
    · show (tuzKMaxTypeBitCount - (bitCount - self.state.typeCount)).toNat ≤ 7
      omega

theorem CodeAt.cacheRead1bit {b : Bool} (h : CodeAt Src base (.bit b :: items) self t) :
    Returns answer cacheRead1bit (fun v tuz t ↦ v = (if b then 1 else 0) ∧
      CodeAt Src base items tuz t ∧ tuz.state.typeCount.toNat ≤ 7) self t := by
  have hone : (1 : UInt32).toNat = [b].length := rfl
  refine (CodeAt.cacheReadLowbits hread hone Nat.one_pos (Nat.le_add_left 1 7) h).bind ?_
  rintro v tuz t ⟨hv, h⟩
  refine returns_pure ⟨UInt32.toNat_inj.1 ?_, h⟩
  rw [toNat_and_mask (k := 1) rfl]
  refine hv.trans ?_
  cases b <;> rfl

omit hread in
/-- A bit goes back in front of the others. -/
theorem CodeAt.cachePush1bit (h : CodeAt Src base items self t)
    (hcount : self.state.typeCount.toNat ≤ 7) :
    Returns answer (cachePush1bit 1)
      (fun _ tuz t ↦ CodeAt Src base (.bit true :: items) tuz t) self t := by
  obtain ⟨hsame, pend, bytes, hpres, htypes, hcount', hle, hat⟩ := h
  have hbits := ofBits_lt pend
  have hpow : 2 ^ pend.length ≤ 2 ^ 7 := Nat.pow_le_pow_right (by decide) (by omega)
  refine returns_modify ⟨hsame.types _ _, true :: pend, bytes, hpres.bit, ?_, ?_, ?_, hat⟩
  · have hshift := toNat_shiftLeft (v := self.state.types) (s := 1) (k := 1) rfl (by decide)
      (by omega)
    show ((self.state.types <<< 1) + 1).toNat = _
    rw [UInt32.toNat_add, hshift, htypes]
    show (ofBits pend * 2 + 1) % 2 ^ 32 = 1 + 2 * ofBits pend
    omega
  · show (self.state.typeCount + 1).toNat = _
    rw [UInt32.toNat_add, hcount']
    show (pend.length + 1) % 2 ^ 32 = pend.length + 1
    omega
  · rw [List.length_cons]
    omega

omit hread in
/-- A group of `_def_unpack_len`: `k` bits for the value, and whether it goes on. -/
theorem unpackLen_group {readBit x lowbit : UInt32} {g : List Bool} {b : Bool}
    (hreadBit : readBit.toNat = g.length + 1) (hg : g.length ≤ 7)
    (hlow : lowbit.toNat % 2 ^ (g ++ [b]).length = ofBits (g ++ [b]))
    (hx : x.toNat * 2 ^ g.length + ofBits g < 2 ^ 32) :
    ((x <<< (readBit - 1)) + (lowbit &&& (((1 : UInt32) <<< (readBit - 1)) - 1))).toNat =
        x.toNat * 2 ^ g.length + ofBits g ∧
      (lowbit &&& ((1 : UInt32) <<< (readBit - 1)) = 0 ↔ b = false) := by
  have hone : (1 : UInt32).toNat = 1 := rfl
  have hpow : 2 ^ g.length ≤ 2 ^ 7 := Nat.pow_le_pow_right (by decide) hg
  have hpos := Nat.two_pow_pos g.length
  have hshift : (readBit - 1).toNat = g.length := by
    rw [UInt32.toNat_sub_of_le _ _ (UInt32.le_iff_toNat_le.2 (by omega))]
    omega
  have hflag : ((1 : UInt32) <<< (readBit - 1)).toNat = 2 ^ g.length := by
    rw [toNat_shiftLeft hshift (by omega) (by rw [hone]; omega), hone, Nat.one_mul]
  have hmask : (((1 : UInt32) <<< (readBit - 1)) - 1).toNat = 2 ^ g.length - 1 := by
    rw [UInt32.toNat_sub_of_le _ _ (UInt32.le_iff_toNat_le.2 (by omega)), hflag, hone]
  rw [List.length_append, List.length_singleton, Nat.pow_succ] at hlow
  have hvalue : lowbit.toNat % 2 ^ g.length = ofBits g := by
    rw [← Nat.mod_mul_right_mod _ _ 2, hlow, ofBits_append_mod]
  have hbit : lowbit.toNat / 2 ^ g.length % 2 = b.toNat := by
    rw [← Nat.mod_mul_right_div_self, hlow, ofBits_append_div]
    rfl
  constructor
  · rw [UInt32.toNat_add, toNat_shiftLeft hshift (by omega) (by omega), toNat_and_mask hmask,
      hvalue, Nat.mod_eq_of_lt hx]
  · rw [and_bit_eq_zero_iff hflag, hbit]
    exact Bool.toNat_eq_zero

/-- `_def_unpack_len` on groups of `k` bits. -/
theorem CodeAt.unpackLen {readBit x : UInt32} {k fuel v w : Nat} {code : List TuzItem}
    (hreadBit : readBit.toNat = k + 1) (hk : k ≤ 7) (hcode : LenCode k v code w)
    (hw : w < 2 ^ 32) (hfuel : code.length ≤ fuel) (hx : x.toNat = v)
    (h : CodeAt Src base (code ++ items) self t) :
    Returns answer (unpackLen readBit fuel x)
      (fun y tuz t ↦ y.toNat = w ∧ CodeAt Src base items tuz t) self t := by
  induction hcode generalizing fuel x self t with
  | @last v g hg =>
      subst hg hx
      rw [List.length_map, List.length_append, List.length_singleton] at hfuel
      obtain ⟨fuel, rfl⟩ := Nat.exists_eq_add_of_le' hfuel
      have hlen : (g ++ [false]).length = g.length + 1 := List.length_append
      refine (CodeAt.cacheReadLowbits hread (hreadBit.trans hlen.symm) (by omega) (by omega)
        h).bind ?_
      rintro lowbit tuz t ⟨hlow, h, -⟩
      obtain ⟨hvalue, hflag⟩ := unpackLen_group hreadBit hk hlow hw
      dsimp only
      rw [if_pos (hflag.2 rfl)]
      exact returns_pure ⟨hvalue, h⟩
  | @more v w g code hg hmore ih =>
      subst hg hx
      have hle := hmore.le
      have hpow := Nat.le_mul_of_pos_right (x.toNat * 2 ^ g.length + ofBits g + 1)
        (Nat.two_pow_pos g.length)
      rw [List.length_append, List.length_map, List.length_append,
        List.length_singleton] at hfuel
      obtain ⟨fuel, rfl⟩ : ∃ n, fuel = n + 1 := ⟨fuel - 1, by omega⟩
      rw [List.append_assoc] at h
      have hlen : (g ++ [true]).length = g.length + 1 := List.length_append
      refine (CodeAt.cacheReadLowbits hread (hreadBit.trans hlen.symm) (by omega) (by omega)
        h).bind ?_
      rintro lowbit tuz t ⟨hlow, h, -⟩
      obtain ⟨hvalue, hflag⟩ := unpackLen_group (x := x) hreadBit hk hlow (by omega)
      dsimp only
      rw [if_neg fun hzero ↦ Bool.noConfusion (hflag.1 hzero)]
      refine ih hw (by omega) ?_ h
      rw [UInt32.toNat_add, hvalue]
      exact Nat.mod_eq_of_lt (by
        show _ + 1 < _
        omega)

theorem CodeAt.cacheUnpackDictPos {fuel d : Nat} {code : List TuzItem} (hcode : PosCode code d)
    (hd : d < 2 ^ 32) (hfuel : code.length ≤ fuel) (h : CodeAt Src base (code ++ items) self t) :
    Returns answer (cacheUnpackDictPos fuel)
      (fun y tuz t ↦ y.toNat = d ∧ CodeAt Src base items tuz t) self t := by
  have hlow : ∀ x : UInt8, x.toUInt32 < 128 ↔ x.toNat < 128 := by
    intro x
    rw [UInt32.lt_iff_toNat_lt, UInt8.toNat_toUInt32]
    exact Iff.rfl
  cases hcode with
  | @short x hx =>
      refine (CodeAt.cacheRead1byte hread h).bind ?_
      rintro _ tuz t ⟨rfl, h⟩
      rw [if_pos ((hlow x).2 hx)]
      exact returns_pure ⟨UInt8.toNat_toUInt32 x, h⟩
  | @long x code w hx hlen =>
      refine (CodeAt.cacheRead1byte hread h).bind ?_
      rintro _ tuz t ⟨rfl, h⟩
      have hlt := x.toNat_lt
      rw [if_neg fun hlt ↦ Nat.not_lt.2 hx ((hlow x).1 hlt)]
      refine (CodeAt.unpackLen hread (k := 2) rfl (by decide) hlen (by omega)
        (Nat.le_of_succ_le hfuel) rfl h).bind ?_
      rintro posLen tuz t ⟨hposLen, h⟩
      have hmask : (x.toUInt32 &&& 127).toNat = x.toNat % 2 ^ 7 := toNat_and_mask (k := 7) rfl
      have hor := toNat_shiftLeft_or (v := posLen) (s := 7) (k := 7) rfl (by decide)
        (hmask.trans_lt (Nat.mod_lt _ (Nat.two_pow_pos 7))) (by omega)
      refine returns_pure ⟨?_, h⟩
      rw [UInt32.toNat_add, UInt32.or_comm, hor, hmask, hposLen]
      show (w * 2 ^ 7 + x.toNat % 2 ^ 7 + 128) % 2 ^ 32 = x.toNat + w * 128
      omega

/-- The bit of a copy after data. -/
theorem CodeAt.readUseBack {b : Bool} (hb : b = true → base.state.isHaveDataBack = true)
    (h : CodeAt Src base ((if base.state.isHaveDataBack then [.bit b] else []) ++ items) self t) :
    Returns answer readUseBack
      (fun v tuz t ↦ v = (if b then 1 else 0) ∧ CodeAt Src base items tuz t) self t := by
  refine returns_get_bind ?_
  rw [h.same.isHaveDataBack]
  cases hback : base.state.isHaveDataBack with
  | true =>
      rw [hback] at h
      refine (CodeAt.cacheRead1bit hread h).mono ?_
      rintro v tuz t ⟨hv, h, -⟩
      exact ⟨hv, h⟩
  | false =>
      rw [hback] at h hb
      rw [Bool.eq_false_iff.2 fun htrue ↦ Bool.false_ne_true (hb htrue)]
      exact returns_pure ⟨rfl, h⟩

/-- The type code of a copy or a control. -/
theorem CodeAt.readDictCode {fuel n d : Nat} {code : List TuzItem}
    (hcode : DictCode base.state.isHaveDataBack base.state.dictPosBack.toNat code n d)
    (hn : n < 2 ^ 32) (hd : d < 2 ^ 32) (hfuel : code.length ≤ fuel)
    (h : CodeAt Src base (code ++ items) self t) :
    Returns answer (readDictCode fuel) (fun r tuz t ↦ r.1.toNat = n ∧ r.2.toNat = d ∧
      CodeAt Src { base with state := { base.state with isHaveDataBack := false } } items tuz t)
      self t := by
  have hnext : ∀ tuz t, CodeAt Src base items tuz t →
      CodeAt Src { base with state := { base.state with isHaveDataBack := false } } items
        { tuz with state := { tuz.state with isHaveDataBack := false } } t := by
    rintro tuz t ⟨hsame, pend, bytes, hpres, htypes, hcount, hle, hat⟩
    exact ⟨⟨hsame.dict, hsame.dictTypePos, hsame.dictPosBack, hsame.dictTypeLen,
      hsame.literalTypeLen, rfl⟩, pend, bytes, hpres, htypes, hcount, hle, hat⟩
  unfold TuzTStream.readDictCode
  cases hcode with
  | @back code n hback hlen =>
      rw [List.length_append, List.length_singleton] at hfuel
      rw [List.append_assoc] at h
      refine (CodeAt.unpackLen hread (k := 1) rfl (by decide) hlen hn (by omega) rfl h).bind ?_
      rintro savedLen tuz t ⟨hsaved, h⟩
      refine (CodeAt.readUseBack hread (b := true) (fun _ ↦ hback)
        (by rw [if_pos hback]; exact h)).bind ?_
      rintro _ tuz t ⟨rfl, h⟩
      refine Returns.bind (I := fun r tuz t ↦ r.1.toNat = n ∧
        r.2.toNat = base.state.dictPosBack.toNat ∧ CodeAt Src base items tuz t) ?_ ?_
      · refine returns_get_bind ?_
        exact returns_pure ⟨hsaved, congrArg UInt32.toNat h.same.dictPosBack, h⟩
      · rintro r tuz t ⟨hr, hpos, h⟩
        exact returns_modify_bind (returns_pure ⟨hr, hpos, hnext _ _ h⟩)
  | @pos code posCode n d hlen hpos =>
      simp only [List.length_append] at hfuel
      rw [List.append_assoc] at h
      refine (CodeAt.unpackLen hread (k := 1) rfl (by decide) hlen (by omega) (by omega) rfl
        h).bind ?_
      rintro savedLen tuz t ⟨hsaved, h⟩
      rw [List.append_assoc] at h
      refine (CodeAt.readUseBack hread (b := false) nofun h).bind ?_
      rintro _ tuz t ⟨rfl, h⟩
      refine Returns.bind (I := fun r tuz t ↦
        r.1.toNat = n + (if d > tuzKBigPosForLen.toNat then 1 else 0) ∧
          r.2.toNat = d ∧ CodeAt Src base items tuz t) ?_ ?_
      · refine returns_get_bind ?_
        refine (CodeAt.cacheUnpackDictPos hread hpos hd (by omega) h).bind ?_
        rintro savedDictPos tuz t ⟨rfl, h⟩
        refine returns_pure ⟨?_, rfl, h⟩
        have hbig : savedDictPos > tuzKBigPosForLen ↔
            savedDictPos.toNat > tuzKBigPosForLen.toNat := UInt32.lt_iff_toNat_lt
        rw [UInt32.toNat_add, hsaved]
        by_cases hgt : savedDictPos > tuzKBigPosForLen
        · rw [if_pos hgt, if_pos (hbig.1 hgt)]
          rw [if_pos (hbig.1 hgt)] at hn
          exact Nat.mod_eq_of_lt hn
        · rw [if_neg hgt, if_neg (mt hbig.2 hgt)]
          rw [if_neg (mt hbig.2 hgt)] at hn
          exact Nat.mod_eq_of_lt hn
      · rintro r tuz t ⟨hr, hpos, h⟩
        exact returns_modify_bind (returns_pure ⟨hr, hpos, hnext _ _ h⟩)

end CodeAt

end TuzTStream

/-! ## The dictionary -/

namespace TuzDict

/-- The dictionary keeps the end of what was written. -/
def Holds (dict : TuzDict) (hist : List UInt8) : Prop :=
  Window.Holds dict.dictSize.toNat dict.dictCur.toNat (fun i ↦ dict.dictBuf (UInt32.ofNat i)) hist

variable {dict : TuzDict} {hist : List UInt8}

theorem dictCur_toNat_lt (dict : TuzDict) : dict.dictCur.toNat < dict.dictSize.toNat :=
  UInt32.lt_iff_toNat_lt.1 dict.dictCur_lt

theorem Holds.writeByte (h : dict.Holds hist) (x : UInt8) :
    (dict.writeByte x).Holds (hist ++ [x]) := by
  have hcur := dict.dictCur_toNat_lt
  have hsize := dict.dictSize.toNat_lt
  have hnext : (dict.dictCur + 1).toNat = dict.dictCur.toNat + 1 := by
    rw [UInt32.toNat_add]
    exact Nat.mod_eq_of_lt (Nat.lt_of_le_of_lt hcur hsize)
  have hcurNext : (dict.writeByte x).dictCur.toNat =
      Window.nextCur dict.dictSize.toNat dict.dictCur.toNat := by
    unfold TuzDict.writeByte Window.nextCur
    dsimp only
    rw [apply_ite UInt32.toNat, hnext]
    refine if_congr ?_ rfl rfl
    rw [UInt32.lt_iff_toNat_lt, hnext]
  unfold Holds
  rw [hcurNext]
  refine (Window.Holds.write h hcur x).congr ?_ fun i hi ↦ ?_
  · unfold Window.nextCur
    split_ifs <;> omega
  · have hiff : UInt32.ofNat i = dict.dictCur ↔ i = dict.dictCur.toNat := by
      rw [← UInt32.toNat_inj, UInt32.toNat_ofNat_of_lt' (Nat.lt_trans hi hsize)]
    show Function.update dict.dictBuf dict.dictCur x (UInt32.ofNat i) = _
    rw [Function.update_apply, Function.update_apply]
    exact if_congr hiff rfl rfl

/-- The index of a copy is where the ring buffer keeps its byte. -/
theorem toNat_dictIndexPos {dictCur dictSize d : UInt32} (hcur : dictCur < dictSize)
    (hd : 0 < d.toNat) (hle : d.toNat ≤ dictSize.toNat) :
    (dictIndexPos dictCur dictSize (dictSize - d)).toNat =
      Window.slot dictSize.toNat dictCur.toNat d.toNat := by
  rw [UInt32.lt_iff_toNat_lt] at hcur
  have hsize := dictSize.toNat_lt
  unfold dictIndexPos Window.slot
  dsimp only
  split_ifs with h₁ h₂ h₂
  all_goals
    simp only [UInt32.lt_iff_toNat_lt, UInt32.toNat_sub, UInt32.toNat_add, UInt32.toNat_zero]
      at h₁ ⊢
    omega

end TuzDict

/-! ## Expanding -/

namespace TuzTStream

/-- The bytes of an open copy. -/
def openCopy (tuz : TuzTStream) (hist : List UInt8) : List UInt8 :=
  Window.copy hist tuz.state.dictPosBack.toNat tuz.state.dictTypeLen.toNat

/-- Behind the output `hist`, what is to come is an open copy, an open line and the tokens.
The code that is left, with what it stands for, is shorter than the bound. -/
structure Live (bound : Nat) (hist rest line : List UInt8) (tokens : List TuzToken)
    (items : List TuzItem) (tuz : TuzTStream) : Prop where
  holds : tuz.dict.Holds hist
  copy : tuz.state.dictTypeLen ≠ 0 → 0 < tuz.state.dictPosBack.toNat ∧
    tuz.state.dictPosBack.toNat ≤ tuz.dict.dictSize.toNat ∧
    tuz.state.dictPosBack.toNat ≤ hist.length ∧
    tuz.state.dictTypePos = tuz.dict.dictSize - tuz.state.dictPosBack
  literalTypeLen : tuz.state.literalTypeLen.toNat = line.length
  code : TuzCode tuz.state.isHaveDataBack tuz.state.dictPosBack.toNat tokens items
  reaches : TuzReaches tuz.dict.dictSize.toNat (hist ++ (tuz.openCopy hist ++ line)) tokens
  expands : rest = tuz.openCopy hist ++
    (line ++ tuzExpand (hist ++ (tuz.openCopy hist ++ line)) tokens)
  lt_bound : line.length + items.length + rest.length < bound
  rest_lt : rest.length < 2 ^ 32

section Expanding

variable {T : Type} {answer : (op : PatchOp) → T → op.Res × T} {Src : List UInt8 → Unit → T → Prop}
  {bound : Nat} {hist rest line : List UInt8} {tokens : List TuzToken} {items : List TuzItem}
  {base self : TuzTStream} {t : T}

theorem Live.mono {bound' : Nat} (h : Live bound hist rest line tokens items self)
    (hle : bound ≤ bound') : Live bound' hist rest line tokens items self :=
  { h with lt_bound := Nat.lt_of_lt_of_le h.lt_bound hle }

theorem Live.congr (h : Live bound hist rest line tokens items base)
    (hsame : SameButCode base self) : Live bound hist rest line tokens items self := by
  obtain ⟨hdict, htypePos, hposBack, htypeLen, hliteral, hback⟩ := hsame
  have hopen : self.openCopy hist = base.openCopy hist := by
    rw [openCopy, openCopy, hposBack, htypeLen]
  constructor
  · exact hdict ▸ h.holds
  · rw [htypePos, hposBack, htypeLen, hdict]
    exact h.copy
  · rw [hliteral]
    exact h.literalTypeLen
  · rw [hback, hposBack]
    exact h.code
  · rw [hopen, hdict]
    exact h.reaches
  · rw [hopen]
    exact h.expands
  · exact h.lt_bound
  · exact h.rest_lt

/-- What the stream has still to give. -/
inductive Gives (Src : List UInt8 → Unit → T → Prop) (bound : Nat) (rest : List UInt8)
    (tuz : TuzTStream) (t : T) : Prop
  | live {hist line : List UInt8} {tokens : List TuzToken} {items : List TuzItem}
      (h : Live bound hist rest line tokens items tuz)
      (hcode : CodeAt Src tuz (line.map .byte ++ items) tuz t)
  | ended {bytes : List UInt8} (hrest : rest = []) (hat : At Src bytes tuz.codeCache t)

theorem CodeAt.rebase (h : CodeAt Src base items self t) : CodeAt Src self items self t :=
  ⟨.refl self, h.code⟩

theorem CodeAt.at (h : CodeAt Src base items self t) : ∃ bytes, At Src bytes self.codeCache t := by
  obtain ⟨-, pend, bytes, h⟩ := h
  exact ⟨bytes, h.bytes⟩

/-! ### Bytes -/

theorem openCopy_of_zero (h : self.state.dictTypeLen = 0) : self.openCopy hist = [] := by
  unfold openCopy
  rw [h]
  rfl

/-- The stream behind a byte that goes into the dictionary. -/
def wrote (x : UInt8) (tuz : TuzTStream) : TuzTStream := { tuz with dict := tuz.dict.writeByte x }

theorem CodeAt.dictWriteByte (x : UInt8) (h : CodeAt Src base items self t) :
    Returns answer (dictWriteByte x) (fun _ tuz t ↦ CodeAt Src (base.wrote x) items tuz t)
      self t := by
  obtain ⟨hsame, pend, bytes, hpres, htypes, hcount, hle, hat⟩ := h
  refine returns_modify ⟨⟨?_, hsame.dictTypePos, hsame.dictPosBack, hsame.dictTypeLen,
    hsame.literalTypeLen, hsame.isHaveDataBack⟩, pend, bytes, hpres, htypes, hcount, hle, hat⟩
  exact congrArg (TuzDict.writeByte · x) hsame.dict

theorem CodeAt.literalByte (hread : Serves answer diffRead Src) {x : UInt8}
    (h : CodeAt Src base (.byte x :: items) self t) :
    Returns answer literalByte
      (fun y tuz t ↦ y = x ∧ CodeAt Src (base.wrote x) items tuz t) self t := by
  refine (CodeAt.cacheRead1byte hread h).bind ?_
  rintro _ tuz t ⟨rfl, h⟩
  rw [UInt8.toUInt8_toUInt32]
  refine (h.dictWriteByte x).bind ?_
  rintro _ tuz t h
  exact returns_pure ⟨rfl, h⟩

/-- What an open copy reads from the dictionary. -/
theorem Live.dictReadByte (M : PatchMemory) {items' : List TuzItem}
    (h : Live bound hist rest line tokens items self) (hopen : self.state.dictTypeLen ≠ 0)
    (hcode : CodeAt Src base items' self t) :
    Returns answer (dictReadByte M) (fun x tuz t ↦
      x = Window.back hist self.state.dictPosBack.toNat ∧ CodeAt Src base items' tuz t) self t := by
  obtain ⟨hpos, hsize, hlen, htypePos⟩ := h.copy hopen
  have hindex := TuzDict.toNat_dictIndexPos self.dict.dictCur_lt hpos hsize
  have hin : dictIndexPos self.dict.dictCur self.dict.dictSize self.state.dictTypePos <
      self.dict.dictSize := by
    rw [htypePos, UInt32.lt_iff_toNat_lt, hindex]
    exact Window.slot_lt self.dict.dictCur_toNat_lt hpos
  have hbyte := h.holds _ hpos hsize hlen
  dsimp only at hbyte
  rw [← hindex, UInt32.ofNat_toNat, ← htypePos] at hbyte
  obtain ⟨hsame, pend, bytes, hpres, htypes, hcount, hle, hat⟩ := hcode
  refine returns_get_bind (returns_modify_bind (returns_pure ⟨?_, ⟨hsame.dict, hsame.dictTypePos,
    hsame.dictPosBack, hsame.dictTypeLen, hsame.literalTypeLen, hsame.isHaveDataBack⟩, pend,
    bytes, hpres, htypes, hcount, hle, hat⟩))
  rw [if_pos hin]
  exact hbyte

/-- A change of the state that the code does not show in. -/
structure Blind (f : TuzTStream → TuzTStream) : Prop where
  same : ∀ {base tuz}, SameButCode base tuz → SameButCode (f base) (f tuz)
  codeCache : ∀ tuz, (f tuz).codeCache = tuz.codeCache
  types : ∀ tuz, (f tuz).state.types = tuz.state.types
  typeCount : ∀ tuz, (f tuz).state.typeCount = tuz.state.typeCount

theorem CodeAt.modify {f : TuzTStream → TuzTStream} (hf : Blind f)
    (h : CodeAt Src base items self t) : CodeAt Src (f base) items (f self) t := by
  obtain ⟨hsame, pend, bytes, hpres, htypes, hcount, hle, hat⟩ := h
  refine ⟨hf.same hsame, pend, bytes, hpres, ?_, ?_, hle, ?_⟩
  · rw [hf.types]
    exact htypes
  · rw [hf.typeCount]
    exact hcount
  · rw [hf.codeCache]
    exact hat

/-- The stream behind a byte of a copy. -/
def copied (tuz : TuzTStream) : TuzTStream :=
  { tuz with state := { tuz.state with dictTypeLen := tuz.state.dictTypeLen - 1 } }

/-- The stream behind a byte of a line. -/
def lined (tuz : TuzTStream) : TuzTStream :=
  { tuz with state := { tuz.state with literalTypeLen := tuz.state.literalTypeLen - 1 } }

/-- The stream behind a byte of data or the start of a line. -/
def haveData (tuz : TuzTStream) : TuzTStream :=
  { tuz with state := { tuz.state with isHaveDataBack := true } }

theorem blind_copied : Blind copied where
  same h := ⟨h.dict, h.dictTypePos, h.dictPosBack, congrArg (· - 1) h.dictTypeLen,
    h.literalTypeLen, h.isHaveDataBack⟩
  codeCache _ := rfl
  types _ := rfl
  typeCount _ := rfl

theorem blind_lined : Blind lined where
  same h := ⟨h.dict, h.dictTypePos, h.dictPosBack, h.dictTypeLen,
    congrArg (· - 1) h.literalTypeLen, h.isHaveDataBack⟩
  codeCache _ := rfl
  types _ := rfl
  typeCount _ := rfl

theorem blind_haveData : Blind haveData where
  same h := ⟨h.dict, h.dictTypePos, h.dictPosBack, h.dictTypeLen, h.literalTypeLen, rfl⟩
  codeCache _ := rfl
  types _ := rfl
  typeCount _ := rfl

/-- One byte of an open copy. -/
theorem Live.copied (h : Live (bound + 1) hist rest line tokens items self)
    (hopen : self.state.dictTypeLen ≠ 0) :
    let x := Window.back hist self.state.dictPosBack.toNat
    ∃ left, rest = x :: left ∧
      Live bound (hist ++ [x]) left line tokens items (self.wrote x).copied := by
  intro x
  obtain ⟨hpos, hsize, hlen, htypePos⟩ := h.copy hopen
  have hcopy : self.openCopy hist = x :: (self.wrote x).copied.openCopy (hist ++ [x]) := by
    unfold openCopy
    rw [← toNat_sub_one hopen, Window.copy_succ]
    rfl
  have hreaches := h.reaches
  have hbound := h.lt_bound
  have hrest := h.rest_lt
  have hexpands : rest = x :: ((self.wrote x).copied.openCopy (hist ++ [x]) ++ (line ++
      tuzExpand (hist ++ [x] ++ ((self.wrote x).copied.openCopy (hist ++ [x]) ++ line))
        tokens)) := by
    rw [h.expands, hcopy]
    simp only [List.append_assoc, List.cons_append, List.nil_append]
  rw [hcopy, List.cons_append, List.append_cons] at hreaches
  subst hexpands
  rw [List.length_cons] at hbound hrest
  refine ⟨_, rfl, h.holds.writeByte x, fun _ ↦ ⟨hpos, hsize, ?_, htypePos⟩, h.literalTypeLen,
    h.code, hreaches, rfl, by omega, by omega⟩
  exact Nat.le_trans hlen (List.length_append ▸ Nat.le_add_right _ _)

/-- One byte of an open line. -/
theorem Live.lined (h : Live (bound + 1) hist rest line tokens items self)
    (hclosed : self.state.dictTypeLen = 0) (hopen : self.state.literalTypeLen ≠ 0) :
    ∃ x line' left, line = x :: line' ∧ rest = x :: left ∧
      Live bound (hist ++ [x]) left line' tokens items (self.wrote x).lined := by
  have hlen := h.literalTypeLen
  have hsub := toNat_sub_one hopen
  cases line with
  | nil => exact absurd (UInt32.toNat_inj.1 hlen) hopen
  | cons x line =>
      have hreaches := h.reaches
      have hbound := h.lt_bound
      have hrest := h.rest_lt
      have hcopy : ∀ hist, (self.wrote x).lined.openCopy hist = [] :=
        fun _ ↦ openCopy_of_zero hclosed
      have hexpands : rest = x :: (line ++ tuzExpand (hist ++ [x] ++ line) tokens) := by
        rw [h.expands, openCopy_of_zero hclosed]
        simp only [List.append_assoc, List.cons_append, List.nil_append]
      rw [openCopy_of_zero hclosed, List.nil_append, List.append_cons] at hreaches
      subst hexpands
      rw [List.length_cons] at hbound hrest hlen
      refine ⟨x, line, _, rfl, rfl, h.holds.writeByte x, fun hne ↦ absurd hclosed hne, ?_, h.code,
        ?_, ?_, ?_, by omega⟩
      · show (self.state.literalTypeLen - 1).toNat = _
        omega
      · rw [hcopy, List.nil_append]
        exact hreaches
      · rw [hcopy, List.nil_append, List.nil_append]
      · rw [List.length_cons] at hbound
        omega

/-- Where nothing is open, the tokens say what is to come. -/
theorem Live.closed (h : Live bound hist rest line tokens items self)
    (hcopy : self.state.dictTypeLen = 0) (hline : self.state.literalTypeLen = 0) :
    line = [] ∧ rest = tuzExpand hist tokens ∧ TuzReaches self.dict.dictSize.toNat hist tokens := by
  have hlen := h.literalTypeLen
  rw [hline] at hlen
  obtain rfl := List.length_eq_zero_iff.1 hlen.symm
  have hreaches := h.reaches
  have hexpands := h.expands
  rw [openCopy_of_zero hcopy] at hreaches hexpands
  simp only [List.nil_append, List.append_nil] at hreaches hexpands
  exact ⟨rfl, hexpands, hreaches⟩

end Expanding

end TuzTStream

end DualBank
