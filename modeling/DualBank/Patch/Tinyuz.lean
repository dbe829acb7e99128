import Mathlib.Data.UInt
import DualBank.Patch.InputCache

/-!
# tinyuz

The stream decoder of `third_party/tinyuz/tuz_dec.c`, as the Makefile builds it for the
bootloader: with the caches of HPatchLite, with literal lines, with four bytes for the size
of the dictionary (`tuz_dec.o` is not given `tuz_kMaxOfDictSize`), and without
`_IS_RUN_MEM_SAFE_CHECK`.

The decoder reads whatever lies at the index that it computes.  The model keeps a record of
all indices, and takes what lies outside of the dictionary as a parameter.
-/

namespace DualBank

open Lib Stateful

def tuzKMinLiteralLen : UInt32 := 15
def tuzKMinDictMatchLen : UInt32 := 2
def tuzKMaxTypeBitCount : UInt32 := 8
def tuzKBigPosForLen : UInt32 := 2 ^ 11 + 2 ^ 9 + 2 ^ 7 - 1
def tuzKDictSizeSavedBytes : Nat := 4

def tuzCodeTypeDict : UInt32 := 0
def tuzCodeTypeData : UInt32 := 1

def tuzCtrlTypeLiteralLine : UInt32 := 1
def tuzCtrlTypeClipEnd : UInt32 := 2
def tuzCtrlTypeStreamEnd : UInt32 := 3

/-- `tuz_TResult`, as far as this build returns it. -/
inductive TuzResult where
  | ok
  | streamEnd
  | ctrlTypeUnknowError
  | readCodeError

/-- `_tuz_TDict`; the cursor never leaves the dictionary. -/
structure TuzDict where
  dictCur : UInt32
  dictSize : UInt32
  dictBuf : UInt32 → UInt8
  dictCur_lt : dictCur < dictSize

/-- The dictionary after `_dict_write_byte`. -/
def TuzDict.writeByte (dict : TuzDict) (bdata : UInt8) : TuzDict where
  dictCur := if dict.dictCur + 1 < dict.dictSize then dict.dictCur + 1 else 0
  dictSize := dict.dictSize
  dictBuf := Function.update dict.dictBuf dict.dictCur bdata
  dictCur_lt := by
    have hpos : 0 < dict.dictSize := UInt32.lt_of_le_of_lt UInt32.zero_le dict.dictCur_lt
    split
    · assumption
    · exact hpos

/-- `_tuz_TState`. -/
structure TuzState where
  dictTypePos : UInt32
  dictPosBack : UInt32
  dictTypeLen : UInt32
  literalTypeLen : UInt32
  types : UInt32
  typeCount : UInt32
  isHaveDataBack : Bool

/-- `index_pos` in `_dict_read_byte`. -/
def dictIndexPos (dictCur dictSize dictTypePos : UInt32) : UInt32 :=
  let indexPos := dictCur + dictTypePos
  indexPos - (if dictTypePos < dictSize - dictCur then 0 else dictSize)

/-- An access to `dict_buf`: the index, with the cursor and the size of the dictionary then,
and for the byte of a back-reference the distance that the code gives. -/
structure DictAccess where
  dictCur : UInt32
  dictSize : UInt32
  index : UInt32
  distance : Option UInt32

/-- `tuz_TStream`, with the record of its accesses. -/
structure TuzTStream where
  codeCache : InputCache Unit
  dict : TuzDict
  state : TuzState
  accesses : List DictAccess

/-- What the decoders find in memory and have not put there. -/
structure PatchMemory where
  /-- The header buffer of `hpatch_lite_open` before the first read. -/
  headBuf : List UInt8
  /-- The dictionary before the first write. -/
  dictBuf : UInt32 → UInt8
  /-- What lies at an index outside of the dictionary. -/
  outside : TuzTStream → UInt32 → UInt8

/-- Code of tinyuz. -/
abbrev TuzM (α : Type) : Type := PatchM TuzTStream α

namespace TuzTStream

/-! ## Bits and lengths -/

/-- `diff_stream_read` as the `read_code` of the stream. -/
def diffRead : InputStreamRead Unit := fun dataSize ↦ lift (askDiff dataSize)

def cacheRead1byte : TuzM UInt32 := do
  let b ← zoom codeCache (fun cache self ↦ { self with codeCache := cache })
    (InputCache.read1byte diffRead)
  return b.toUInt32

/-- The bits of `types` that are left. -/
def setTypes (types typeCount : UInt32) (self : TuzTStream) : TuzTStream :=
  { self with state := { self.state with types := types, typeCount := typeCount } }

/-- `_cache_read_lowbits`; the bits above the `bitCount` lowest are not cleared. -/
def cacheReadLowbits (bitCount : UInt32) : TuzM UInt32 := do
  let self ← Stateful.get
  let count := self.state.typeCount
  let result := self.state.types
  if count ≥ bitCount then do
    Stateful.modify (setTypes (result >>> bitCount) (count - bitCount))
    return result
  else do
    let v ← cacheRead1byte
    let bitCount := bitCount - count
    Stateful.modify (setTypes (v >>> bitCount) (tuzKMaxTypeBitCount - bitCount))
    return result ||| (v <<< count)

def cacheRead1bit : TuzM UInt32 := do
  let bits ← cacheReadLowbits 1
  return bits &&& 1

def cachePush1bit (bitv : UInt32) : TuzM PUnit :=
  Stateful.modify fun self ↦
    setTypes ((self.state.types <<< 1) + bitv) (self.state.typeCount + 1) self

/-- `_def_unpack_len`, from the value read so far. -/
def unpackLen (readBit : UInt32) : Nat → UInt32 → TuzM UInt32
  | 0, _ => stop
  | fuel + 1, v => do
    let lowbit ← cacheReadLowbits readBit
    let flag := (1 : UInt32) <<< (readBit - 1)
    let v := (v <<< (readBit - 1)) + (lowbit &&& (flag - 1))
    if lowbit &&& flag = 0 then return v
    else unpackLen readBit fuel (v + 1)

def cacheUnpackLen (fuel : Nat) : TuzM UInt32 := unpackLen 2 fuel 0

def cacheUnpackPosLen (fuel : Nat) : TuzM UInt32 := unpackLen 3 fuel 0

def cacheUnpackDictPos (fuel : Nat) : TuzM UInt32 := do
  let result ← cacheRead1byte
  if result < 128 then return result
  else do
    let posLen ← cacheUnpackPosLen fuel
    return ((result &&& (127 : UInt32)) ||| (posLen <<< (7 : UInt32))) + 128

/-! ## The dictionary -/

/-- An access at this index, in the record. -/
def note (index : UInt32) (distance : Option UInt32) (self : TuzTStream) : TuzTStream :=
  { self with
    accesses := self.accesses ++ [⟨self.dict.dictCur, self.dict.dictSize, index, distance⟩] }

/-- `_dict_read_byte`. -/
def dictReadByte (M : PatchMemory) : TuzM UInt8 := do
  let self ← Stateful.get
  let indexPos := dictIndexPos self.dict.dictCur self.dict.dictSize self.state.dictTypePos
  Stateful.modify (note indexPos (some self.state.dictPosBack))
  return if indexPos < self.dict.dictSize then self.dict.dictBuf indexPos
    else M.outside self indexPos

/-- `_dict_write_byte`. -/
def dictWriteByte (bdata : UInt8) : TuzM PUnit :=
  Stateful.modify fun self ↦
    { note self.dict.dictCur none self with dict := self.dict.writeByte bdata }

/-! ## Decoding -/

/-- The bit of a copy after data: whether the last distance is meant. -/
def readUseBack : TuzM UInt32 := do
  let self ← Stateful.get
  if self.state.isHaveDataBack then cacheRead1bit else return 0

/-- The length and the distance, or 0, of a type code. -/
def readDictPos (fuel : Nat) (savedLen useBack : UInt32) : TuzM (UInt32 × UInt32) := do
  let self ← Stateful.get
  if useBack ≠ 0 then return (savedLen, self.state.dictPosBack)
  else do
    let savedDictPos ← cacheUnpackDictPos fuel
    return (savedLen + (if savedDictPos > tuzKBigPosForLen then 1 else 0), savedDictPos)

/-- The type code of a copy or a control. -/
def readDictCode (fuel : Nat) : TuzM (UInt32 × UInt32) := do
  let savedLen ← cacheUnpackLen fuel
  let useBack ← readUseBack
  let code ← readDictPos fuel savedLen useBack
  Stateful.modify fun self ↦ { self with state := { self.state with isHaveDataBack := false } }
  return code

/-- The start of a copy. -/
def startCopy (savedLen savedDictPos : UInt32) (self : TuzTStream) : TuzTStream :=
  { self with state := { self.state with
      dictPosBack := savedDictPos
      dictTypeLen := savedLen + tuzKMinDictMatchLen
      dictTypePos := self.dict.dictSize - savedDictPos } }

/-- The start of a literal line. -/
def startLiteralLine (fuel : Nat) : TuzM PUnit := do
  Stateful.modify fun self ↦ { self with state := { self.state with isHaveDataBack := true } }
  let posLen ← cacheUnpackPosLen fuel
  Stateful.modify fun self ↦
    { self with state := { self.state with literalTypeLen := posLen + tuzKMinLiteralLen } }

/-- The end of a clip or of the stream. -/
def endClip (self : TuzTStream) : TuzTStream :=
  { self with state := { self.state with dictPosBack := 1, typeCount := 0 } }

/-- One byte of a copy. -/
def copyByte (M : PatchMemory) : TuzM UInt8 := do
  let bdata ← dictReadByte M
  dictWriteByte bdata
  Stateful.modify fun self ↦
    { self with state := { self.state with dictTypeLen := self.state.dictTypeLen - 1 } }
  return bdata

/-- One byte of the code, to the output. -/
def literalByte : TuzM UInt8 := do
  let v ← cacheRead1byte
  dictWriteByte v.toUInt8
  return v.toUInt8

/-- `return_process` of `tuz_TStream_decompress_partial`. -/
def returnProcess (out : List UInt8) : TuzM (TuzResult × List UInt8) := do
  let self ← Stateful.get
  return (if self.codeCache.successFinish then .ok else .readCodeError, out)

/-- The loop of `tuz_TStream_decompress_partial`, with the room that is left in the output
and what was put there.  Where the source jumps to `type_process`, no copy and no literal
line is open, and the loop starts over. -/
def decompressLoop (M : PatchMemory) :
    Nat → Nat → List UInt8 → TuzM (TuzResult × List UInt8)
  | 0, _, _ => stop
  | fuel + 1, room, out => do
    let self ← Stateful.get
    if self.state.dictTypeLen ≠ 0 then
      if room ≠ 0 then do
        let bdata ← copyByte M
        decompressLoop M fuel (room - 1) (out ++ [bdata])
      else returnProcess out
    else if self.state.literalTypeLen ≠ 0 then
      if room ≠ 0 then do
        let bdata ← literalByte
        Stateful.modify fun self ↦ { self with state :=
          { self.state with literalTypeLen := self.state.literalTypeLen - 1 } }
        decompressLoop M fuel (room - 1) (out ++ [bdata])
      else returnProcess out
    else do
      let codeType ← cacheRead1bit
      if codeType = tuzCodeTypeDict then do
        let code ← readDictCode fuel
        if code.2 ≠ 0 then do
          Stateful.modify (startCopy code.1 code.2)
          decompressLoop M fuel room out
        else if code.1 = tuzCtrlTypeLiteralLine then do
          startLiteralLine fuel
          decompressLoop M fuel room out
        else do
          Stateful.modify endClip
          if code.1 = tuzCtrlTypeClipEnd then decompressLoop M fuel room out
          else if code.1 = tuzCtrlTypeStreamEnd then return (.streamEnd, out)
          else do
            let self ← Stateful.get
            return (if self.codeCache.successFinish then .ctrlTypeUnknowError
              else .readCodeError, out)
      else if room ≠ 0 then do
        let bdata ← literalByte
        Stateful.modify fun self ↦
          { self with state := { self.state with isHaveDataBack := true } }
        decompressLoop M fuel (room - 1) (out ++ [bdata])
      else do
        cachePush1bit tuzCodeTypeData
        returnProcess out

/-- `hpatch_tuz_stream_decompress`: the output unless the result is an error. -/
def decompress (M : PatchMemory) (fuel : Nat) (dataSize : Nat) :
    TuzM (Option (List UInt8)) := do
  let r ← decompressLoop M fuel dataSize []
  match r.1 with
  | .ok | .streamEnd => return some r.2
  | .ctrlTypeUnknowError | .readCodeError => return none

/-- `tuz_TStream_open`, which asserts that the dictionary is not empty. -/
def start (M : PatchMemory) (dictSize : UInt32) (cacheSize : Nat) : Option TuzTStream :=
  if h : 0 < dictSize then
    some
      { codeCache := .start cacheSize ()
        dict := ⟨0, dictSize, M.dictBuf, h⟩
        state := ⟨0, 1, 0, 0, 0, 0, false⟩
        accesses := [] }
  else none

end TuzTStream

/-- `tuz_TStream_read_dict_size`; `none` where its assertion fails, on a size of 0. -/
def tuzTStreamReadDictSize : PatchProgram (Option UInt32) :=
  (askDiff tuzKDictSizeSavedBytes).bind fun
    | none => .ret (some 0)
    | some saved =>
      if saved.length ≠ tuzKDictSizeSavedBytes then .ret (some 0)
      else
        let v := le32 (saved.getD 0 0) (saved.getD 1 0) (saved.getD 2 0) (saved.getD 3 0)
        .ret (if v > 0 then some v else none)

/-! ## The indices -/

theorem toNat_sub_one {x : UInt32} (h : x ≠ 0) : (x - 1).toNat + 1 = x.toNat := by
  have hpos : 0 < x.toNat := Nat.pos_of_ne_zero fun hzero ↦ h (UInt32.toNat_inj.1 hzero)
  have hle : (1 : UInt32) ≤ x := UInt32.le_iff_toNat_le.2 hpos
  rw [UInt32.toNat_sub_of_le _ _ hle]
  exact Nat.sub_add_cancel hpos

/-- The index of a byte that is copied over the distance `d`: inside the dictionary where `d`
is at most its size, or where the cursor wraps around 2^32 back into it. -/
theorem dictIndexPos_lt_iff {dictCur dictSize d : UInt32} (hcur : dictCur < dictSize)
    (hd : d ≠ 0) : dictIndexPos dictCur dictSize (dictSize - d) < dictSize ↔
      d ≤ dictSize ∨ 2 ^ 32 + dictCur.toNat < d.toNat + dictSize.toNat := by
  have hpos : 0 < d.toNat := Nat.pos_of_ne_zero fun h ↦ hd (UInt32.toNat_inj.1 h)
  have hcur := UInt32.lt_iff_toNat_lt.1 hcur
  have hs := dictSize.toNat_lt
  have hlt := d.toNat_lt
  unfold dictIndexPos
  dsimp only
  -- the back-reference goes back from the cursor, or around the end of the dictionary
  split_ifs with h
  · simp only [UInt32.lt_iff_toNat_lt, UInt32.le_iff_toNat_le, UInt32.toNat_sub,
      UInt32.toNat_add, UInt32.toNat_zero] at h ⊢
    omega
  · simp only [UInt32.lt_iff_toNat_lt, UInt32.le_iff_toNat_le, UInt32.toNat_sub,
      UInt32.toNat_add] at h ⊢
    omega

namespace DictAccess

/-- The access stays in the bytes that are reserved for the dictionary. -/
def InRange (a : DictAccess) : Prop := a.index < a.dictSize

end DictAccess

namespace TuzTStream

/-! ## More fuel -/

theorem unpackLen_le (readBit : UInt32) (fuel : Nat) (v : UInt32) :
    Le (unpackLen readBit fuel v) (unpackLen readBit (fuel + 1) v) := by
  induction fuel generalizing v with
  | zero => exact le_stop _
  | succ fuel ih => exact (Le.refl _).bind fun _ ↦ (Le.refl _).ite (ih _)

theorem cacheUnpackDictPos_le (fuel : Nat) :
    Le (cacheUnpackDictPos fuel) (cacheUnpackDictPos (fuel + 1)) :=
  (Le.refl _).bind fun _ ↦ (Le.refl _).ite ((unpackLen_le 3 fuel 0).bind fun _ ↦ Le.refl _)

theorem readDictCode_le (fuel : Nat) : Le (readDictCode fuel) (readDictCode (fuel + 1)) := by
  refine (unpackLen_le 2 fuel 0).bind fun savedLen ↦ (Le.refl _).bind fun useBack ↦ ?_
  refine Le.bind ((Le.refl _).bind fun _ ↦ (Le.refl _).ite ?_) fun _ ↦ Le.refl _
  exact (cacheUnpackDictPos_le fuel).bind fun _ ↦ Le.refl _

theorem startLiteralLine_le (fuel : Nat) :
    Le (startLiteralLine fuel) (startLiteralLine (fuel + 1)) :=
  (Le.refl _).bind fun _ ↦ (unpackLen_le 3 fuel 0).bind fun _ ↦ Le.refl _

theorem decompressLoop_le (M : PatchMemory) (fuel room : Nat) (out : List UInt8) :
    Le (decompressLoop M fuel room out) (decompressLoop M (fuel + 1) room out) := by
  induction fuel generalizing room out with
  | zero => exact le_stop _
  | succ fuel ih =>
      refine (Le.refl _).bind fun self ↦ Le.ite ?_ (Le.ite ?_ ?_)
      · exact Le.ite ((Le.refl _).bind fun _ ↦ ih _ _) (Le.refl _)
      · exact Le.ite ((Le.refl _).bind fun _ ↦ (Le.refl _).bind fun _ ↦ ih _ _) (Le.refl _)
      refine (Le.refl _).bind fun codeType ↦ Le.ite ?_ ?_
      · refine (readDictCode_le fuel).bind fun code ↦ Le.ite ?_ (Le.ite ?_ ?_)
        · exact (Le.refl _).bind fun _ ↦ ih _ _
        · exact (startLiteralLine_le fuel).bind fun _ ↦ ih _ _
        · exact (Le.refl _).bind fun _ ↦ (ih _ _).ite (Le.refl _)
      · exact Le.ite ((Le.refl _).bind fun _ ↦ (Le.refl _).bind fun _ ↦ ih _ _) (Le.refl _)

theorem decompress_le (M : PatchMemory) (fuel dataSize : Nat) :
    Le (decompress M fuel dataSize) (decompress M (fuel + 1) dataSize) :=
  (decompressLoop_le M fuel dataSize []).bind fun _ ↦ Le.refl _

end TuzTStream

end DualBank
