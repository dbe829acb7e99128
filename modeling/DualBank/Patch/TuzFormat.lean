import DualBank.Lib.Bits
import DualBank.Lib.Window
import DualBank.Patch.Tinyuz

/-!
# The format of tinyuz

What compressed code means, and the byte strings that stand for it.  The code is a list of
tokens: bytes, and copies from what came before.  Its bits and its bytes share one string,
where the bits come eight at a time, in a byte of their own in front of the first of them.
-/

namespace DualBank

open Lib Bits

/-! ## Meaning -/

inductive TuzToken where
  | data (x : UInt8)
  | line (bytes : List UInt8)
  | copy (length distance : Nat)
  | clip

/-- What a token adds to the output so far. -/
def TuzToken.output (hist : List UInt8) : TuzToken → List UInt8
  | data x => [x]
  | line bytes => bytes
  | copy length distance => Window.copy hist distance length
  | clip => []

/-- What the tokens add to the output so far. -/
def tuzExpand (hist : List UInt8) : List TuzToken → List UInt8
  | [] => []
  | token :: tokens => token.output hist ++ tuzExpand (hist ++ token.output hist) tokens

/-- A copy starts in the dictionary, and at nothing older than the output. -/
def TuzToken.Reaches (dictSize : Nat) (hist : List UInt8) : TuzToken → Prop
  | copy _ distance => distance ≤ dictSize ∧ distance ≤ hist.length
  | _ => True

def TuzReaches (dictSize : Nat) (hist : List UInt8) : List TuzToken → Prop
  | [] => True
  | token :: tokens =>
    token.Reaches dictSize hist ∧ TuzReaches dictSize (hist ++ token.output hist) tokens

/-! ## Bits and bytes -/

/-- What the decoder asks for: a bit, a byte, or to start over with the bits. -/
inductive TuzItem where
  | bit (b : Bool)
  | byte (x : UInt8)
  | reset

/-- The byte string presents the items to a decoder that has `pend` left of its last byte of
bits.  Bits that are skipped are zero. -/
inductive Presents : List Bool → List TuzItem → List UInt8 → Prop
  | nil {pend : List Bool} {bytes : List UInt8} : Presents pend [] bytes
  | bit {b : Bool} {pend : List Bool} {items : List TuzItem} {bytes : List UInt8}
      (h : Presents pend items bytes) : Presents (b :: pend) (.bit b :: items) bytes
  | types {x : UInt8} {b : Bool} {items : List TuzItem} {bytes : List UInt8}
      (h : Presents (toBits 8 x.toNat) (.bit b :: items) bytes) :
      Presents [] (.bit b :: items) (x :: bytes)
  | byte {x : UInt8} {pend : List Bool} {items : List TuzItem} {bytes : List UInt8}
      (h : Presents pend items bytes) : Presents pend (.byte x :: items) (x :: bytes)
  | reset {pend : List Bool} {items : List TuzItem} {bytes : List UInt8}
      (hpend : ∀ b ∈ pend, b = false) (h : Presents [] items bytes) :
      Presents pend (.reset :: items) bytes

/-! ## Codes -/

/-- The groups of `k` bits read on from the value `v` to the value `w`. -/
inductive LenCode (k : Nat) : Nat → List TuzItem → Nat → Prop
  | last {v : Nat} {g : List Bool} (hg : g.length = k) :
      LenCode k v ((g ++ [false]).map .bit) (v * 2 ^ k + ofBits g)
  | more {v w : Nat} {g : List Bool} {items : List TuzItem} (hg : g.length = k)
      (h : LenCode k (v * 2 ^ k + ofBits g + 1) items w) :
      LenCode k v ((g ++ [true]).map .bit ++ items) w

theorem LenCode.le {k v w : Nat} {items : List TuzItem} (h : LenCode k v items w) :
    v * 2 ^ k ≤ w := by
  induction h with
  | last hg => exact Nat.le_add_right _ _
  | @more v w g items hg h ih =>
      have hle := Nat.le_mul_of_pos_right (v * 2 ^ k + ofBits g + 1) (Nat.two_pow_pos k)
      omega

/-- The code of a distance. -/
inductive PosCode : List TuzItem → Nat → Prop
  | short {x : UInt8} (hx : x.toNat < 128) : PosCode [.byte x] x.toNat
  | long {x : UInt8} {items : List TuzItem} {w : Nat} (hx : 128 ≤ x.toNat)
      (h : LenCode 2 0 items w) : PosCode (.byte x :: items) (x.toNat + w * 128)

/-- The code of a saved length and a distance, 0 for a control.  Behind data a bit tells
whether the last distance is meant. -/
inductive DictCode (isHaveDataBack : Bool) (dictPosBack : Nat) : List TuzItem → Nat → Nat → Prop
  | back {items : List TuzItem} {n : Nat} (hback : isHaveDataBack = true)
      (h : LenCode 1 0 items n) :
      DictCode isHaveDataBack dictPosBack (items ++ [.bit true]) n dictPosBack
  | pos {items posItems : List TuzItem} {n d : Nat} (h : LenCode 1 0 items n)
      (hpos : PosCode posItems d) :
      DictCode isHaveDataBack dictPosBack
        (items ++ ((if isHaveDataBack then [.bit false] else []) ++ posItems))
        (n + if d > tuzKBigPosForLen.toNat then 1 else 0) d

/-- The code of a token, and what it leaves behind: whether it was data, and the distance. -/
inductive TokenCode (isHaveDataBack : Bool) (dictPosBack : Nat) :
    TuzToken → List TuzItem → Bool → Nat → Prop
  | data {x : UInt8} :
      TokenCode isHaveDataBack dictPosBack (.data x) [.bit true, .byte x] true dictPosBack
  | line {items lenItems : List TuzItem} {bytes : List UInt8} {n : Nat}
      (h : DictCode isHaveDataBack dictPosBack items tuzCtrlTypeLiteralLine.toNat 0)
      (hlen : LenCode 2 0 lenItems n) (hbytes : bytes.length = n + tuzKMinLiteralLen.toNat) :
      TokenCode isHaveDataBack dictPosBack (.line bytes)
        (.bit false :: (items ++ (lenItems ++ bytes.map .byte))) true dictPosBack
  | copy {items : List TuzItem} {n d : Nat} (h : DictCode isHaveDataBack dictPosBack items n d)
      (hd : 0 < d) :
      TokenCode isHaveDataBack dictPosBack (.copy (n + tuzKMinDictMatchLen.toNat) d)
        (.bit false :: items) false d
  | clip {items : List TuzItem}
      (h : DictCode isHaveDataBack dictPosBack items tuzCtrlTypeClipEnd.toNat 0) :
      TokenCode isHaveDataBack dictPosBack .clip (.bit false :: (items ++ [.reset])) false 1

/-- The code of some tokens up to the end of the stream. -/
inductive TuzCode : Bool → Nat → List TuzToken → List TuzItem → Prop
  | streamEnd {isHaveDataBack : Bool} {dictPosBack : Nat} {items : List TuzItem}
      (h : DictCode isHaveDataBack dictPosBack items tuzCtrlTypeStreamEnd.toNat 0) :
      TuzCode isHaveDataBack dictPosBack [] (.bit false :: items)
  | cons {isHaveDataBack isHaveData : Bool} {dictPosBack dictPos : Nat} {token : TuzToken}
      {tokens : List TuzToken} {items items' : List TuzItem}
      (h : TokenCode isHaveDataBack dictPosBack token items isHaveData dictPos)
      (hs : TuzCode isHaveData dictPos tokens items') :
      TuzCode isHaveDataBack dictPosBack (token :: tokens) (items ++ items')

/-- The byte strings that expand to `out`, with a dictionary of this size. -/
inductive TuzBytes (dictSize : Nat) (out : List UInt8) : List UInt8 → Prop
  | mk {tokens : List TuzToken} {items : List TuzItem} {bytes : List UInt8}
      (hcode : TuzCode false 1 tokens items) (hbytes : Presents [] items bytes)
      (hreaches : TuzReaches dictSize [] tokens) (hout : tuzExpand [] tokens = out) :
      TuzBytes dictSize out bytes

end DualBank
