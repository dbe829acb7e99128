import DualBank.Patch.Tinyuz

/-!
# The distances of compressed code

Which bytes of its output tinyuz copies, and over which distance, depends on the code alone,
not on what the dictionary holds or in which pieces the output is asked for.  This file reads
it off a byte string, and shows that the stream decoder stays inside its dictionary where all
distances do.
-/

namespace DualBank

/-! ## Reading code -/

/-- Where a reader of code stands; behind the end of the bytes it reads zeros. -/
structure CodeReader where
  bytes : List UInt8
  /-- The bits of the last type byte that are left, and how many of them count. -/
  types : UInt32
  typeCount : UInt32
  isHaveDataBack : Bool
  dictPosBack : UInt32

/-- Reading code, which fails where the fuel runs out. -/
abbrev CodeM (α : Type) : Type := StateT CodeReader Option α

/-- What a type code adds to the output. -/
inductive CodeStep where
  | data
  | line (length : UInt32)
  | copy (length distance : UInt32)
  | clip
  | streamEnd
  | unknown

namespace CodeReader

def start (bytes : List UInt8) : CodeReader := ⟨bytes, 0, 0, false, 1⟩

def setTypes (types typeCount : UInt32) (r : CodeReader) : CodeReader :=
  { r with types := types, typeCount := typeCount }

def setHaveData (b : Bool) (r : CodeReader) : CodeReader := { r with isHaveDataBack := b }

def readByte : CodeM UInt32 := fun r ↦
  some ((r.bytes.headD 0).toUInt32, { r with bytes := r.bytes.tail })

/-- The next bits, lowest first.  What is above them is not cleared, and behind the end of a
clip what is left of the last type byte shows through the next one. -/
def readBits (bitCount : UInt32) : CodeM UInt32 := do
  let r ← get
  if r.typeCount ≥ bitCount then do
    modify (setTypes (r.types >>> bitCount) (r.typeCount - bitCount))
    return r.types
  else do
    let v ← readByte
    modify (setTypes (v >>> (bitCount - r.typeCount))
      (tuzKMaxTypeBitCount - (bitCount - r.typeCount)))
    return r.types ||| (v <<< r.typeCount)

def readBit : CodeM UInt32 := do
  let bits ← readBits 1
  return bits &&& 1

/-- A number in groups of bits, the last of which tells whether another group follows. -/
def readLen (groupBits : UInt32) : Nat → UInt32 → CodeM UInt32
  | 0, _ => failure
  | fuel + 1, v => do
    let bits ← readBits groupBits
    let flag := (1 : UInt32) <<< (groupBits - 1)
    let v := (v <<< (groupBits - 1)) + (bits &&& (flag - 1))
    if bits &&& flag = 0 then return v else readLen groupBits fuel (v + 1)

def readPos (fuel : Nat) : CodeM UInt32 := do
  let v ← readByte
  if v < 128 then return v
  else do
    let high ← readLen 3 fuel 0
    return ((v &&& (127 : UInt32)) ||| (high <<< (7 : UInt32))) + 128

/-- Behind data, the bit that tells whether the last distance is meant. -/
def readUseBack : CodeM UInt32 := do
  let r ← get
  if r.isHaveDataBack then readBit else return 0

def readDistance (fuel : Nat) (length useBack : UInt32) : CodeM (UInt32 × UInt32) := do
  let r ← get
  if useBack ≠ 0 then return (length, r.dictPosBack)
  else do
    let pos ← readPos fuel
    return (length + (if pos > tuzKBigPosForLen then 1 else 0), pos)

/-- The saved length and the distance of a copy; the distance 0 marks a control. -/
def readCopy (fuel : Nat) : CodeM (UInt32 × UInt32) := do
  let length ← readLen 2 fuel 0
  let useBack ← readUseBack
  let code ← readDistance fuel length useBack
  modify (setHaveData false)
  return code

/-- The reader behind the length of a literal line. -/
def readLine (fuel : Nat) : CodeM UInt32 := do
  modify (setHaveData true)
  let length ← readLen 3 fuel 0
  return length + tuzKMinLiteralLen

/-- The end of a clip or of the stream. -/
def endClip (r : CodeReader) : CodeReader := { r with dictPosBack := 1, typeCount := 0 }

/-- What the code of a copy or a control stands for. -/
def readControl (fuel : Nat) (code : UInt32 × UInt32) : CodeM CodeStep :=
  if code.2 ≠ 0 then do
    modify fun r ↦ { r with dictPosBack := code.2 }
    return .copy (code.1 + tuzKMinDictMatchLen) code.2
  else if code.1 = tuzCtrlTypeLiteralLine then do
    let length ← readLine fuel
    return .line length
  else do
    modify endClip
    return if code.1 = tuzCtrlTypeClipEnd then .clip
      else if code.1 = tuzCtrlTypeStreamEnd then .streamEnd else .unknown

/-- A type code, and for a byte of data that byte. -/
def readStep (fuel : Nat) : CodeM CodeStep := do
  let codeType ← readBit
  if codeType = tuzCodeTypeDict then do
    let code ← readCopy fuel
    readControl fuel code
  else do
    let _ ← readByte
    modify (setHaveData true)
    return .data

end CodeReader

/-- For each byte of output, the distance it is copied over. -/
def CodeStep.distances : CodeStep → List (Option UInt32)
  | data => [none]
  | line length => List.replicate length.toNat none
  | copy length distance => List.replicate length.toNat (some distance)
  | clip | streamEnd | unknown => []

/-- The bytes of a literal line are in front of the next type code. -/
def CodeStep.skip : CodeStep → CodeReader → CodeReader
  | line length, r => { r with bytes := r.bytes.drop length.toNat }
  | _, r => r

/-- The decoder knows the control. -/
def CodeStep.isKnown : CodeStep → Bool
  | unknown => false
  | _ => true

/-- The decoder goes on without being asked again. -/
def CodeStep.goesOn : CodeStep → Bool
  | streamEnd | unknown => false
  | _ => true

namespace CodeReader

/-- What the code says of the bytes it expands to, in their order: the distance a byte is
copied over, or `none` where it comes from the code. -/
def distancesWhile (more : CodeStep → Bool) : Nat → CodeReader → List (Option UInt32)
  | 0, _ => []
  | fuel + 1, r =>
    match readStep fuel r with
    | none => []
    | some (step, r) =>
      if more step then step.distances ++ distancesWhile more fuel (step.skip r) else []

/-- All of it, up to the first unknown control. -/
def distances (fuel : Nat) (r : CodeReader) : List (Option UInt32) :=
  distancesWhile CodeStep.isKnown fuel r

/-- The part in front of the first end of the stream. -/
def firstDistances (fuel : Nat) (r : CodeReader) : List (Option UInt32) :=
  distancesWhile CodeStep.goesOn fuel r

end CodeReader

/-- A distance that stays inside the dictionary, as an access at this cursor. -/
def Reaches (dictSize dictCur d : UInt32) : Prop :=
  d ≤ dictSize ∨ 2 ^ 32 + dictCur.toNat < d.toNat + dictSize.toNat

/-- The cursor behind a byte of output. -/
def nextCur (dictSize dictCur : UInt32) : UInt32 :=
  if dictCur + 1 < dictSize then dictCur + 1 else 0

/-- All distances stay inside the dictionary, from this cursor on. -/
def AllReach (dictSize : UInt32) : UInt32 → List (Option UInt32) → Prop
  | _, [] => True
  | dictCur, x :: xs =>
    (∀ d ∈ x, Reaches dictSize dictCur d) ∧ AllReach dictSize (nextCur dictSize dictCur) xs

instance decidableReaches (dictSize dictCur d : UInt32) : Decidable (Reaches dictSize dictCur d) :=
  inferInstanceAs (Decidable (_ ∨ _))

instance decidableAllReach (dictSize : UInt32) :
    (dictCur : UInt32) → (xs : List (Option UInt32)) → Decidable (AllReach dictSize dictCur xs)
  | _, [] => isTrue trivial
  | dictCur, x :: xs =>
    have : Decidable (∀ d ∈ x, Reaches dictSize dictCur d) := Option.decidableForallMem x
    have := decidableAllReach dictSize (nextCur dictSize dictCur) xs
    inferInstanceAs (Decidable (_ ∧ _))

/-- All distances of the code stay inside the dictionary. -/
def DistancesReach (dictSize : UInt32) (code : List UInt8) : Prop :=
  ∀ fuel, AllReach dictSize 0 (CodeReader.distances fuel (.start code))

/-! ## Bits -/

theorem toNat_shift (x : UInt32) : (x >>> 1).toNat = x.toNat / 2 :=
  (UInt32.toNat_shiftRight x 1).trans (Nat.shiftRight_one _)

theorem toNat_push (x : UInt32) : ((x >>> 1) <<< 1 + 1).toNat = x.toNat / 2 * 2 + 1 := by
  have hlt := x.toNat_lt
  have hleft : ((x >>> 1) <<< 1).toNat = x.toNat / 2 * 2 % 2 ^ 32 := by
    rw [UInt32.toNat_shiftLeft, toNat_shift]
    exact congrArg (· % 2 ^ 32) (Nat.shiftLeft_eq _ _)
  rw [UInt32.toNat_add, hleft, UInt32.toNat_one]
  omega

theorem toNat_bit (x : UInt32) : (x &&& 1).toNat = x.toNat % 2 :=
  (UInt32.toNat_and x 1).trans (Nat.and_one_is_mod x.toNat)

theorem bit_eq_one {x : UInt32} (h : x &&& 1 ≠ 0) : x &&& 1 = 1 := by
  have hbit := toNat_bit x
  have hne : (x &&& 1).toNat ≠ 0 := fun h0 ↦ h (UInt32.toNat_inj.1 h0)
  exact UInt32.toNat_inj.1 (by rw [UInt32.toNat_one]; omega)

/-- A bit that is set, pushed back. -/
theorem push_of_bit {x : UInt32} (h : x &&& 1 ≠ 0) : (x >>> 1) <<< 1 + 1 = x := by
  have hbit := toNat_bit x
  have hne : (x &&& 1).toNat ≠ 0 := fun h0 ↦ h (UInt32.toNat_inj.1 h0)
  have hpush := toNat_push x
  exact UInt32.toNat_inj.1 (by omega)

theorem push_bit (x : UInt32) : ((x >>> 1) <<< 1 + 1) &&& 1 = 1 := by
  have hbit := toNat_bit ((x >>> 1) <<< 1 + 1)
  have hpush := toNat_push x
  exact UInt32.toNat_inj.1 (by rw [hbit, hpush]; show _ = 1; omega)

theorem push_shift (x : UInt32) : ((x >>> 1) <<< 1 + 1) >>> 1 = x >>> 1 := by
  have hpush := toNat_push x
  exact UInt32.toNat_inj.1 (by rw [toNat_shift, toNat_shift, hpush]; omega)

/-! ## More fuel -/

/-- The second reads what the first does, and where that fails perhaps more. -/
def CodeM.Le {α : Type} (x y : CodeM α) : Prop := ∀ r a, x r = some a → y r = some a

namespace CodeM

variable {α β : Type}

theorem Le.refl (x : CodeM α) : Le x x := fun _ _ h ↦ h

theorem Le.bind {x y : CodeM α} {f g : α → CodeM β} (h : Le x y) (hf : ∀ a, Le (f a) (g a)) :
    Le (x >>= f) (y >>= g) := by
  intro r b hb
  obtain ⟨a, ha, hb⟩ := Option.bind_eq_some_iff.1 hb
  exact Option.bind_eq_some_iff.2 ⟨a, h r a ha, hf a.1 a.2 b hb⟩

theorem Le.ite {c : Prop} [Decidable c] {x x' y y' : CodeM α} (hx : Le x x') (hy : Le y y') :
    Le (if c then x else y) (if c then x' else y') := by
  split
  · exact hx
  · exact hy

end CodeM

namespace CodeReader

open CodeM

theorem readLen_le (groupBits : UInt32) (fuel : Nat) (v : UInt32) :
    Le (readLen groupBits fuel v) (readLen groupBits (fuel + 1) v) := by
  induction fuel generalizing v with
  | zero => exact fun r a h ↦ nomatch h
  | succ fuel ih => exact (Le.refl _).bind fun _ ↦ (Le.refl _).ite (ih _)

theorem readCopy_le (fuel : Nat) : Le (readCopy fuel) (readCopy (fuel + 1)) := by
  refine (readLen_le 2 fuel 0).bind fun length ↦ (Le.refl _).bind fun useBack ↦ ?_
  refine Le.bind ((Le.refl _).bind fun _ ↦ (Le.refl _).ite ?_) fun _ ↦ Le.refl _
  refine Le.bind ((Le.refl _).bind fun _ ↦ (Le.refl _).ite ?_) fun _ ↦ Le.refl _
  exact (readLen_le 3 fuel 0).bind fun _ ↦ Le.refl _

theorem readLine_le (fuel : Nat) : Le (readLine fuel) (readLine (fuel + 1)) :=
  (Le.refl _).bind fun _ ↦ (readLen_le 3 fuel 0).bind fun _ ↦ Le.refl _

theorem readStep_le (fuel : Nat) : Le (readStep fuel) (readStep (fuel + 1)) := by
  refine (Le.refl _).bind fun codeType ↦ Le.ite ?_ (Le.refl _)
  refine (readCopy_le fuel).bind fun code ↦ (Le.refl _).ite (Le.ite ?_ (Le.refl _))
  exact (readLine_le fuel).bind fun _ ↦ Le.refl _

theorem readStep_of_le {fuel fuel' : Nat} (h : fuel ≤ fuel') {r : CodeReader}
    {a : CodeStep × CodeReader}
    (ha : readStep fuel r = some a) : readStep fuel' r = some a := by
  induction fuel', h using Nat.le_induction with
  | base => exact ha
  | succ fuel' _ ih => exact readStep_le fuel' r a ih

/-- From some fuel on, all distances that are read stay inside the dictionary. -/
def Safe (dictSize dictCur : UInt32) (r : CodeReader) (front : List (Option UInt32)) : Prop :=
  ∃ least, ∀ fuel ≥ least, AllReach dictSize dictCur (front ++ distances fuel r)

variable {dictSize dictCur : UInt32} {r r' : CodeReader} {fuel : Nat} {x : CodeStep}

theorem distancesWhile_succ (more : CodeStep → Bool) (h : readStep fuel r = some (x, r')) :
    distancesWhile more (fuel + 1) r =
      if more x then x.distances ++ distancesWhile more fuel (x.skip r') else [] := by
  rw [distancesWhile, h]

/-- What is read with less fuel is the same, or nothing. -/
theorem distancesWhile_of_le (more : CodeStep → Bool) {n : Nat} (hn : n ≤ fuel + 1)
    (h : readStep fuel r = some (x, r')) : distancesWhile more n r = [] ∨
      ∃ k, n = k + 1 ∧ distancesWhile more n r =
        if more x then x.distances ++ distancesWhile more k (x.skip r') else [] := by
  cases n with
  | zero => exact .inl rfl
  | succ k =>
      cases hk : readStep k r with
      | none => exact .inl (by rw [distancesWhile, hk])
      | some y =>
          have hsame := (readStep_of_le (Nat.le_of_succ_le_succ hn) hk).symm.trans h
          obtain rfl := Option.some.inj hsame
          exact .inr ⟨k, rfl, distancesWhile_succ more hk⟩

theorem distancesWhile_of_none (more : CodeStep → Bool) {n : Nat} (hn : n ≤ fuel + 1)
    (h : readStep fuel r = none) : distancesWhile more n r = [] := by
  cases n with
  | zero => rfl
  | succ k =>
      cases hk : readStep k r with
      | none => rw [distancesWhile, hk]
      | some y => exact nomatch (readStep_of_le (Nat.le_of_succ_le_succ hn) hk).symm.trans h

/-- To bound the first distances it is enough to look behind a step that goes on. -/
theorem allReach_firstDistances {n room : Nat} (h : readStep fuel r = some (x, r'))
    (hn : n ≤ fuel + 1)
    (hnext : x.goesOn = true → ∀ k, n = k + 1 →
      AllReach dictSize dictCur ((x.distances ++ (x.skip r').firstDistances k).take room)) :
    AllReach dictSize dictCur ((r.firstDistances n).take room) := by
  rw [firstDistances]
  obtain hnil | ⟨k, rfl, hk⟩ := distancesWhile_of_le CodeStep.goesOn hn h
  · rw [hnil, List.take_nil]
    exact trivial
  · rw [hk]
    split
    case isTrue hgoes => exact hnext hgoes k rfl
    case isFalse =>
      rw [List.take_nil]
      exact trivial

/-- The whole of what is read, where the fuel suffices for it. -/
def readAll (more : CodeStep → Bool) : Nat → CodeReader → Option (List (Option UInt32))
  | 0, _ => none
  | fuel + 1, r =>
    match readStep fuel r with
    | none => none
    | some (step, r) =>
      if more step then (readAll more fuel (step.skip r)).map (step.distances ++ ·) else some []

theorem prefix_readAll {more : CodeStep → Bool} {n : Nat} {xs : List (Option UInt32)}
    (h : readAll more n r = some xs) (fuel : Nat) : distancesWhile more fuel r <+: xs := by
  induction n generalizing fuel r xs with
  | zero => cases h
  | succ n ih =>
      rw [readAll] at h
      cases hn : readStep n r with
      | none =>
          rw [hn] at h
          cases h
      | some y =>
          rw [hn] at h
          dsimp only at h
          cases fuel with
          | zero => exact List.nil_prefix
          | succ fuel =>
              cases hfuel : readStep fuel r with
              | none =>
                  rw [distancesWhile, hfuel]
                  exact List.nil_prefix
              | some z =>
                  obtain rfl : z = y := by
                    rcases Nat.le_total n fuel with hle | hle
                    · exact Option.some.inj (hfuel.symm.trans (readStep_of_le hle hn))
                    · exact Option.some.inj ((readStep_of_le hle hfuel).symm.trans hn)
                  rw [distancesWhile_succ more hfuel]
                  split at h
                  · rw [if_pos ‹_›]
                    obtain ⟨ys, hys, rfl⟩ := Option.map_eq_some_iff.1 h
                    exact (List.prefix_append_right_inj _).2 (ih hys fuel)
                  · rw [if_neg ‹_›]
                    exact List.nil_prefix

/-- What a step adds to the output comes before what follows it. -/
theorem Safe.step (h : Safe dictSize dictCur r []) (hread : readStep fuel r = some (x, r'))
    (hx : x.isKnown = true) : Safe dictSize dictCur (x.skip r') x.distances := by
  obtain ⟨least, h⟩ := h
  refine ⟨max least fuel, fun fuel' hle ↦ ?_⟩
  have hread := readStep_of_le (Nat.le_trans (Nat.le_max_right _ _) hle) hread
  have hsucc := distancesWhile_succ CodeStep.isKnown hread
  rw [if_pos hx] at hsucc
  have hall := h (fuel' + 1) (Nat.le_succ_of_le (Nat.le_trans (Nat.le_max_left _ _) hle))
  rw [List.nil_append, distances, hsucc] at hall
  exact hall

theorem readStep_of_dict {r₁ r₂ : CodeReader} {code : UInt32 × UInt32}
    (hbit : readBit r = some (tuzCodeTypeDict, r₁)) (hcode : readCopy fuel r₁ = some (code, r₂)) :
    readStep fuel r = readControl fuel code r₂ := by
  have hcopy : (readCopy fuel >>= readControl fuel) r₁ = readControl fuel code r₂ :=
    congrArg (Option.bind · _) hcode
  exact (congrArg (Option.bind · _) hbit).trans hcopy

theorem readStep_of_copy_none {r₁ : CodeReader} (hbit : readBit r = some (tuzCodeTypeDict, r₁))
    (hcode : readCopy fuel r₁ = none) : readStep fuel r = none := by
  have hcopy : (readCopy fuel >>= readControl fuel) r₁ = none := congrArg (Option.bind · _) hcode
  exact (congrArg (Option.bind · _) hbit).trans hcopy

theorem readStep_of_data {r₁ : CodeReader} {bit : UInt32} (hbit : readBit r = some (bit, r₁))
    (hdata : bit ≠ tuzCodeTypeDict) :
    readStep fuel r = some (.data, setHaveData true { r₁ with bytes := r₁.bytes.tail }) := by
  refine (congrArg (Option.bind · _) hbit).trans ?_
  show (if bit = tuzCodeTypeDict then _ else _ : CodeM CodeStep) r₁ = _
  rw [if_neg hdata]
  rfl

theorem readControl_of_copy {code : UInt32 × UInt32} (h : code.2 ≠ 0) :
    readControl fuel code r =
      some (.copy (code.1 + tuzKMinDictMatchLen) code.2, { r with dictPosBack := code.2 }) := by
  rw [readControl, if_pos h]
  rfl

theorem readControl_of_line {code : UInt32 × UInt32} (h : ¬code.2 ≠ 0)
    (hline : code.1 = tuzCtrlTypeLiteralLine) {n : UInt32} (hn : readLine fuel r = some (n, r')) :
    readControl fuel code r = some (.line n, r') := by
  rw [readControl, if_neg h, if_pos hline]
  exact congrArg (Option.bind · _) hn

theorem readControl_of_line_none {code : UInt32 × UInt32} (h : ¬code.2 ≠ 0)
    (hline : code.1 = tuzCtrlTypeLiteralLine) (hn : readLine fuel r = none) :
    readControl fuel code r = none := by
  rw [readControl, if_neg h, if_pos hline]
  exact congrArg (Option.bind · _) hn

theorem readControl_of_clip {code : UInt32 × UInt32} (h : ¬code.2 ≠ 0)
    (hline : ¬code.1 = tuzCtrlTypeLiteralLine) :
    readControl fuel code r = some (if code.1 = tuzCtrlTypeClipEnd then .clip
      else if code.1 = tuzCtrlTypeStreamEnd then .streamEnd else .unknown, endClip r) := by
  rw [readControl, if_neg h, if_neg hline]
  rfl

theorem Safe.tail {x : Option UInt32} {front : List (Option UInt32)}
    (h : Safe dictSize dictCur r (x :: front)) :
    (∀ d ∈ x, Reaches dictSize dictCur d) ∧
      Safe dictSize (nextCur dictSize dictCur) r front := by
  obtain ⟨least, h⟩ := h
  exact ⟨(h least (Nat.le_refl _)).1, least, fun fuel hle ↦ (h fuel hle).2⟩

/-- Only what the next bit leads to matters. -/
theorem Safe.congr {front : List (Option UInt32)} (h : Safe dictSize dictCur r front)
    (hbit : readBit r' = readBit r) : Safe dictSize dictCur r' front := by
  have hstep : ∀ fuel, readStep fuel r' = readStep fuel r := fun fuel ↦
    congrArg (Option.bind · _) hbit
  have hsame : ∀ fuel, distances fuel r' = distances fuel r := by
    intro fuel
    cases fuel with
    | zero => rfl
    | succ fuel => rw [distances, distances, distancesWhile, distancesWhile, hstep]
  obtain ⟨least, h⟩ := h
  exact ⟨least, fun fuel hle ↦ hsame fuel ▸ h fuel hle⟩

theorem readBit_of_pos (h : 1 ≤ r.typeCount) :
    readBit r = some (r.types &&& 1, setTypes (r.types >>> 1) (r.typeCount - 1) r) := by
  have hbits : readBits 1 r = some (r.types, setTypes (r.types >>> 1) (r.typeCount - 1) r) := by
    show (if r.typeCount ≥ 1 then _ else _ : CodeM UInt32) r = _
    rw [if_pos h]
    rfl
  exact congrArg (Option.bind · _) hbits

theorem readBit_of_zero (h : r.typeCount = 0) :
    readBit r = some ((r.types ||| (r.bytes.headD 0).toUInt32 <<< 0) &&& 1,
      setTypes ((r.bytes.headD 0).toUInt32 >>> 1) (tuzKMaxTypeBitCount - 1)
        { r with bytes := r.bytes.tail }) := by
  have hbits : readBits 1 r = some (r.types ||| (r.bytes.headD 0).toUInt32 <<< 0,
      setTypes ((r.bytes.headD 0).toUInt32 >>> 1) (tuzKMaxTypeBitCount - 1)
        { r with bytes := r.bytes.tail }) := by
    show (if r.typeCount ≥ 1 then _ else _ : CodeM UInt32) r = _
    rw [h]
    rfl
  exact congrArg (Option.bind · _) hbits

/-- A bit of data that is pushed back is read again. -/
theorem readBit_push {bit : UInt32} (h : readBit r = some (bit, r'))
    (hbit : bit ≠ tuzCodeTypeDict) :
    readBit (setTypes ((r'.types <<< 1) + tuzCodeTypeData) (r'.typeCount + 1) r') =
      some (bit, r') := by
  by_cases hcount : 1 ≤ r.typeCount
  · rw [readBit_of_pos hcount] at h
    obtain ⟨rfl, rfl⟩ := Prod.mk.inj (Option.some.inj h)
    -- this is the reader in front of the bit
    have hback : setTypes ((r.types >>> 1) <<< 1 + 1) (r.typeCount - 1 + 1) r = r := by
      rw [push_of_bit hbit, UInt32.sub_add_cancel]
      rfl
    exact (congrArg readBit hback).trans (readBit_of_pos hcount)
  · have hzero : r.typeCount = 0 := by
      rw [UInt32.le_iff_toNat_le, UInt32.toNat_one, Nat.not_le] at hcount
      exact UInt32.toNat_inj.1 (Nat.lt_one_iff.1 hcount)
    rw [readBit_of_zero hzero] at h
    obtain ⟨rfl, rfl⟩ := Prod.mk.inj (Option.some.inj h)
    -- the pushed bit stands in front of what is left of the new type byte
    rw [readBit_of_pos (show (1 : UInt32) ≤ tuzKMaxTypeBitCount - 1 + 1 by decide)]
    have hone := bit_eq_one hbit
    rw [hone]
    have hpush := push_bit (r.bytes.headD 0).toUInt32
    have hshift := push_shift (r.bytes.headD 0).toUInt32
    exact congrArg some (Prod.ext hpush (congrArg (setTypes · (tuzKMaxTypeBitCount - 1)
      { r with bytes := r.bytes.tail }) hshift))

end CodeReader

theorem AllReach.of_prefix {dictSize dictCur : UInt32} {xs ys : List (Option UInt32)}
    (h : AllReach dictSize dictCur ys) (hle : xs <+: ys) : AllReach dictSize dictCur xs := by
  induction xs generalizing dictCur ys with
  | nil => exact trivial
  | cons x xs ih =>
      obtain ⟨zs, rfl⟩ := hle
      exact ⟨h.1, ih h.2 (List.prefix_append xs zs)⟩

/-- Code that is read to its end has finitely many distances to look at. -/
theorem distancesReach_of_readAll {dictSize : UInt32} {code : List UInt8} {n : Nat}
    {xs : List (Option UInt32)}
    (h : CodeReader.readAll CodeStep.isKnown n (.start code) = some xs)
    (hall : AllReach dictSize 0 xs) : DistancesReach dictSize code :=
  fun fuel ↦ hall.of_prefix (CodeReader.prefix_readAll h fuel)

end DualBank
