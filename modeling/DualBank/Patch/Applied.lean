import DualBank.Lib.Bits
import DualBank.Patch.Format

/-!
# Applying a patch

On a byte string of the format, `hpatch_lite_patch` writes the image that the covers make of
the old one, in whatever pieces the diff comes in.
-/

namespace DualBank

open Lib Stateful InputCache Bits

/-! ## Numbers -/

/-- A step of `_cache_unpackUInt` on the value. -/
theorem toNat_shiftLeft_seven_or {v : UInt32} (b : UInt8)
    (h : v.toNat * 128 + b.toNat % 128 < 2 ^ 32) :
    ((v <<< (7 : UInt32)) ||| (b.toUInt32 &&& 127)).toNat = v.toNat * 128 + b.toNat % 128 := by
  have hlow : (b.toUInt32 &&& 127).toNat = b.toNat % 2 ^ 7 := toNat_and_mask (k := 7) rfl
  have hlt := hlow.trans_lt (Nat.mod_lt _ (Nat.two_pow_pos 7))
  rw [toNat_shiftLeft_or (k := 7) rfl (by decide) hlt (by omega), hlow]
  rfl

theorem shiftRight_seven_eq_zero_iff (b : UInt8) : b.toUInt32 >>> 7 = 0 ↔ b.toNat < 128 := by
  rw [← UInt32.toNat_inj, UInt32.toNat_shiftRight, UInt8.toNat_toUInt32]
  show b.toNat >>> 7 = 0 ↔ _
  rw [Nat.shiftRight_eq_div_pow, Nat.div_eq_zero_iff]
  omega

/-! ## Tags -/

theorem toUInt32_and_eq_zero_iff (tag mask : UInt8) :
    tag.toUInt32 &&& mask.toUInt32 = 0 ↔ tag &&& mask = 0 := by
  rw [← UInt8.toUInt32_and]
  exact UInt8.toUInt32_inj (b := 0)

theorem toUInt32_shiftRight_seven_eq_zero_iff (tag : UInt8) :
    tag.toUInt32 >>> 7 = 0 ↔ tag >>> 7 = 0 := by
  rw [shiftRight_seven_eq_zero_iff, ← UInt8.toNat_inj, UInt8.toNat_shiftRight]
  show _ ↔ tag.toNat >>> 7 = 0
  rw [Nat.shiftRight_eq_div_pow, Nat.div_eq_zero_iff]
  omega

/-! ## The environment -/

section Applied

variable {T : Type} {answer : (op : PatchOp) → T → op.Res × T} {M : PatchMemory} {fuel : Nat}
  {old : List UInt8} {total : Nat} {Src : List UInt8 → List UInt8 → DiffData → T → Prop}

/-- An environment with this old image and room for `total` bytes of the new one.  `Src` says
what was written and what the diff has still to give. -/
structure PatchEnv (answer : (op : PatchOp) → T → op.Res × T) (read : InputStreamRead DiffData)
    (old : List UInt8) (total : Nat) (Src : List UInt8 → List UInt8 → DiffData → T → Prop) :
    Prop where
  readDiff : ∀ new, Serves answer read (Src new)
  readOld : ∀ {new rest diffData t} {pos n : Nat}, Src new rest diffData t →
    pos + n ≤ old.length → (answer (.readOld pos n) t).1 = some ((old.drop pos).take n) ∧
      Src new rest diffData (answer (.readOld pos n) t).2
  writeNew : ∀ {new rest diffData t} {data : List UInt8}, Src new rest diffData t →
    (new ++ data).length ≤ total → (answer (.writeNew data) t).1 = true ∧
      Src (new ++ data) rest diffData (answer (.writeNew data) t).2

variable (E : PatchEnv answer (readDiff M fuel) old total Src)
  {new rest : List UInt8} {self : InputCache DiffData} {t : T}
include E

/-! ## Reading the diff -/

theorem diffRead1byte_returns {b : UInt8} (hat : At (Src new) (b :: rest) self t) :
    Returns answer (diffRead1byte M fuel)
      (fun x self t ↦ x = b.toUInt32 ∧ At (Src new) rest self t) self t := by
  refine Returns.bind (hat.read1byte (E.readDiff new)) ?_
  rintro _ self t ⟨rfl, h⟩
  exact returns_pure ⟨rfl, h⟩

/-- `_cache_unpackUInt` reads what is packed. -/
theorem cacheUnpackUInt_returns {v w n : Nat} {bs : List UInt8} (hpacked : Packed v bs w)
    (hw : w < 2 ^ 32) (hn : bs.length < n) {x isNext : UInt32} (hx : x.toNat = v)
    (hnext : isNext ≠ 0) (hat : At (Src new) (bs ++ rest) self t) :
    Returns answer (cacheUnpackUInt M fuel n x isNext)
      (fun y self t ↦ y.toNat = w ∧ At (Src new) rest self t) self t := by
  induction hpacked generalizing n x isNext self t with
  | @last v b hb =>
      obtain ⟨n, rfl⟩ : ∃ k, n = k + 2 := ⟨n - 2, by rw [List.length_singleton] at hn; omega⟩
      unfold cacheUnpackUInt
      rw [if_neg hnext]
      refine (diffRead1byte_returns E hat).bind ?_
      rintro _ self t ⟨rfl, h⟩
      unfold cacheUnpackUInt
      rw [if_pos ((shiftRight_seven_eq_zero_iff b).2 hb)]
      refine returns_pure ⟨?_, h⟩
      rw [toNat_shiftLeft_seven_or b (by omega), hx, Nat.mod_eq_of_lt hb]
  | @more v w b bs hb hpacked ih =>
      have hle := hpacked.le
      have hlt := b.toNat_lt
      have hmod : b.toNat % 128 = b.toNat - 128 := by omega
      obtain ⟨n, rfl⟩ : ∃ k, n = k + 1 := ⟨n - 1, by omega⟩
      unfold cacheUnpackUInt
      rw [if_neg hnext]
      refine (diffRead1byte_returns E hat).bind ?_
      rintro _ self t ⟨rfl, h⟩
      refine ih hw (Nat.lt_of_succ_lt_succ hn) ?_ ?_ h
      · rw [toNat_shiftLeft_seven_or b (by omega), hx, hmod]
      · rw [Ne, shiftRight_seven_eq_zero_iff]
        omega

/-- The distance of a cover, which starts in the tag. -/
theorem distance_returns {tag : UInt8} {d : Nat} {bs : List UInt8}
    (hdistance : if tag &&& 32 = 0 then bs = [] ∧ d = (tag &&& 31).toNat
      else Packed (tag &&& 31).toNat bs d) (hd : d < 2 ^ 32) (hfuel : bs.length < fuel)
    (hat : At (Src new) (bs ++ rest) self t) :
    Returns answer (cacheUnpackUInt M fuel fuel (tag.toUInt32 &&& 31) (tag.toUInt32 &&& 32))
      (fun y self t ↦ y.toNat = d ∧ At (Src new) rest self t) self t := by
  have hmask : tag.toUInt32 &&& 32 = 0 ↔ tag &&& 32 = 0 := toUInt32_and_eq_zero_iff tag 32
  have hlow : (tag.toUInt32 &&& 31).toNat = (tag &&& 31).toNat :=
    congrArg UInt32.toNat (UInt8.toUInt32_and tag 31).symm
  by_cases htag : tag &&& 32 = 0
  · rw [if_pos htag] at hdistance
    obtain ⟨rfl, rfl⟩ := hdistance
    obtain ⟨n, hn⟩ : ∃ n, fuel = n + 1 := ⟨fuel - 1, by omega⟩
    rw [show cacheUnpackUInt M fuel fuel = cacheUnpackUInt M fuel (n + 1) by rw [← hn]]
    unfold cacheUnpackUInt
    rw [if_pos (hmask.2 htag)]
    exact returns_pure ⟨hlow, hat⟩
  · rw [if_neg htag] at hdistance
    exact cacheUnpackUInt_returns E hdistance hd hfuel hlow (fun h ↦ htag (hmask.1 h)) hat

/-- A cover as it is read, behind so many new bytes. -/
structure Cover.Is (cover : Cover) (c : PatchCover) (newPosBack : Nat) : Prop where
  oldPos : cover.oldPos.toNat = c.oldPos
  newPos : cover.newPos.toNat = newPosBack + c.before.length
  length : cover.length.toNat = c.body.length
  copy : cover.isNotNeedSubDiff = true ↔ ∃ n, c.body = .copy n

theorem readCover_returns {oldPosBack newPosBack : UInt32} {c : PatchCover} {code : List UInt8}
    (hcode : CoverCode oldPosBack.toNat c code) (hfuel : code.length < fuel)
    (hfits : c.Fits old) (hold : old.length < 2 ^ 32)
    (hnew : newPosBack.toNat + c.before.length < 2 ^ 32)
    (hat : At (Src new) (code ++ rest) self t) :
    Returns answer (readCover M fuel newPosBack oldPosBack) (fun cover self t ↦
      cover.Is c newPosBack.toNat ∧ At (Src new) (c.before ++ (c.body.sub ++ rest)) self t)
      self t := by
  obtain @⟨lengthCode, oldPosCode, newPosCode, tag, d, hlength, hdistance, holdPos, hbody,
    hnewPos⟩ := hcode
  unfold PatchCover.Fits at hfits
  have hback := oldPosBack.toNat_lt
  have hd : d < 2 ^ 32 := by
    split_ifs at holdPos <;> omega
  simp only [List.append_assoc, List.cons_append] at hat
  simp only [List.length_append, List.length_cons] at hfuel
  unfold readCover
  refine (cacheUnpackUInt_returns E hlength (by omega) (by omega) rfl (by decide) hat).bind ?_
  rintro length self t ⟨hlen, h⟩
  refine (diffRead1byte_returns E h).bind ?_
  rintro _ self t ⟨rfl, h⟩
  refine (distance_returns E hdistance hd (by omega) h).bind ?_
  rintro distance self t ⟨hdist, h⟩
  refine (cacheUnpackUInt_returns E hnewPos (by omega) (by omega) rfl (by decide) h).bind ?_
  rintro newPos self t ⟨hpos, h⟩
  refine returns_pure ⟨⟨?_, ?_, hlen, ?_⟩, h⟩
  · have hmask : tag.toUInt32 &&& 64 = 0 ↔ tag &&& 64 = 0 := toUInt32_and_eq_zero_iff tag 64
    show (if tag.toUInt32 &&& 64 ≠ 0 then oldPosBack - distance
      else distance + oldPosBack).toNat = _
    by_cases htag : tag &&& 64 = 0
    · rw [if_pos htag] at holdPos
      rw [if_neg (not_not.2 (hmask.2 htag)), UInt32.toNat_add, hdist,
        Nat.mod_eq_of_lt (by omega)]
      omega
    · rw [if_neg htag] at holdPos
      rw [if_pos fun h ↦ htag (hmask.1 h), UInt32.toNat_sub_of_le, hdist]
      · omega
      · rw [UInt32.le_iff_toNat_le, hdist]
        omega
  · show (newPos + newPosBack).toNat = _
    rw [UInt32.toNat_add, hpos, Nat.mod_eq_of_lt (by omega), Nat.add_comm]
  · rw [← hbody]
    exact (decide_eq_true_iff).trans (toUInt32_shiftRight_seven_eq_zero_iff tag).not

/-! ## New bytes -/

theorem refill_returns (hrest : rest ≠ []) (hat : At (Src new) rest self t) :
    Returns answer (refill M fuel)
      (fun ok self t ↦ ok = true ∧ self.unread ≠ [] ∧ At (Src new) rest self t) self t := by
  refine returns_get_bind ?_
  by_cases hunread : self.unread.length = 0
  · rw [if_pos hunread]
    exact hat.update (E.readDiff new) (List.length_eq_zero_iff.1 hunread) hrest
  · rw [if_neg hunread]
    exact returns_pure ⟨rfl, fun h ↦ hunread (List.length_eq_zero_iff.2 h), hat⟩

theorem writeNew_returns {data : List UInt8} (hlen : (new ++ data).length ≤ total)
    (hat : At (Src new) rest self t) :
    Returns answer (writeNew data)
      (fun ok self' t ↦ ok = true ∧ self' = self ∧ At (Src (new ++ data)) rest self t) self t := by
  obtain ⟨hend, left, hleft, hsrc⟩ := hat
  obtain ⟨hok, hnext⟩ := E.writeNew hsrc hlen
  exact returns_lift ⟨hok, rfl, hend, left, hleft, hnext⟩

theorem readOld_returns {oldPos : UInt32} {n : Nat} (hlen : oldPos.toNat + n ≤ old.length)
    (hat : At (Src new) rest self t) :
    Returns answer (readOld oldPos n) (fun data self' t ↦
      data = some ((old.drop oldPos.toNat).take n) ∧ self' = self ∧ At (Src new) rest self t)
      self t := by
  obtain ⟨hend, left, hleft, hsrc⟩ := hat
  obtain ⟨hdata, hnext⟩ := E.readOld hsrc hlen
  exact returns_lift ⟨hdata, rfl, hend, left, hleft, hnext⟩

omit E in
/-- What is skipped is in the cache. -/
theorem skip_returns {k : Nat} (hk : k ≤ self.unread.length) (hat : At (Src new) rest self t) :
    Returns answer (skip k) (fun _ self t ↦ At (Src new) (rest.drop k) self t) self t := by
  obtain ⟨hend, left, rfl, hsrc⟩ := hat
  exact returns_modify ⟨hend, left, List.drop_append_of_le_length hk, hsrc⟩

omit E in
theorem take_unread {k : Nat} (hk : k ≤ self.unread.length) (hat : At (Src new) rest self t) :
    self.unread.take k = rest.take k := by
  obtain ⟨hend, left, rfl, hsrc⟩ := hat
  exact (List.take_append_of_le_length hk).symm

/-- `_patch_copy_diff` writes the next bytes of the diff. -/
theorem patchCopyDiff_returns {n : Nat} {data : List UInt8} (hn : data.length < n)
    (hlen : (new ++ data).length ≤ total) (hat : At (Src new) (data ++ rest) self t) :
    Returns answer (patchCopyDiff M fuel n data.length)
      (fun ok self t ↦ ok = true ∧ At (Src (new ++ data)) rest self t) self t := by
  induction n generalizing data new self t with
  | zero => omega
  | succ n ih =>
      unfold patchCopyDiff
      by_cases hzero : data.length = 0
      · rw [if_pos hzero]
        obtain rfl := List.length_eq_zero_iff.1 hzero
        rw [List.append_nil]
        exact returns_pure ⟨rfl, hat⟩
      rw [if_neg hzero]
      have hne : data ++ rest ≠ [] := fun h ↦
        hzero (List.length_eq_zero_iff.2 (List.append_eq_nil_iff.1 h).1)
      refine (refill_returns E hne hat).bind ?_
      rintro _ self t ⟨rfl, hunread, h⟩
      refine returns_get_bind ?_
      have hpos := List.length_pos_iff.2 hunread
      generalize hk : min self.unread.length data.length = k
      -- the bytes of this step, and those that are left
      have hdata := List.take_append_drop k data
      have hstep : self.unread.take k = data.take k := by
        rw [take_unread (by omega) h, List.take_append_of_le_length (by omega)]
      have hlens : (data.take k).length = k ∧ (data.drop k).length = data.length - k := by
        rw [List.length_take, List.length_drop]
        omega
      dsimp only
      rw [hstep]
      simp only [List.length_append] at hlen
      have hfits : (new ++ data.take k).length ≤ total := by
        rw [List.length_append]
        omega
      refine (writeNew_returns E hfits h).bind ?_
      rintro _ _ t ⟨rfl, rfl, h⟩
      refine (skip_returns (by omega) h).bind ?_
      rintro _ self t h
      rw [List.drop_append_of_le_length (by omega)] at h
      rw [← hlens.2]
      refine (ih (by omega) ?_ h).mono ?_
      · simp only [List.length_append]
        omega
      · rintro ok self t ⟨hok, h⟩
        rw [List.append_assoc, hdata] at h
        exact ⟨hok, h⟩

/-! ## Covers -/

theorem addStep_returns {isNotNeedSubDiff : Bool} (hrest : isNotNeedSubDiff = false → rest ≠ [])
    (hat : At (Src new) rest self t) :
    Returns answer (addStep M fuel isNotNeedSubDiff) (fun step self t ↦ step ≠ 0 ∧
      (isNotNeedSubDiff = false → step ≤ self.unread.length) ∧ At (Src new) rest self t)
      self t := by
  unfold addStep
  cases isNotNeedSubDiff with
  | true => exact returns_get_bind (returns_pure ⟨hat.cacheEnd, nofun, hat⟩)
  | false =>
      refine (refill_returns E (hrest rfl) hat).bind ?_
      rintro _ self t ⟨-, hunread, h⟩
      exact returns_get_bind (returns_pure
        ⟨fun hzero ↦ hunread (List.length_eq_zero_iff.1 hzero), fun _ ↦ Nat.le_refl _, h⟩)

omit E in
/-- What a step of `_patch_add_old_withClip` writes and skips. -/
theorem addOld_step {isNotNeedSubDiff : Bool} {body : CoverBody} {k : Nat}
    (stretch rest : List UInt8) {unread : List UInt8}
    (hcopy : isNotNeedSubDiff = true ↔ ∃ n, body = .copy n)
    (hk : k ≤ body.length)
    (hunread : isNotNeedSubDiff = false → unread.take k = (body.sub ++ rest).take k) :
    (if isNotNeedSubDiff then stretch else addData stretch (unread.take k)) =
        (body.take k).apply stretch ∧
      (body.sub ++ rest).drop (if isNotNeedSubDiff then 0 else k) = (body.drop k).sub ++ rest := by
  cases body with
  | copy length =>
      rw [hcopy.2 ⟨_, rfl⟩]
      exact ⟨rfl, rfl⟩
  | add sub =>
      have hfalse : isNotNeedSubDiff = false := by
        refine Bool.eq_false_iff.2 fun htrue ↦ ?_
        obtain ⟨_, hbody⟩ := hcopy.1 htrue
        cases hbody
      rw [hfalse, hunread hfalse]
      exact ⟨congrArg (addData _) (List.take_append_of_le_length hk),
        List.drop_append_of_le_length hk⟩

/-- `_patch_add_old_withClip` writes what a cover makes of its stretch. -/
theorem patchAddOldWithClip_returns {isNotNeedSubDiff : Bool} {n : Nat} {oldPos : UInt32}
    {body : CoverBody} (hcopy : isNotNeedSubDiff = true ↔ ∃ n, body = .copy n)
    (hn : body.length < n) (hold : oldPos.toNat + body.length ≤ old.length)
    (hsize : old.length < 2 ^ 32) (hlen : new.length + body.length ≤ total)
    (hat : At (Src new) (body.sub ++ rest) self t) :
    Returns answer (patchAddOldWithClip M fuel isNotNeedSubDiff n oldPos body.length)
      (fun ok self t ↦ ok = true ∧
        At (Src (new ++ body.apply ((old.drop oldPos.toNat).take body.length))) rest self t)
      self t := by
  induction n generalizing new oldPos body self t with
  | zero => omega
  | succ n ih =>
      unfold patchAddOldWithClip
      by_cases hzero : body.length = 0
      · rw [if_pos hzero]
        obtain ⟨hnil, hsub⟩ : body.apply ((old.drop oldPos.toNat).take 0) = [] ∧ body.sub = [] := by
          cases body with
          | copy length => exact ⟨rfl, rfl⟩
          | add sub => exact ⟨rfl, List.length_eq_zero_iff.1 hzero⟩
        rw [hsub, List.nil_append] at hat
        rw [hzero, hnil, List.append_nil]
        exact returns_pure ⟨rfl, hat⟩
      rw [if_neg hzero]
      have hrest : isNotNeedSubDiff = false → body.sub ++ rest ≠ [] := by
        rintro rfl
        cases body with
        | copy length => exact absurd (hcopy.2 ⟨_, rfl⟩) Bool.false_ne_true
        | add sub =>
            exact fun h ↦ hzero (List.length_eq_zero_iff.2 (List.append_eq_nil_iff.1 h).1)
      refine (addStep_returns E hrest hat).bind ?_
      rintro step self t ⟨hstep, hunread, h⟩
      rw [if_neg hstep]
      dsimp only
      generalize hk : min step body.length = k
      have hkstep : k ≤ step := hk ▸ Nat.min_le_left ..
      have hkbody : k ≤ body.length := hk ▸ Nat.min_le_right ..
      refine (readOld_returns E (by omega) h).bind ?_
      rintro _ self t ⟨rfl, rfl, h⟩
      refine returns_get_bind ?_
      obtain ⟨hdata, hskip⟩ := addOld_step ((old.drop oldPos.toNat).take k) rest
        hcopy hkbody fun hflag ↦ take_unread (Nat.le_trans hkstep (hunread hflag)) h
      have hstretch : ((old.drop oldPos.toNat).take k).length = k := by
        rw [List.length_take, List.length_drop]
        omega
      have hnewLen : ((body.take k).apply ((old.drop oldPos.toNat).take k)).length = k := by
        have htake := CoverBody.length_take hkbody
        rw [CoverBody.length_apply (hstretch.trans htake.symm), htake]
      rw [hdata]
      refine (writeNew_returns E ?_ h).bind ?_
      · rw [List.length_append, hnewLen]
        omega
      rintro _ self t ⟨rfl, rfl, h⟩
      refine (skip_returns (k := if isNotNeedSubDiff then 0 else k) ?_ h).bind ?_
      · cases hflag : isNotNeedSubDiff with
        | true => exact Nat.zero_le _
        | false => exact Nat.le_trans hkstep (hunread hflag)
      rintro _ self t h
      rw [hskip] at h
      have hpos : (oldPos + k.toUInt32).toNat = oldPos.toNat + k := by
        show (oldPos.toNat + k % 2 ^ 32) % 2 ^ 32 = _
        rw [Nat.mod_eq_of_lt (by omega), Nat.mod_eq_of_lt (by omega)]
      have hleft : (body.drop k).length = body.length - k := CoverBody.length_drop
      rw [← hleft]
      refine (ih (hcopy.trans CoverBody.drop_eq_copy_iff.symm) (by omega) (by omega) ?_ h).mono ?_
      · rw [List.length_append, hnewLen]
        omega
      · rintro ok self t ⟨hok, h⟩
        refine ⟨hok, ?_⟩
        rw [List.append_assoc, ← CoverBody.apply_append hstretch hkbody, hpos, hleft,
          ← List.drop_drop, ← List.take_add, Nat.add_sub_cancel' hkbody] at h
        exact h

/-- The new bytes in front of a cover. -/
theorem patchBefore_returns {newPosBack : UInt32} {cover : Cover} {c : PatchCover}
    (hcover : cover.Is c newPosBack.toNat) (hfuel : c.before.length < fuel)
    (hlen : (new ++ c.before).length ≤ total) (hat : At (Src new) (c.before ++ rest) self t) :
    Returns answer (patchBefore M fuel newPosBack cover)
      (fun ok self t ↦ ok = true ∧ At (Src (new ++ c.before)) rest self t) self t := by
  have hnewPos := hcover.newPos
  unfold patchBefore
  by_cases hlt : newPosBack < cover.newPos
  · rw [if_pos hlt]
    have hle := Nat.le_of_lt (UInt32.lt_iff_toNat_lt.1 hlt)
    have hsub : (cover.newPos - newPosBack).toNat = c.before.length := by
      rw [UInt32.toNat_sub_of_le _ _ (UInt32.le_iff_toNat_le.2 hle)]
      omega
    rw [hsub]
    exact patchCopyDiff_returns E hfuel hlen hat
  · rw [if_neg hlt]
    rw [UInt32.lt_iff_toNat_lt] at hlt
    have hnil : c.before = [] := List.length_eq_zero_iff.1 (by omega)
    rw [hnil, List.append_nil]
    rw [hnil, List.nil_append] at hat
    exact returns_pure ⟨rfl, hat⟩

/-- The loop over the covers writes what they make of the old image. -/
theorem patchCovers_returns {newPosBack oldPosBack : UInt32} {covers : List PatchCover}
    {code : List UInt8} (hcode : CoversCode oldPosBack.toNat covers code)
    (hfuel : code.length < fuel) (htotal : total < fuel) (hfits : ∀ c ∈ covers, c.Fits old)
    (hold : old.length < 2 ^ 32) (hsize : total < 2 ^ 32) (hnew : newPosBack.toNat = new.length)
    (hlen : (new ++ newImage old covers).length ≤ total)
    (hat : At (Src new) (code ++ rest) self t) :
    Returns answer (patchCovers M fuel covers.length newPosBack oldPosBack)
      (fun end? self t ↦
        (∃ e, end? = some e ∧ e.toNat = (new ++ newImage old covers).length) ∧
          At (Src (new ++ newImage old covers)) rest self t) self t := by
  induction covers generalizing newPosBack oldPosBack code new self t with
  | nil =>
      cases hcode
      rw [newImage_nil, List.append_nil]
      exact returns_pure ⟨⟨_, rfl, hnew⟩, hat⟩
  | cons c covers ih =>
      obtain ⟨hc, hcovers⟩ := List.forall_mem_cons.1 hfits
      cases hcode with
      | @cons _ _ _ bs cs hbs hcs =>
      rw [newImage_cons, ← List.append_assoc] at hlen ⊢
      have hbytes := PatchCover.length_newBytes hc
      simp only [List.length_append] at hlen hfuel
      rw [List.append_assoc] at hat
      rw [List.length_cons]
      unfold patchCovers
      refine (readCover_returns E hbs (by omega) hc hold (by omega) hat).bind ?_
      rintro cover self t ⟨hcover, h⟩
      refine (patchBefore_returns E hcover (by omega) (by rw [List.length_append]; omega) h).bind ?_
      rintro _ self t ⟨rfl, h⟩
      have hspan := hc
      unfold PatchCover.Fits at hspan
      have hlast := hcover.oldPos
      have hcoverLen := hcover.length
      have hnewPos := hcover.newPos
      refine Returns.bind (I := fun ok self t ↦ ok = true ∧
        At (Src (new ++ c.newBytes old)) (cs ++ rest) self t) ?_ ?_
      · rw [hcoverLen, PatchCover.newBytes, PatchCover.stretch, ← List.append_assoc, ← hlast]
        refine patchAddOldWithClip_returns E hcover.copy (by omega) (by omega) hold ?_ h
        rw [List.length_append]
        omega
      rintro _ self t ⟨rfl, h⟩
      have holdNext : (cover.oldPos + cover.length).toNat = c.oldPos + c.body.length := by
        rw [UInt32.toNat_add, hlast, hcoverLen, Nat.mod_eq_of_lt (by omega)]
      have hnewNext : (cover.newPos + cover.length).toNat = (new ++ c.newBytes old).length := by
        rw [UInt32.toNat_add, hnewPos, hcoverLen, Nat.mod_eq_of_lt (by omega),
          List.length_append, hbytes]
        omega
      refine ih (holdNext ▸ hcs) (by omega) hcovers hnewNext ?_ h
      simp only [List.length_append]
      omega

/-- `hpatch_lite_patch` writes the new image. -/
theorem hpatchLitePatch_returns {covers : List PatchCover} {code : List UInt8} {newSize : UInt32}
    (hcode : PatchCode covers code) (hcount : covers.length < 2 ^ 32)
    (hfits : ∀ c ∈ covers, c.Fits old) (hold : old.length < 2 ^ 32) (hsize : total < 2 ^ 32)
    (hnew : newSize.toNat = (newImage old covers).length) (hlen : newSize.toNat ≤ total)
    (hfuel : code.length < fuel) (htotal : total < fuel) (hat : At (Src []) code self t) :
    Returns answer (hpatchLitePatch M fuel newSize)
      (fun ok self t ↦ ok = true ∧ At (Src (newImage old covers)) [] self t) self t := by
  obtain @⟨countCode, bs, hcountCode, hcovers⟩ := hcode
  rw [List.length_append] at hfuel
  unfold hpatchLitePatch
  refine (cacheUnpackUInt_returns E hcountCode hcount (by omega) rfl (by decide) hat).bind ?_
  rintro coverCount self t ⟨hcover, h⟩
  rw [hcover]
  rw [← List.append_nil bs] at h
  have hcovers : CoversCode (0 : UInt32).toNat covers bs := hcovers
  refine (patchCovers_returns E hcovers (by omega) htotal hfits hold hsize rfl ?_ h).bind ?_
  · rw [List.nil_append, ← hnew]
    exact hlen
  rintro _ self t ⟨⟨newPosBack, rfl, hend⟩, h⟩
  rw [List.nil_append] at hend h
  have hsame : newSize = newPosBack := UInt32.toNat_inj.1 (hnew.trans hend.symm)
  refine returns_get_bind (returns_pure ⟨?_, h⟩)
  rw [hsame, beq_self_eq_true, h.successFinish, Bool.and_self]

end Applied

end DualBank
