import DualBank.Lib.Stateful
import DualBank.Ota.Delta

/-!
# Input caches

`third_party/hpatch_lite/hpatch_lite_input_cache.h` and the two functions of
`hpatch_lite.c` that it declares.  HPatchLite reads the diff through such a cache, and
tinyuz, which is built to share them, the compressed code.
-/

namespace DualBank

open Lib Stateful

/-- `_hpi_TInputCache` over an input stream in `S`. -/
structure InputCache (S : Type) where
  /-- `cache_buf` from `cache_begin` to `cache_end`. -/
  unread : List UInt8
  cacheEnd : Nat
  inputStream : S

/-- Code of the libraries that works on a `D`. -/
abbrev PatchM (D : Type) (α : Type) : Type := Stateful PatchOp PatchOp.Res D α

/-- `hpi_TInputStream_read`: what was read, or `none` for `hpi_FALSE`. -/
abbrev InputStreamRead (S : Type) : Type := Nat → PatchM S (Option (List UInt8))

namespace InputCache

variable {S : Type}

/-- A cache of this size before its first use. -/
def start (cacheSize : Nat) (inputStream : S) : InputCache S := ⟨[], cacheSize, inputStream⟩

/-- `_hpi_cache_success_finish`. -/
def successFinish (self : InputCache S) : Bool := self.cacheEnd ≠ 0

/-- The call of `read_code` in `_cache_update`. -/
def readCode (read : InputStreamRead S) (len : Nat) :
    PatchM (InputCache S) (Option (List UInt8)) :=
  zoom inputStream (fun stream self ↦ { self with inputStream := stream }) (read len)

/-- `_cache_update`. -/
def update (read : InputStreamRead S) : PatchM (InputCache S) Bool := do
  let self ← Stateful.get
  let data ← readCode read self.cacheEnd
  let got := data.getD []
  Stateful.modify fun self ↦ { self with unread := got, cacheEnd := got.length }
  return got.length ≠ 0

/-- `self->cache_buf[self->cache_begin++]`. -/
def takeByte : PatchM (InputCache S) UInt8 := do
  let self ← Stateful.get
  Stateful.modify fun self ↦ { self with unread := self.unread.tail }
  return self.unread.headD 0

/-- `_cache_read_1byte`. -/
def read1byte (read : InputStreamRead S) : PatchM (InputCache S) UInt8 := do
  let self ← Stateful.get
  if self.unread ≠ [] then takeByte
  else do
    let ok ← update read
    if ok then takeByte else return 0

/-! ## More fuel below -/

section Le

variable {read read' : InputStreamRead S} (h : ∀ n, Le (read n) (read' n))
include h

theorem update_le : Le (update read) (update read') :=
  (Le.refl _).bind fun _ ↦ (Le.zoom (h _)).bind fun _ ↦ Le.refl _

theorem read1byte_le : Le (read1byte read) (read1byte read') := by
  refine (Le.refl _).bind fun self ↦ ?_
  split
  · exact Le.refl _
  · exact (update_le h).bind fun _ ↦ Le.refl _

end Le

/-! ## What is read -/

section At

variable {T : Type} {answer : (op : PatchOp) → T → op.Res × T} {read : InputStreamRead S}
  {Src : List UInt8 → S → T → Prop}

/-- `Src` says what an input stream has still to give, and a read gives the next bytes. -/
def Serves (answer : (op : PatchOp) → T → op.Res × T) (read : InputStreamRead S)
    (Src : List UInt8 → S → T → Prop) : Prop :=
  ∀ (rest : List UInt8) (stream : S) (t : T) (n : Nat), Src rest stream t → rest ≠ [] → 0 < n →
    Returns answer (read n) (fun data stream t ↦ ∃ got left, data = some got ∧ got ≠ [] ∧
      rest = got ++ left ∧ Src left stream t) stream t

/-- These bytes are still to come, some of them from the cache. -/
structure At (Src : List UInt8 → S → T → Prop) (rest : List UInt8) (cache : InputCache S) (t : T) :
    Prop where
  cacheEnd : cache.cacheEnd ≠ 0
  rest : ∃ left, rest = cache.unread ++ left ∧ Src left cache.inputStream t

variable {rest : List UInt8} {self : InputCache S} {t : T}

theorem at_start {cacheSize : Nat} {stream : S} (hsize : cacheSize ≠ 0) (h : Src rest stream t) :
    At Src rest (start cacheSize stream) t := ⟨hsize, rest, rfl, h⟩

theorem At.successFinish (h : At Src rest self t) : self.successFinish = true :=
  decide_eq_true h.cacheEnd

/-- An update of an empty cache fills it, if anything is to come. -/
theorem At.update (hread : Serves answer read Src) (h : At Src rest self t)
    (hempty : self.unread = []) (hrest : rest ≠ []) :
    Returns answer (update read)
      (fun ok self t ↦ ok = true ∧ self.unread ≠ [] ∧ At Src rest self t) self t := by
  obtain ⟨hend, left, hleft, hstream⟩ := h
  rw [hempty, List.nil_append] at hleft
  subst hleft
  refine returns_get_bind (Returns.bind (I := fun data self t ↦ ∃ got left, data = some got ∧
    got ≠ [] ∧ rest = got ++ left ∧ Src left self.inputStream t)
    (returns_zoom (hread _ _ _ _ hstream hrest (Nat.pos_of_ne_zero hend))) ?_)
  rintro _ self t ⟨got, left, rfl, hgot, rfl, hsrc⟩
  have hlen : got.length ≠ 0 := fun h ↦ hgot (List.length_eq_zero_iff.1 h)
  exact returns_modify_bind (returns_pure ⟨decide_eq_true hlen, hgot, hlen, left, rfl, hsrc⟩)

theorem At.takeByte {b : UInt8} (h : At Src (b :: rest) self t) (hunread : self.unread ≠ []) :
    Returns answer takeByte (fun x self t ↦ x = b ∧ At Src rest self t) self t := by
  obtain ⟨hend, left, hleft, hsrc⟩ := h
  obtain ⟨x, unread, hself⟩ := List.exists_cons_of_ne_nil hunread
  rw [hself, List.cons_append] at hleft
  obtain ⟨rfl, rfl⟩ := List.cons.inj hleft
  refine returns_get_bind (returns_modify_bind (returns_pure ⟨?_, hend, left, ?_, hsrc⟩))
  · rw [hself, List.headD_cons]
  · rw [hself, List.tail_cons]

theorem At.read1byte (hread : Serves answer read Src) {b : UInt8} (h : At Src (b :: rest) self t) :
    Returns answer (read1byte read) (fun x self t ↦ x = b ∧ At Src rest self t) self t := by
  refine returns_get_bind ?_
  by_cases hunread : self.unread ≠ []
  · rw [if_pos hunread]
    exact h.takeByte hunread
  · rw [if_neg hunread]
    refine Returns.bind (h.update hread (not_not.1 hunread) (List.cons_ne_nil _ _)) ?_
    rintro _ self t ⟨rfl, hunread, h⟩
    exact h.takeByte hunread

end At

end InputCache

end DualBank
