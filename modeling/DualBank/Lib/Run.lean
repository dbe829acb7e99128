import Mathlib.Tactic.Tauto

/-!
# Runs of a labelled system

A deterministic labelled system is a step function `step : S → L → S`; a run is a
list of labels taken from a start state, and the state it ends in is
`List.foldl step`.  A condition on steps, `C : S → L → Prop`, looks at the state
before the step and the label; `Along step C s ls` says that it is met by every
step of the run.

The rules here turn one lemma about a step into a statement about runs of any
length: under an invariant (`Along.mono_of_inv`), and as an equivalence
(`along_iff_of_inv`).
-/

namespace DualBank.Lib

universe u v

variable {S : Type u} {L : Type v} {step : S → L → S}

/-- Every step of the run `ls` from `s` meets `C`. -/
def Along (step : S → L → S) (C : S → L → Prop) : S → List L → Prop
  | _, [] => True
  | s, l :: ls => C s l ∧ Along step C (step s l) ls

@[simp] theorem along_nil (C : S → L → Prop) (s : S) : Along step C s [] := trivial

@[simp] theorem along_cons (C : S → L → Prop) (s : S) (l : L) (ls : List L) :
    Along step C s (l :: ls) ↔ C s l ∧ Along step C (step s l) ls := Iff.rfl

theorem along_append (C : S → L → Prop) (s : S) (ls ls' : List L) :
    Along step C s (ls ++ ls') ↔ Along step C s ls ∧ Along step C (ls.foldl step s) ls' := by
  induction ls generalizing s with
  | nil => simp
  | cons l ls ih => simp [ih, and_assoc]

theorem along_and {C D : S → L → Prop} {s : S} {ls : List L} :
    Along step (fun s l ↦ C s l ∧ D s l) s ls ↔ Along step C s ls ∧ Along step D s ls := by
  induction ls generalizing s with
  | nil => simp
  | cons l ls ih => simp only [along_cons, ih]; tauto

/-- An invariant of the steps that meet `C` holds at the end of a run of them. -/
theorem inv_of_along {C : S → L → Prop} {I : S → Prop}
    (hstep : ∀ s l, I s → C s l → I (step s l)) {s : S} {ls : List L}
    (hs : I s) (h : Along step C s ls) : I (ls.foldl step s) := by
  induction ls generalizing s with
  | nil => exact hs
  | cons l ls ih => exact ih (hstep s l hs h.1) h.2

/-- An invariant under which every step is good makes every run good. -/
theorem along_of_inv {G : S → L → Prop} {I : S → Prop}
    (hstep : ∀ s l, I s → G s l ∧ I (step s l)) {s : S} (hs : I s) (ls : List L) :
    Along step G s ls := by
  induction ls generalizing s with
  | nil => trivial
  | cons l ls ih => exact ⟨(hstep s l hs).1, ih (hstep s l hs).2⟩

/-- Where `C` implies `G` under an invariant that `C` preserves, a run of steps
meeting `C` is a run of steps meeting `G`. -/
theorem Along.mono_of_inv {C G : S → L → Prop} {I : S → Prop}
    (hstep : ∀ s l, I s → C s l → G s l ∧ I (step s l)) {s : S} {ls : List L}
    (hs : I s) (h : Along step C s ls) : Along step G s ls := by
  induction ls generalizing s with
  | nil => trivial
  | cons l ls ih =>
      have := hstep s l hs h.1
      exact ⟨this.1, ih this.2 h.2⟩

/-- Where `C` and `G` agree under an invariant that they preserve, a run meets
one at every step exactly when it meets the other. -/
theorem along_iff_of_inv {C G : S → L → Prop} {I : S → Prop}
    (hiff : ∀ s l, I s → (C s l ↔ G s l))
    (hinv : ∀ s l, I s → C s l → I (step s l)) {s : S} {ls : List L} (hs : I s) :
    Along step C s ls ↔ Along step G s ls := by
  induction ls generalizing s with
  | nil => exact Iff.rfl
  | cons l ls ih =>
      rw [along_cons, along_cons, hiff s l hs]
      refine and_congr_right fun hG ↦ ih (hinv s l hs ((hiff s l hs).2 hG))

end DualBank.Lib
