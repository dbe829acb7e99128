/-!
# Programs that call their environment

A program over a signature of operations either returns or calls an operation and
goes on with the answer.  This is what is known of library code that is only handed
callbacks: running it is a matter of the environment that answers the calls, and
whatever every answer preserves, the program preserves (`run_inv`).
-/

namespace DualBank.Lib

universe u v w x y z

/-- A program over the operations `Op`, where `op` is answered by a `Res op`. -/
inductive Calls (Op : Type u) (Res : Op → Type v) (α : Type w) where
  | ret (a : α)
  | call (op : Op) (k : Res op → Calls Op Res α)

namespace Calls

variable {Op : Type u} {Res : Op → Type v} {α : Type w} {β : Type x} {S : Type y}

/-- The program that makes one call and returns the answer. -/
def ask (op : Op) : Calls Op Res (Res op) := .call op .ret

/-- Sequencing. -/
def bind : Calls Op Res α → (α → Calls Op Res β) → Calls Op Res β
  | .ret a, f => f a
  | .call op k, f => .call op fun r ↦ bind (k r) f

/-- A run in an environment that answers calls on a state. -/
def run (answer : (op : Op) → S → Res op × S) : Calls Op Res α → S → α × S
  | .ret a, s => (a, s)
  | .call op k, s =>
    let r := answer op s
    run answer (k r.1) r.2

variable {answer : (op : Op) → S → Res op × S}

@[simp] theorem run_ret (a : α) (s : S) : (ret a : Calls Op Res α).run answer s = (a, s) := rfl

@[simp] theorem run_call (op : Op) (k : Res op → Calls Op Res α) (s : S) :
    (call op k).run answer s = (k (answer op s).1).run answer (answer op s).2 := rfl

@[simp] theorem run_bind (p : Calls Op Res α) (f : α → Calls Op Res β) (s : S) :
    (p.bind f).run answer s = (f (p.run answer s).1).run answer (p.run answer s).2 := by
  induction p generalizing s with
  | ret a => rfl
  | call op k ih => exact ih (answer op s).1 (answer op s).2

@[simp] theorem ret_bind (a : α) (f : α → Calls Op Res β) : (ret a).bind f = f a := rfl

@[simp] theorem bind_ret (p : Calls Op Res α) : p.bind ret = p := by
  induction p with
  | ret a => rfl
  | call op k ih => exact congrArg (call op) (funext ih)

theorem bind_assoc {γ : Type z} (p : Calls Op Res α) (f : α → Calls Op Res β)
    (g : β → Calls Op Res γ) : (p.bind f).bind g = p.bind fun a ↦ (f a).bind g := by
  induction p with
  | ret a => rfl
  | call op k ih => exact congrArg (call op) (funext ih)

/-- What every answer preserves, a run preserves. -/
theorem run_inv {I : S → Prop} (hI : ∀ op s, I s → I (answer op s).2) (p : Calls Op Res α)
    {s : S} (h : I s) : I (p.run answer s).2 := by
  induction p generalizing s with
  | ret a => exact h
  | call op k ih => exact ih (answer op s).1 (hI op s h)

/-- Two environments whose related states give the same answers and stay related give the
same results. -/
theorem run_sim {T : Type z} {other : (op : Op) → T → Res op × T} {R : S → T → Prop}
    (hR : ∀ op s t, R s t → (answer op s).1 = (other op t).1 ∧ R (answer op s).2 (other op t).2)
    (p : Calls Op Res α) {s : S} {t : T} (h : R s t) :
    (p.run answer s).1 = (p.run other t).1 ∧ R (p.run answer s).2 (p.run other t).2 := by
  induction p generalizing s t with
  | ret a => exact ⟨rfl, h⟩
  | call op k ih =>
      obtain ⟨hans, hnext⟩ := hR op s t h
      rw [run_call, run_call, ← hans]
      exact ih _ hnext

/-! ## Logs -/

section Log

variable {Λ : Type w} (answer) (add : Λ → (op : Op) → Res op → Λ)

/-- The environment that also keeps a log of the calls and their answers. -/
def withLog (op : Op) (s : S × Λ) : Res op × S × Λ :=
  let r := answer op s.1
  (r.1, r.2, add s.2 op r.1)

/-- Keeping a log changes nothing else. -/
theorem run_withLog (p : Calls Op Res α) (s : S) (l : Λ) :
    (p.run (withLog answer add) (s, l)).1 = (p.run answer s).1 ∧
      (p.run (withLog answer add) (s, l)).2.1 = (p.run answer s).2 := by
  induction p generalizing s l with
  | ret a => exact ⟨rfl, rfl⟩
  | call op k ih => exact ih (answer op s).1 (answer op s).2 (add l op (answer op s).1)

/-- Related environments keep the same logs. -/
theorem withLog_sim {T : Type z} {other : (op : Op) → T → Res op × T} {R : S → T → Prop}
    (hR : ∀ op s t, R s t → (answer op s).1 = (other op t).1 ∧ R (answer op s).2 (other op t).2)
    (op : Op) (s : S × Λ) (t : T × Λ) (h : R s.1 t.1 ∧ s.2 = t.2) :
    (withLog answer add op s).1 = (withLog other add op t).1 ∧
      R (withLog answer add op s).2.1 (withLog other add op t).2.1 ∧
        (withLog answer add op s).2.2 = (withLog other add op t).2.2 := by
  obtain ⟨hans, hnext⟩ := hR op s.1 t.1 h.1
  refine ⟨hans, hnext, ?_⟩
  show add s.2 op _ = add t.2 op _
  rw [h.2, hans]

end Log

end Calls

end DualBank.Lib
