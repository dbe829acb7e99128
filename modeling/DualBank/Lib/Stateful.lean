import DualBank.Lib.Calls

/-!
# Programs with a state of their own

A program that calls its environment, keeps a state, and may stop short of a result: at a
failed assertion, or when a loop has used up its fuel.  The state outlives the stop.

Four things are said about such programs here: that a program has a result (`Returns`), what
it ends in with a result or without (`EndsIn`, and `KeepsIn` for an invariant), that it does on
its state what a function does on another (`Follows`), and that it has the same results with
more fuel (`Le`).
-/

namespace DualBank.Lib

universe u v

/-- A program over the operations `Op` with a state in `D`; it ends with `none` where it
stops short. -/
def Stateful (Op : Type u) (Res : Op → Type v) (D : Type v) (α : Type v) : Type (max u v) :=
  D → Calls Op Res (Option α × D)

namespace Stateful

variable {Op : Type u} {Res : Op → Type v} {D E α β : Type v}

/-- What follows the outcome of a program. -/
def next (f : α → Stateful Op Res D β) : Option α × D → Calls Op Res (Option β × D)
  | (some a, d) => f a d
  | (none, d) => .ret (none, d)

instance : Monad (Stateful Op Res D) where
  pure a d := .ret (some a, d)
  bind p f d := (p d).bind (next f)

/-- No result. -/
def stop : Stateful Op Res D α := fun d ↦ .ret (none, d)

def get : Stateful Op Res D D := fun d ↦ .ret (some d, d)

def modify (f : D → D) : Stateful Op Res D PUnit := fun d ↦ .ret (some ⟨⟩, f d)

/-- A program without a state. -/
def lift (p : Calls Op Res α) : Stateful Op Res D α := fun d ↦ p.bind fun a ↦ .ret (some a, d)

/-- A program on a part of the state. -/
def zoom (part : D → E) (put : E → D → D) (p : Stateful Op Res E α) : Stateful Op Res D α :=
  fun d ↦ (p (part d)).bind fun r ↦ .ret (r.1, put r.2 d)

variable {d : D}

/-! ## Results -/

section Returns

variable {S : Type v} {answer : (op : Op) → S → Res op × S}

/-- In this environment the program has a result, and ends in `Q`. -/
def Returns (answer : (op : Op) → S → Res op × S) (p : Stateful Op Res D α)
    (Q : α → D → S → Prop) (d : D) (s : S) : Prop :=
  ∃ a d' s', (p d).run answer s = ((some a, d'), s') ∧ Q a d' s'

variable {Q : α → D → S → Prop} {s : S}

theorem returns_pure {a : α} (h : Q a d s) :
    Returns answer (pure a : Stateful Op Res D α) Q d s := ⟨a, d, s, rfl, h⟩

theorem returns_get {Q : D → D → S → Prop} (h : Q d d s) :
    Returns answer (get : Stateful Op Res D D) Q d s := ⟨d, d, s, rfl, h⟩

theorem returns_modify {f : D → D} {Q : PUnit → D → S → Prop} (h : Q ⟨⟩ (f d) s) :
    Returns answer (modify f : Stateful Op Res D PUnit) Q d s := ⟨⟨⟩, f d, s, rfl, h⟩

theorem returns_lift {p : Calls Op Res α} (h : Q (p.run answer s).1 d (p.run answer s).2) :
    Returns answer (lift p : Stateful Op Res D α) Q d s := by
  refine ⟨_, d, _, ?_, h⟩
  unfold lift
  rw [Calls.run_bind]
  rfl

theorem Returns.mono {p : Stateful Op Res D α} {Q' : α → D → S → Prop}
    (h : Returns answer p Q d s) (hQ : ∀ a d s, Q a d s → Q' a d s) : Returns answer p Q' d s := by
  obtain ⟨a, d', s', hrun, ha⟩ := h
  exact ⟨a, d', s', hrun, hQ a d' s' ha⟩

theorem Returns.bind {p : Stateful Op Res D α} {f : α → Stateful Op Res D β}
    {I : α → D → S → Prop} {Q : β → D → S → Prop} (hp : Returns answer p I d s)
    (hf : ∀ a d s, I a d s → Returns answer (f a) Q d s) : Returns answer (p >>= f) Q d s := by
  obtain ⟨a, d', s', hrun, ha⟩ := hp
  obtain ⟨b, d'', s'', hrun', hb⟩ := hf a d' s' ha
  refine ⟨b, d'', s'', ?_, hb⟩
  show ((p d).bind (next f)).run answer s = _
  rw [Calls.run_bind, hrun]
  exact hrun'

/-- A program that looks at its state first. -/
theorem returns_get_bind {f : D → Stateful Op Res D β} {Q : β → D → S → Prop}
    (h : Returns answer (f d) Q d s) : Returns answer (get >>= f) Q d s :=
  Returns.bind (I := fun a d' s' ↦ a = d ∧ d' = d ∧ s' = s) (returns_get ⟨rfl, rfl, rfl⟩)
    fun a d' s' h' ↦ by
      obtain ⟨rfl, rfl, rfl⟩ := h'
      exact h

/-- A program that changes its state first. -/
theorem returns_modify_bind {f : D → D} {p : Stateful Op Res D β} {Q : β → D → S → Prop}
    (h : Returns answer p Q (f d) s) : Returns answer (modify f >>= fun _ ↦ p) Q d s :=
  Returns.bind (I := fun _ d' s' ↦ d' = f d ∧ s' = s) (returns_modify ⟨rfl, rfl⟩)
    fun _ d' s' h' ↦ by
      obtain ⟨rfl, rfl⟩ := h'
      exact h

theorem returns_zoom {part : D → E} {put : E → D → D} {p : Stateful Op Res E α}
    (h : Returns answer p (fun a e s ↦ Q a (put e d) s) (part d) s) :
    Returns answer (zoom part put p) Q d s := by
  obtain ⟨a, e, s', hrun, ha⟩ := h
  refine ⟨a, put e d, s', ?_, ha⟩
  unfold Stateful.zoom
  rw [Calls.run_bind, hrun]
  rfl

end Returns

/-! ## Ends -/

section EndsIn

variable {S : Type v} {answer : (op : Op) → S → Res op × S}

/-- In this environment the program ends in `Q`, with a result or without. -/
def EndsIn (answer : (op : Op) → S → Res op × S) (p : Stateful Op Res D α)
    (Q : Option α → D → S → Prop) (d : D) (s : S) : Prop :=
  Q ((p d).run answer s).1.1 ((p d).run answer s).1.2 ((p d).run answer s).2

variable {Q : Option α → D → S → Prop} {d : D} {s : S}

theorem endsIn_pure {a : α} (h : Q (some a) d s) :
    EndsIn answer (pure a : Stateful Op Res D α) Q d s := h

theorem endsIn_stop (h : Q none d s) : EndsIn answer (stop : Stateful Op Res D α) Q d s := h

theorem endsIn_lift {p : Calls Op Res α} (h : Q (some (p.run answer s).1) d (p.run answer s).2) :
    EndsIn answer (lift p : Stateful Op Res D α) Q d s := by
  unfold EndsIn lift
  rw [Calls.run_bind]
  exact h

theorem EndsIn.mono {p : Stateful Op Res D α} {Q' : Option α → D → S → Prop}
    (h : EndsIn answer p Q d s) (hQ : ∀ a d s, Q a d s → Q' a d s) : EndsIn answer p Q' d s :=
  hQ _ _ _ h

theorem endsIn_bind {p : Stateful Op Res D α} {f : α → Stateful Op Res D β}
    {Q : Option β → D → S → Prop} (h : EndsIn answer p (fun a d s ↦ match a with
      | some a => EndsIn answer (f a) Q d s
      | none => Q none d s) d s) : EndsIn answer (p >>= f) Q d s := by
  have hrun : ((p >>= f) d).run answer s = _ := Calls.run_bind (p d) (next f) s
  unfold EndsIn at h ⊢
  rw [hrun]
  generalize (p d).run answer s = r at h ⊢
  obtain ⟨⟨_ | a, d'⟩, s'⟩ := r
  · exact h
  · exact h

theorem endsIn_get_bind {f : D → Stateful Op Res D β} {Q : Option β → D → S → Prop}
    (h : EndsIn answer (f d) Q d s) : EndsIn answer (get >>= f) Q d s := h

theorem endsIn_modify_bind {f : D → D} {p : Stateful Op Res D β} {Q : Option β → D → S → Prop}
    (h : EndsIn answer p Q (f d) s) : EndsIn answer (modify f >>= fun _ ↦ p) Q d s := h

theorem endsIn_zoom {part : D → E} {put : E → D → D} {p : Stateful Op Res E α}
    (h : EndsIn answer p (fun a e s ↦ Q a (put e d) s) (part d) s) :
    EndsIn answer (zoom part put p) Q d s := by
  unfold EndsIn Stateful.zoom
  rw [Calls.run_bind]
  exact h

/-- A program with a result ends in `I`, one without in `K`. -/
def Kept (I K : D → S → Prop) : Option α → D → S → Prop
  | some _ => I
  | none => K

/-- In this environment the program keeps `I`, and where it stops short, `K` is left. -/
def KeepsIn (answer : (op : Op) → S → Res op × S) (I K : D → S → Prop)
    (p : Stateful Op Res D α) : Prop := ∀ d s, I d s → EndsIn answer p (Kept I K) d s

variable {I K : D → S → Prop}

theorem keepsIn_pure (a : α) : KeepsIn answer I K (pure a : Stateful Op Res D α) :=
  fun _ _ h ↦ h

theorem keepsIn_stop (h : ∀ d s, I d s → K d s) :
    KeepsIn answer I K (stop : Stateful Op Res D α) := fun d s hI ↦ h d s hI

/-- What follows keeps what holds behind the first part. -/
theorem EndsIn.bind_keeps {p : Stateful Op Res D α} {f : α → Stateful Op Res D β}
    (hp : EndsIn answer p (Kept I K) d s) (hf : ∀ a, KeepsIn answer I K (f a)) :
    EndsIn answer (p >>= f) (Kept I K) d s := endsIn_bind (hp.mono fun a d s h ↦ by
  cases a with
  | none => exact h
  | some a => exact hf a d s h)

theorem KeepsIn.bind {p : Stateful Op Res D α} {f : α → Stateful Op Res D β}
    (hp : KeepsIn answer I K p) (hf : ∀ a, KeepsIn answer I K (f a)) :
    KeepsIn answer I K (p >>= f) := fun d s h ↦ (hp d s h).bind_keeps hf

theorem keepsIn_get_bind {f : D → Stateful Op Res D β}
    (h : ∀ d s, I d s → EndsIn answer (f d) (Kept I K) d s) : KeepsIn answer I K (get >>= f) := h

theorem keepsIn_modify {f : D → D} (h : ∀ d s, I d s → I (f d) s) :
    KeepsIn answer I K (modify f : Stateful Op Res D PUnit) := h

end EndsIn

/-! ## Following a function -/

section Follows

variable {S ρ : Type v} {answer : (op : Op) → S → Res op × S}

/-- The outcome of a program that follows a function on `ρ`: its result, and `I` at the `ρ`
behind it; without a result, `K`. -/
def Followed (I : ρ → D → S → Prop) (K : D → S → Prop) :
    Option (α × ρ) → Option α → D → S → Prop
  | some (x, r), a, d, s => a = some x ∧ I r d s
  | none, a, d, s => a = none ∧ K d s

/-- The program does on its state what the function does on `ρ`, as `I` relates the two. -/
def Follows (answer : (op : Op) → S → Res op × S) (I : ρ → D → S → Prop) (K : D → S → Prop)
    (p : Stateful Op Res D α) (x : StateT ρ Option α) : Prop :=
  ∀ r d s, I r d s → EndsIn answer p (Followed I K (x r)) d s

variable {I : ρ → D → S → Prop} {K : D → S → Prop}

theorem follows_pure (a : α) :
    Follows answer I K (pure a : Stateful Op Res D α) (pure a) := fun _ _ _ h ↦ ⟨rfl, h⟩

theorem follows_stop (h : ∀ r d s, I r d s → K d s) :
    Follows answer I K (stop : Stateful Op Res D α) failure := fun r d s hI ↦ ⟨rfl, h r d s hI⟩

theorem Follows.bind {p : Stateful Op Res D α} {f : α → Stateful Op Res D β}
    {x : StateT ρ Option α} {y : α → StateT ρ Option β} (hp : Follows answer I K p x)
    (hf : ∀ a, Follows answer I K (f a) (y a)) : Follows answer I K (p >>= f) (x >>= y) := by
  refine fun r d s h ↦ endsIn_bind ((hp r d s h).mono fun a d s h ↦ ?_)
  have hbind : (x >>= y) r = (x r).bind fun b ↦ y b.1 b.2 := rfl
  rw [hbind]
  cases hx : x r with
  | none =>
      rw [hx] at h
      obtain ⟨rfl, h⟩ := h
      exact ⟨rfl, h⟩
  | some b =>
      rw [hx] at h
      obtain ⟨rfl, h⟩ := h
      exact hf b.1 b.2 d s h

theorem Follows.ite {c : Prop} [Decidable c] {p q : Stateful Op Res D α} {x y : StateT ρ Option α}
    (hp : Follows answer I K p x) (hq : Follows answer I K q y) :
    Follows answer I K (if c then p else q) (if c then x else y) := by
  split
  · exact hp
  · exact hq

/-- A program that looks at its state, where the function looks at `ρ`. -/
theorem follows_get_bind {f : D → Stateful Op Res D β} {y : ρ → StateT ρ Option β}
    (h : ∀ r d s, I r d s → EndsIn answer (f d) (Followed I K (y r r)) d s) :
    Follows answer I K (get >>= f) (MonadState.get >>= y) := h

theorem follows_modify {f : D → D} {g : ρ → ρ} (h : ∀ r d s, I r d s → I (g r) (f d) s) :
    Follows answer I K (modify f : Stateful Op Res D PUnit) (modifyGet fun r ↦ (⟨⟩, g r)) :=
  fun r d s hI ↦ ⟨rfl, h r d s hI⟩

end Follows

/-! ## More fuel -/

/-- The second program is the first, with results where that stops short. -/
inductive Approx : Calls Op Res (Option α × D) → Calls Op Res (Option α × D) → Prop
  | stop (d : D) (q : Calls Op Res (Option α × D)) : Approx (.ret (none, d)) q
  | ret (r : Option α × D) : Approx (.ret r) (.ret r)
  | call (op : Op) {k k' : Res op → Calls Op Res (Option α × D)} (h : ∀ r, Approx (k r) (k' r)) :
      Approx (.call op k) (.call op k')

theorem Approx.refl (p : Calls Op Res (Option α × D)) : Approx p p := by
  induction p with
  | ret r => exact .ret r
  | call op k ih => exact .call op ih

/-- Where the first program has a result, the second runs alike. -/
theorem Approx.run {S : Type v} {p q : Calls Op Res (Option α × D)} (h : Approx p q)
    (answer : (op : Op) → S → Res op × S) (s : S) {a : α} (ha : (p.run answer s).1.1 = some a) :
    q.run answer s = p.run answer s := by
  induction h generalizing s with
  | stop d q => cases ha
  | ret r => rfl
  | call op h ih => exact ih _ _ ha

/-- With the outcome put another way. -/
theorem Approx.map {p q : Calls Op Res (Option α × D)} (h : Approx p q)
    {f : Option α × D → Option β × E} (hf : ∀ d, (f (none, d)).1 = none) :
    Approx (p.bind fun r ↦ .ret (f r)) (q.bind fun r ↦ .ret (f r)) := by
  induction h with
  | stop d q =>
      have hstop : f (none, d) = (none, (f (none, d)).2) := Prod.ext (hf d) rfl
      show Approx (.ret (f (none, d))) _
      rw [hstop]
      exact .stop _ _
  | ret r => exact .ret _
  | call op h ih => exact .call op ih

/-- Behind a program that both make. -/
theorem Approx.bind_left {γ : Type v} (p : Calls Op Res γ)
    {f g : γ → Calls Op Res (Option α × D)} (h : ∀ a, Approx (f a) (g a)) :
    Approx (p.bind f) (p.bind g) := by
  induction p with
  | ret a => exact h a
  | call op k ih => exact .call op ih

/-- The order of the programs by their results. -/
def Le (p q : Stateful Op Res D α) : Prop := ∀ d, Approx (p d) (q d)

theorem Le.refl (p : Stateful Op Res D α) : Le p p := fun d ↦ .refl (p d)

theorem le_stop (p : Stateful Op Res D α) : Le stop p := fun d ↦ .stop d (p d)

theorem Le.bind {p q : Stateful Op Res D α} {f g : α → Stateful Op Res D β} (hp : Le p q)
    (hf : ∀ a, Le (f a) (g a)) : Le (p >>= f) (q >>= g) := fun d ↦ by
  have hnext : ∀ {c c' : Calls Op Res (Option α × D)}, Approx c c' →
      Approx (c.bind (next f)) (c'.bind (next g)) := by
    intro c c' h
    induction h with
    | stop d q => exact .stop d _
    | ret r =>
        obtain ⟨_ | a, d⟩ := r
        · exact .ret _
        · exact hf a d
    | call op h ih => exact .call op ih
  exact hnext (hp d)

theorem Le.ite {c : Prop} [Decidable c] {p p' q q' : Stateful Op Res D α} (hp : Le p p')
    (hq : Le q q') : Le (if c then p else q) (if c then p' else q') := by
  split
  · exact hp
  · exact hq

theorem Le.zoom {part : D → E} {put : E → D → D} {p q : Stateful Op Res E α} (h : Le p q) :
    Le (zoom part put p) (zoom part put q) := fun d ↦ (h (part d)).map fun _ ↦ rfl

end Stateful

end DualBank.Lib
