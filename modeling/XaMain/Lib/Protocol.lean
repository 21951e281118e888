import XaMain.Lib.Comp

/-!
# Protocols

A protocol says which calls may be made after which others.  It is an automaton that reads the calls
made so far, in their order, and has no next state at a call that breaks a rule: such a sequence of
calls is broken, and so is every sequence that goes on from it.

The steps of several threads, in the order they are taken, are such a sequence too.  `run_history`
is the induction rule for what the steps so far have to do with the state they lead to, and
`run_split` takes a run apart at one of its steps.  `countP_le_rank` bounds how many steps of a kind
a run can have, and `simulation` takes the runs of one automaton to runs of another.

`Appends p` relates the calls made so far before and after a computation that only adds calls with
the property `p`, so `Comp.Moves (Appends p) c` says that `c` is one.  Together with
`run_invariant`, which takes what one step preserves to what a run preserves, this is how an
invariant of the automaton becomes a property of a program.
-/

set_option autoImplicit false

/-- An automaton over the calls `α` with states `S`. -/
structure Protocol (S α : Type) where
  /-- The state before any call. -/
  start : S
  /-- The state after one more call, if the call is allowed. -/
  step : S → α → Option S

namespace Protocol

variable {S α : Type} (P : Protocol S α)

/-- The state after the calls `l` from the state `o`, if all of them are allowed. -/
def runFrom (o : Option S) (l : List α) : Option S := l.foldl (fun o c ↦ o.bind (P.step · c)) o

/-- The state after the calls `l`, if all of them are allowed. -/
def run (l : List α) : Option S := P.runFrom (some P.start) l

theorem runFrom_cons (s : S) (c : α) (l : List α) :
    P.runFrom (some s) (c :: l) = P.runFrom (P.step s c) l := rfl

theorem runFrom_none (l : List α) : P.runFrom none l = none := by
  induction l with
  | nil => rfl
  | cons c l ih => exact ih

theorem run_append (l l' : List α) : P.run (l ++ l') = P.runFrom (P.run l) l' := by
  rw [run, runFrom, List.foldl_append]
  rfl

/-- The first step of a run, and the rest of it. -/
theorem runFrom_cons_eq_some {s s' : S} {c : α} {l : List α}
    (h : P.runFrom (some s) (c :: l) = some s') :
    ∃ s₁, P.step s c = some s₁ ∧ P.runFrom (some s₁) l = some s' := by
  rw [runFrom_cons] at h
  cases hc : P.step s c with
  | none =>
    rw [hc, runFrom_none] at h
    exact absurd h (by simp)
  | some s₁ =>
    rw [hc] at h
    exact ⟨s₁, rfl, h⟩

/-- A run, taken apart at one of its steps. -/
theorem run_split {s' : S} {c : α} {l l' : List α} (h : P.run (l ++ c :: l') = some s') :
    ∃ s s₁, P.run l = some s ∧ P.step s c = some s₁ ∧ P.runFrom (some s₁) l' = some s' := by
  rw [run_append] at h
  cases hl : P.run l with
  | none =>
    rw [hl, runFrom_none] at h
    exact absurd h (by simp)
  | some s =>
    rw [hl] at h
    obtain ⟨s₁, hstep, hrest⟩ := P.runFrom_cons_eq_some h
    exact ⟨s, s₁, rfl, hstep, hrest⟩

/-- What holds of the steps `m` and the state `s₀`, and is kept when one more step is taken, holds
of every run that goes on from there. -/
theorem runFrom_history {I : List α → S → Prop}
    (hstep : ∀ l s c s', P.step s c = some s' → I l s → I (l ++ [c]) s') {m : List α} {s₀ : S}
    (h₀ : I m s₀) {l : List α} {s : S} (h : P.runFrom (some s₀) l = some s) : I (m ++ l) s := by
  induction l generalizing m s₀ with
  | nil =>
    rw [List.append_nil, ← Option.some.inj h]
    exact h₀
  | cons c l ih =>
    obtain ⟨s₁, hc, hrest⟩ := P.runFrom_cons_eq_some h
    have hnext : I (m ++ [c] ++ l) s := ih (hstep m s₀ c s₁ hc h₀) hrest
    rwa [List.append_assoc] at hnext

/-- The rule for a run from the start. -/
theorem run_history {I : List α → S → Prop}
    (hstep : ∀ l s c s', P.step s c = some s' → I l s → I (l ++ [c]) s') (h₀ : I [] P.start)
    {l : List α} {s : S} (h : P.run l = some s) : I l s :=
  P.runFrom_history hstep h₀ h

/-- What every allowed call with the property `p` preserves, a run of such calls preserves. -/
theorem run_invariant {I : S → Prop} {p : α → Prop}
    (hstep : ∀ s c s', p c → P.step s c = some s' → I s → I s') {l : List α} (hl : ∀ c ∈ l, p c)
    {s s' : S} (h : P.runFrom (some s) l = some s') (hs : I s) : I s' := by
  induction l generalizing s with
  | nil => rwa [← Option.some.inj h]
  | cons c l ih =>
    obtain ⟨s₁, hc, hrest⟩ := P.runFrom_cons_eq_some h
    have hfirst : I s₁ := hstep s c s₁ (hl c (by simp)) hc hs
    exact ih (fun d hd ↦ hl d (by simp [hd])) hrest hfirst

/-- If the steps with the property `p` lower a rank, and only those with the property `q` raise it,
by one, then no more of the former are taken than the rank and the latter allow. -/
theorem countP_le_rank {I : S → Prop} {p q : α → Bool} {rank : S → Nat}
    (hstep : ∀ s c s', P.step s c = some s' → I s →
      I s' ∧ rank s' + (p c).toNat ≤ rank s + (q c).toNat)
    {l : List α} {s s' : S} (h : P.runFrom (some s) l = some s') (hs : I s) :
    l.countP p + rank s' ≤ rank s + l.countP q := by
  have hcons (r : α → Bool) (c : α) (l : List α) :
      (c :: l).countP r = l.countP r + (r c).toNat := by
    rw [List.countP_cons]
    cases r c <;> rfl
  induction l generalizing s with
  | nil =>
    obtain rfl : s = s' := Option.some.inj h
    simp
  | cons c l ih =>
    obtain ⟨s₁, hc, hrest⟩ := P.runFrom_cons_eq_some h
    obtain ⟨hs₁, hrank⟩ := hstep s c s₁ hc hs
    have htail := ih hrest hs₁
    rw [hcons, hcons]
    omega

/-- **Simulation.**  If `R` holds of the states before any call, and the calls `f c` of `Q` do
what the call `c` of `P` does, as far as `R` can tell and unless it leads to a state that is not
good, then every run of `P` to a good state is a run of `Q`. -/
theorem simulation {T β : Type} (Q : Protocol T β) {f : α → List β} {R : S → T → Prop}
    {G : S → Prop} (hstart : R P.start Q.start)
    (hgood : ∀ s c s', P.step s c = some s' → G s' → G s)
    (hstep : ∀ s c s' t, P.step s c = some s' → G s' → R s t →
      ∃ t', Q.runFrom (some t) (f c) = some t' ∧ R s' t')
    {l : List α} {s : S} (h : P.run l = some s) (hs : G s) :
    ∃ t, Q.run (l.flatMap f) = some t ∧ R s t := by
  have hruns : G s → ∃ t, Q.run (l.flatMap f) = some t ∧ R s t := by
    refine P.run_history (I := fun l s ↦ G s → ∃ t, Q.run (l.flatMap f) = some t ∧ R s t)
      (fun l s c s' hc ih hs' ↦ ?_) (fun _ ↦ ⟨Q.start, rfl, hstart⟩) h
    obtain ⟨t, hrun, ht⟩ := ih (hgood s c s' hc hs')
    obtain ⟨t', hnext, ht'⟩ := hstep s c s' t hc hs' ht
    refine ⟨t', ?_, ht'⟩
    rw [List.flatMap_append, Q.run_append, hrun, List.flatMap_singleton]
    exact hnext
  exact hruns hs

end Protocol

/-- `l'` is `l` and further elements, which all have the property `p`. -/
def Appends {α : Type} (p : α → Prop) (l l' : List α) : Prop :=
  ∃ m, l' = l ++ m ∧ ∀ c ∈ m, p c

namespace Appends

variable {α : Type} {p : α → Prop}

instance : Std.Refl (Appends p) := ⟨fun l ↦ ⟨[], by simp, by simp⟩⟩

instance : IsTrans (List α) (Appends p) := by
  refine ⟨?_⟩
  rintro l _ _ ⟨m, rfl, hm⟩ ⟨m', rfl, hm'⟩
  refine ⟨m ++ m', by rw [List.append_assoc], fun c hc ↦ ?_⟩
  rcases List.mem_append.mp hc with h | h
  · exact hm c h
  · exact hm' c h

theorem concat (l : List α) {c : α} (hc : p c) : Appends p l (l ++ [c]) := by
  refine ⟨[c], rfl, fun d hd ↦ ?_⟩
  rw [List.mem_singleton.mp hd]
  exact hc

theorem mono {q : α → Prop} (hpq : ∀ c, p c → q c) {l l' : List α} (h : Appends p l l') :
    Appends q l l' := by
  obtain ⟨m, rfl, hm⟩ := h
  exact ⟨m, rfl, fun c hc ↦ hpq c (hm c hc)⟩

/-- A sequence of calls that goes on from a broken one is broken. -/
theorem broken {S : Type} {P : Protocol S α} {l l' : List α} (h : Appends p l l')
    (hl : P.run l = none) : P.run l' = none := by
  obtain ⟨m, rfl, -⟩ := h
  rw [P.run_append, hl, P.runFrom_none]

/-- An invariant of the calls with the property `p`, in a run that goes on with such calls. -/
theorem invariant {S : Type} {P : Protocol S α} {I : S → Prop}
    (hstep : ∀ s c s', p c → P.step s c = some s' → I s → I s') {l l' : List α} (h : Appends p l l')
    {s s' : S} (hl : P.run l = some s) (hl' : P.run l' = some s') (hs : I s) : I s' := by
  obtain ⟨m, rfl, hm⟩ := h
  rw [P.run_append, hl] at hl'
  exact P.run_invariant hstep hm hl' hs

end Appends
