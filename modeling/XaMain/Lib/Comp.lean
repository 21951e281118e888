import Mathlib.Order.Defs.Unbundled

/-!
# Computations that throw

`Comp σ ε α` is a call of an imperative program: it reads and changes a state `σ`, and it ends in
one of four ways, `Outcome ε α`.  It returns a value, it throws an exception, it reaches something
the language leaves undefined, or it uses up the fuel its model was given.  The state is kept
however the call ends, which is what separates this monad from a state passed on success only: an
exception does not undo what was done before it.

## What is here

* the monad, with `Comp.throw`, `Comp.tryCatch` and `Comp.undefined`, and `Comp.focus`, which runs
  a computation over a part of the state;
* the equations a proof steps through a call with (`bind_returned`, `bind_threw` and their
  companions);
* properties of a computation that are closed under the operations above, so that each is shown of
  a program by following its text: `Triple` (a precondition, and a postcondition for a call that
  returns), `Moves R` (every call takes the state along the preorder `R`), `OnlyThrows P` (whatever
  is thrown satisfies `P`), `Ends` (every call returns or throws), `Approx` (more fuel changes
  nothing but an exhausted run), `Commutes f` (a call that does not throw does not notice the change
  `f` of the state) and `Respects R` (calls from states that `R` relates cannot be told apart).
-/

set_option autoImplicit false

/-- How a call ends. -/
inductive Outcome (ε α : Type) where
  /-- It returns a value. -/
  | returned (a : α)
  /-- It throws. -/
  | threw (e : ε)
  /-- It does something the language gives no meaning to. -/
  | undefined
  /-- The fuel of the model ran out. -/
  | exhausted
  deriving DecidableEq

/-- How a call ends that returns a value or throws. -/
def Outcome.ofExcept {ε α : Type} : Except ε α → Outcome ε α
  | .ok a => .returned a
  | .error e => .threw e

/-- The outcome of a call that goes on as `f` when it returns. -/
def Outcome.map {ε α β : Type} (f : α → β) : Outcome ε α → Outcome ε β
  | .returned a => .returned (f a)
  | .threw e => .threw e
  | .undefined => .undefined
  | .exhausted => .exhausted

/-- The outcome of a call whose exceptions are turned into others. -/
def Outcome.mapError {ε ε' α : Type} (f : ε → ε') : Outcome ε α → Outcome ε' α
  | .returned a => .returned a
  | .threw e => .threw (f e)
  | .undefined => .undefined
  | .exhausted => .exhausted

/-- A call over the state `σ`, with exceptions in `ε`. -/
def Comp (σ ε α : Type) := σ → Outcome ε α × σ

namespace Comp

variable {σ τ ε α β : Type}

/-! ## The operations -/

/-- Return at once. -/
protected def pure (a : α) : Comp σ ε α := fun s ↦ (.returned a, s)

/-- Run `c`, and then `f` if `c` returned. -/
protected def bind (c : Comp σ ε α) (f : α → Comp σ ε β) : Comp σ ε β := fun s ↦
  match c s with
  | (.returned a, s') => f a s'
  | (.threw e, s') => (.threw e, s')
  | (.undefined, s') => (.undefined, s')
  | (.exhausted, s') => (.exhausted, s')

instance : Monad (Comp σ ε) where
  pure := Comp.pure
  bind := Comp.bind

/-- Throw `e`. -/
def throw (e : ε) : Comp σ ε α := fun s ↦ (.threw e, s)

/-- Undefined behaviour. -/
def undefined : Comp σ ε α := fun s ↦ (.undefined, s)

/-- Return the value of an expression, which is `none` where the language gives it none. -/
def ofOption : Option α → Comp σ ε α
  | some a => fun s ↦ (.returned a, s)
  | none => fun s ↦ (.undefined, s)

/-- No fuel is left. -/
def exhausted : Comp σ ε α := fun s ↦ (.exhausted, s)

/-- Run `c`, and the handler on what it throws, from the state the exception left. -/
def tryCatch (c : Comp σ ε α) (handler : ε → Comp σ ε α) : Comp σ ε α := fun s ↦
  match c s with
  | (.threw e, s') => handler e s'
  | r => r

/-- Run `c`, and return what it returned or threw. -/
def attempt (c : Comp σ ε α) : Comp σ ε (Except ε α) :=
  tryCatch (c >>= fun a ↦ pure (.ok a)) fun e ↦ pure (.error e)

/-- Read something off the state. -/
def gets (g : σ → α) : Comp σ ε α := fun s ↦ (.returned (g s), s)

/-- Change the state. -/
def modify (f : σ → σ) : Comp σ ε Unit := fun s ↦ (.returned (), f s)

/-- A value, or an exception that is thrown. -/
def ofExcept (r : Except ε α) : Comp σ ε α := fun s ↦ (.ofExcept r, s)

/-- Run a computation over the part of the state that `view` reads and `update` writes back. -/
def focus (view : σ → τ) (update : τ → σ → σ) (c : Comp τ ε α) : Comp σ ε α := fun s ↦
  ((c (view s)).1, update (c (view s)).2 s)

/-- Run a computation, and turn what it throws into something else. -/
def mapError {ε' : Type} (f : ε → ε') (c : Comp σ ε α) : Comp σ ε' α := fun s ↦
  ((c s).1.mapError f, (c s).2)

/-- Run a computation over a state of its own that starts as `t`, and return what it becomes. -/
def withLocal (t : τ) (c : Comp τ ε α) : Comp σ ε (α × τ) := fun s ↦
  ((c t).1.map fun a ↦ (a, (c t).2), s)

/-- A loop over the entries of a map that may change their values, but not the keys.  It stops at
the first entry whose turn does not return. -/
def forEntries {κ : Type} (body : κ → Comp (β × σ) ε Unit) :
    List (κ × β) → σ → Outcome ε Unit × List (κ × β) × σ
  | [], s => (.returned (), [], s)
  | (k, b) :: m, s =>
    match body k (b, s) with
    | (.returned _, (b', s')) =>
      ((forEntries body m s').1, (k, b') :: (forEntries body m s').2.1,
        (forEntries body m s').2.2)
    | (o, (b', s')) => (o, (k, b') :: m, s')

/-! ## Stepping through a call -/

@[simp] theorem pure_apply (a : α) (s : σ) : (pure a : Comp σ ε α) s = (.returned a, s) := rfl

@[simp] theorem throw_apply (e : ε) (s : σ) : (throw e : Comp σ ε α) s = (.threw e, s) := rfl

@[simp] theorem undefined_apply (s : σ) :
    (undefined : Comp σ ε α) s = (.undefined, s) := rfl

@[simp] theorem exhausted_apply (s : σ) :
    (exhausted : Comp σ ε α) s = (.exhausted, s) := rfl

@[simp] theorem gets_apply (g : σ → α) (s : σ) :
    (gets g : Comp σ ε α) s = (.returned (g s), s) := rfl

@[simp] theorem modify_apply (f : σ → σ) (s : σ) :
    (modify f : Comp σ ε Unit) s = (.returned (), f s) := rfl

@[simp] theorem focus_apply (view : σ → τ) (update : τ → σ → σ) (c : Comp τ ε α) (s : σ) :
    focus view update c s = ((c (view s)).1, update (c (view s)).2 s) := rfl

theorem withLocal_returned {t t' : τ} {c : Comp τ ε α} {a : α} (h : c t = (.returned a, t'))
    (s : σ) : (withLocal t c : Comp σ ε (α × τ)) s = (.returned (a, t'), s) := by
  rw [withLocal, h]
  rfl

theorem withLocal_threw {t t' : τ} {c : Comp τ ε α} {e : ε} (h : c t = (.threw e, t')) (s : σ) :
    (withLocal t c : Comp σ ε (α × τ)) s = (.threw e, s) := by
  rw [withLocal, h]
  rfl

theorem bind_apply (c : Comp σ ε α) (f : α → Comp σ ε β) (s : σ) :
    (c >>= f) s = match c s with
      | (.returned a, s') => f a s'
      | (.threw e, s') => (.threw e, s')
      | (.undefined, s') => (.undefined, s')
      | (.exhausted, s') => (.exhausted, s') := rfl

theorem bind_returned {c : Comp σ ε α} {s s' : σ} {a : α} (h : c s = (.returned a, s'))
    (f : α → Comp σ ε β) : (c >>= f) s = f a s' := by
  rw [bind_apply, h]

theorem bind_threw {c : Comp σ ε α} {s s' : σ} {e : ε} (h : c s = (.threw e, s'))
    (f : α → Comp σ ε β) : (c >>= f) s = (.threw e, s') := by
  rw [bind_apply, h]

theorem bind_stopped {c : Comp σ ε α} {s s' : σ} {o : Outcome ε α} (h : c s = (o, s'))
    (ho : ∀ a, o ≠ .returned a) (f : α → Comp σ ε α) : (c >>= f) s = (o, s') := by
  rw [bind_apply, h]
  cases o with
  | returned a => exact absurd rfl (ho a)
  | _ => rfl

@[simp] theorem ofExcept_apply (r : Except ε α) (s : σ) :
    (ofExcept r : Comp σ ε α) s = (.ofExcept r, s) := rfl

theorem tryCatch_apply (c : Comp σ ε α) (handler : ε → Comp σ ε α) (s : σ) :
    tryCatch c handler s = match c s with
      | (.threw e, s') => handler e s'
      | r => r := rfl

theorem tryCatch_threw {c : Comp σ ε α} {s s' : σ} {e : ε} (h : c s = (.threw e, s'))
    (handler : ε → Comp σ ε α) : tryCatch c handler s = handler e s' := by
  rw [tryCatch_apply, h]

theorem tryCatch_returned {c : Comp σ ε α} {s s' : σ} {a : α} (h : c s = (.returned a, s'))
    (handler : ε → Comp σ ε α) : tryCatch c handler s = (.returned a, s') := by
  rw [tryCatch_apply, h]

theorem attempt_apply (c : Comp σ ε α) (s : σ) :
    attempt c s = match c s with
      | (.returned a, s') => (.returned (.ok a), s')
      | (.threw e, s') => (.returned (.error e), s')
      | (.undefined, s') => (.undefined, s')
      | (.exhausted, s') => (.exhausted, s') := by
  rw [attempt, tryCatch_apply, bind_apply]
  rcases c s with ⟨_ | _ | _ | _, s'⟩ <;> rfl

theorem forEntries_returned {κ : Type} {body : κ → Comp (β × σ) ε Unit} {k : κ} {b b' : β}
    {s s' : σ} (h : body k (b, s) = (.returned (), (b', s'))) (m : List (κ × β)) :
    forEntries body ((k, b) :: m) s = ((forEntries body m s').1,
      (k, b') :: (forEntries body m s').2.1, (forEntries body m s').2.2) := by
  rw [forEntries, h]

theorem forEntries_stopped {κ : Type} {body : κ → Comp (β × σ) ε Unit} {k : κ} {b b' : β}
    {s s' : σ} {o : Outcome ε Unit} (h : body k (b, s) = (o, (b', s'))) (ho : o ≠ .returned ())
    (m : List (κ × β)) : forEntries body ((k, b) :: m) s = (o, (k, b') :: m, s') := by
  rw [forEntries, h]
  cases o with
  | returned u => exact absurd rfl ho
  | _ => rfl

/-! ## Pre- and postconditions -/

/-- From a state with `P`, a call of `c` that returns `a` leaves a state with `Q a`.  Whether it may
run out of fuel instead is up to `ex`: `True` says so, `False` says that it never does. -/
def Triple (ex : Prop) (P : σ → Prop) (c : Comp σ ε α) (Q : α → σ → Prop) : Prop :=
  ∀ s, P s → match c s with
    | (.returned a, s') => Q a s'
    | (.exhausted, _) => ex
    | _ => True

section Triple

variable {ex : Prop} {P P' : σ → Prop} {Q Q' : α → σ → Prop}

theorem Triple.returned {c : Comp σ ε α} (h : Triple ex P c Q) {s s' : σ} {a : α} (hs : P s)
    (hc : c s = (.returned a, s')) : Q a s' := by
  have := h s hs
  rwa [hc] at this

theorem Triple.ne_exhausted {c : Comp σ ε α} (h : Triple False P c Q) {s : σ} (hs : P s) :
    (c s).1 ≠ .exhausted := by
  intro he
  have := h s hs
  rcases hc : c s with ⟨_ | _ | _ | _, s'⟩ <;> simp [hc] at he this

theorem Triple.pre {c : Comp σ ε α} (h : Triple ex P c Q) (hP : ∀ s, P' s → P s) :
    Triple ex P' c Q := fun s hs ↦ h s (hP s hs)

theorem Triple.post {c : Comp σ ε α} (h : Triple ex P c Q) (hQ : ∀ a s, Q a s → Q' a s) :
    Triple ex P c Q' := by
  intro s hs
  have := h s hs
  rcases hc : c s with ⟨_ | _ | _ | _, s'⟩ <;> simp only [hc] at this ⊢
  · exact hQ _ _ this
  · exact this

/-- Nothing has to be shown of a call that is never made. -/
theorem Triple.of_not {c : Comp σ ε α} (h : ∀ s, ¬ P s) : Triple ex P c Q :=
  fun s hs ↦ absurd hs (h s)

theorem Triple.pure {a : α} (h : ∀ s, P s → Q a s) :
    Triple ex P (pure a : Comp σ ε α) Q := fun s hs ↦ h s hs

theorem Triple.throw (e : ε) : Triple ex P (throw e : Comp σ ε α) Q := fun _ _ ↦ trivial

theorem Triple.undefined : Triple ex P (undefined : Comp σ ε α) Q := fun _ _ ↦ trivial

theorem Triple.exhausted (h : ∀ s, P s → ex) : Triple ex P (exhausted : Comp σ ε α) Q :=
  fun s hs ↦ h s hs

theorem Triple.modify {f : σ → σ} {Q : Unit → σ → Prop} (h : ∀ s, P s → Q () (f s)) :
    Triple ex P (modify f : Comp σ ε Unit) Q := fun s hs ↦ h s hs

theorem Triple.gets {g : σ → α} (h : ∀ s, P s → Q (g s) s) :
    Triple ex P (gets g : Comp σ ε α) Q := fun s hs ↦ h s hs

theorem Triple.bind {c : Comp σ ε α} {f : α → Comp σ ε β} {R : β → σ → Prop}
    (hc : Triple ex P c Q) (hf : ∀ a, Triple ex (Q a) (f a) R) :
    Triple ex P (c >>= f) R := by
  intro s hs
  have h := hc s hs
  rw [bind_apply]
  rcases hcs : c s with ⟨a | _ | _ | _, s'⟩ <;> simp only [hcs] at h ⊢
  · exact hf a s' h
  · exact h

theorem Triple.focus {view : σ → τ} {update : τ → σ → σ} {c : Comp τ ε α}
    {R : σ → α → τ → Prop} (hc : ∀ s, P s → Triple ex (· = view s) c (R s))
    (hQ : ∀ s a t, P s → R s a t → Q a (update t s)) :
    Triple ex P (focus view update c) Q := by
  intro s hs
  have h := hc s hs (view s) rfl
  rcases hcs : c (view s) with ⟨a | _ | _ | _, t⟩ <;> simp only [focus_apply, hcs] at h ⊢
  · exact hQ s a t hs h
  · exact h

end Triple

/-! ## Where a call takes the state -/

/-- Every call of `c` takes the state along `R`, however it ends. -/
def Moves (R : σ → σ → Prop) (c : Comp σ ε α) : Prop := ∀ s, R s (c s).2

section Moves

variable {R : σ → σ → Prop}

theorem Moves.mono {R' : σ → σ → Prop} {c : Comp σ ε α} (hc : Moves R c)
    (h : ∀ s s', R s s' → R' s s') : Moves R' c := fun s ↦ h _ _ (hc s)

theorem Moves.pure [Std.Refl R] (a : α) : Moves R (pure a : Comp σ ε α) :=
  fun s ↦ Std.Refl.refl s

theorem Moves.throw [Std.Refl R] (e : ε) : Moves R (throw e : Comp σ ε α) :=
  fun s ↦ Std.Refl.refl s

theorem Moves.gets [Std.Refl R] (g : σ → α) : Moves R (gets g : Comp σ ε α) :=
  fun s ↦ Std.Refl.refl s

theorem Moves.modify {f : σ → σ} (h : ∀ s, R s (f s)) : Moves R (modify f : Comp σ ε Unit) :=
  fun s ↦ h s

theorem Moves.ofExcept [Std.Refl R] (r : Except ε α) : Moves R (ofExcept r : Comp σ ε α) :=
  fun s ↦ Std.Refl.refl s

theorem Moves.focus {S : τ → τ → Prop} {view : σ → τ} {update : τ → σ → σ} {c : Comp τ ε α}
    (hc : Moves S c) (h : ∀ s t, S (view s) t → R s (update t s)) :
    Moves R (focus view update c) := fun s ↦ h s _ (hc (view s))

theorem Moves.withLocal [Std.Refl R] (t : τ) (c : Comp τ ε α) :
    Moves R (withLocal t c : Comp σ ε (α × τ)) := fun s ↦ Std.Refl.refl s

theorem Moves.bind [IsTrans σ R] {c : Comp σ ε α} {f : α → Comp σ ε β} (hc : Moves R c)
    (hf : ∀ a, Moves R (f a)) : Moves R (c >>= f) := by
  intro s
  have h := hc s
  rw [bind_apply]
  rcases hs : c s with ⟨_ | _ | _ | _, s'⟩ <;> rw [hs] at h
  · exact IsTrans.trans _ _ _ h (hf _ s')
  all_goals exact h

/-- Where `f` goes on from what `c` returned, or where `c` stopped. -/
theorem Moves.bind_from [Std.Refl R] {f : α → Comp σ ε β} (hf : ∀ a, Moves R (f a))
    (c : Comp σ ε α) (s : σ) : R (c s).2 ((c >>= f) s).2 := by
  rw [bind_apply]
  rcases c s with ⟨a | _ | _ | _, s'⟩
  · exact hf a s'
  all_goals exact Std.Refl.refl s'

theorem Moves.tryCatch [IsTrans σ R] {c : Comp σ ε α} {handler : ε → Comp σ ε α}
    (hc : Moves R c) (hh : ∀ e, Moves R (handler e)) : Moves R (tryCatch c handler) := by
  intro s
  have h := hc s
  rw [tryCatch_apply]
  rcases hs : c s with ⟨_ | _ | _ | _, s'⟩ <;> rw [hs] at h
  case threw e => exact IsTrans.trans _ _ _ h (hh e s')
  all_goals exact h

theorem Moves.attempt {c : Comp σ ε α} (hc : Moves R c) : Moves R (attempt c) := by
  intro s
  have h := hc s
  rw [attempt_apply]
  rcases hs : c s with ⟨_ | _ | _ | _, s'⟩ <;> rw [hs] at h <;> exact h

/-- A loop takes what is beside the map where its turns take it. -/
theorem Moves.forEntries [Std.Refl R] [IsTrans σ R] {κ : Type} {body : κ → Comp (β × σ) ε Unit}
    (h : ∀ k, Moves (fun s s' ↦ R s.2 s'.2) (body k)) (m : List (κ × β)) (s : σ) :
    R s (forEntries body m s).2.2 := by
  induction m generalizing s with
  | nil => exact Std.Refl.refl s
  | cons p m ih =>
    obtain ⟨k, b⟩ := p
    have hturn := h k (b, s)
    rcases hb : body k (b, s) with ⟨o, b', s'⟩
    rw [hb] at hturn
    by_cases ho : o = .returned ()
    · rw [ho] at hb
      rw [forEntries_returned hb]
      exact IsTrans.trans _ _ _ hturn (ih s')
    · rw [forEntries_stopped hb ho]
      exact hturn

end Moves

/-! ## What a call throws -/

/-- Whatever `c` throws satisfies `P`. -/
def OnlyThrows (P : ε → Prop) (c : Comp σ ε α) : Prop := ∀ s e, (c s).1 = .threw e → P e

section OnlyThrows

variable {P : ε → Prop}

theorem OnlyThrows.pure (a : α) : OnlyThrows P (pure a : Comp σ ε α) := by
  intro s e h
  simp at h

theorem OnlyThrows.throw {e : ε} (he : P e) : OnlyThrows P (throw e : Comp σ ε α) := by
  intro s e' h
  simp only [throw_apply, Outcome.threw.injEq] at h
  exact h ▸ he

theorem OnlyThrows.undefined : OnlyThrows P (undefined : Comp σ ε α) := by
  intro s e h
  simp at h

theorem OnlyThrows.exhausted : OnlyThrows P (exhausted : Comp σ ε α) := by
  intro s e h
  simp at h

theorem OnlyThrows.modify (f : σ → σ) : OnlyThrows P (modify f : Comp σ ε Unit) := by
  intro s e h
  simp at h

theorem OnlyThrows.gets (g : σ → α) : OnlyThrows P (gets g : Comp σ ε α) := by
  intro s e h
  simp at h

theorem OnlyThrows.bind {c : Comp σ ε α} {f : α → Comp σ ε β} (hc : OnlyThrows P c)
    (hf : ∀ a, OnlyThrows P (f a)) : OnlyThrows P (c >>= f) := by
  intro s e h
  rw [bind_apply] at h
  rcases hs : c s with ⟨a | e' | _ | _, s'⟩ <;> rw [hs] at h
  · exact hf a s' e h
  · simp only [Outcome.threw.injEq] at h
    exact hc s e (by rw [hs, h])
  all_goals simp at h

theorem OnlyThrows.focus {view : σ → τ} {update : τ → σ → σ} {c : Comp τ ε α}
    (hc : OnlyThrows P c) : OnlyThrows P (focus view update c) :=
  fun s e h ↦ hc (view s) e h

end OnlyThrows

/-! ## Calls that return or throw -/

/-- Every call of `c` returns or throws. -/
def Ends (c : Comp σ ε α) : Prop :=
  ∀ s, (∃ a s', c s = (.returned a, s')) ∨ ∃ e s', c s = (.threw e, s')

theorem Ends.pure (a : α) : Ends (pure a : Comp σ ε α) := fun s ↦ Or.inl ⟨a, s, rfl⟩

theorem Ends.modify (f : σ → σ) : Ends (modify f : Comp σ ε Unit) :=
  fun s ↦ Or.inl ⟨(), f s, rfl⟩

theorem Ends.throw (e : ε) : Ends (throw e : Comp σ ε α) := fun s ↦ Or.inr ⟨e, s, rfl⟩

theorem Ends.bind {c : Comp σ ε α} {f : α → Comp σ ε β} (hc : Ends c) (hf : ∀ a, Ends (f a)) :
    Ends (c >>= f) := by
  intro s
  rcases hc s with ⟨a, s', h⟩ | ⟨e, s', h⟩
  · rw [bind_returned h]
    exact hf a s'
  · exact Or.inr ⟨e, s', bind_threw h f⟩

theorem Ends.attempt {c : Comp σ ε α} (hc : Ends c) : Ends (attempt c) := by
  intro s
  rcases hc s with ⟨a, s', h⟩ | ⟨e, s', h⟩
  · exact Or.inl ⟨_, s', by rw [attempt_apply, h]⟩
  · exact Or.inl ⟨_, s', by rw [attempt_apply, h]⟩

/-! ## More fuel -/

/-- `c'` does what `c` does wherever `c` does not run out of fuel. -/
def Approx (c c' : Comp σ ε α) : Prop := ∀ s, (c s).1 ≠ .exhausted → c' s = c s

theorem Approx.refl (c : Comp σ ε α) : Approx c c := fun _ _ ↦ rfl

theorem Approx.trans {c c' c'' : Comp σ ε α} (h : Approx c c') (h' : Approx c' c'') :
    Approx c c'' := by
  intro s hs
  have h1 := h s hs
  rw [h' s (by rwa [h1]), h1]

theorem Approx.exhausted (c : Comp σ ε α) : Approx exhausted c :=
  fun _ h ↦ absurd rfl h

theorem Approx.bind {c c' : Comp σ ε α} {f f' : α → Comp σ ε β} (hc : Approx c c')
    (hf : ∀ a, Approx (f a) (f' a)) : Approx (c >>= f) (c' >>= f') := by
  intro s h
  rw [bind_apply] at h ⊢
  have h1 : (c s).1 ≠ .exhausted := by
    intro he
    rcases hs : c s with ⟨_ | _ | _ | _, s'⟩ <;> simp [hs] at he h
  rw [hc s h1, bind_apply]
  rcases hs : c s with ⟨a | _ | _ | _, s'⟩ <;> rw [hs] at h
  exact hf a s' h

theorem Approx.focus {view : σ → τ} {update : τ → σ → σ} {c c' : Comp τ ε α}
    (hc : Approx c c') : Approx (focus view update c) (focus view update c') := by
  intro s h
  simp only [focus_apply] at h ⊢
  rw [hc (view s) h]

/-! ## Changes of the state a call does not notice -/

/-- A call of `c` that does not throw ends the same way from `f s` as from `s`, and `f` relates the
states it ends in. -/
def Commutes (f : σ → σ) (c : Comp σ ε α) : Prop :=
  ∀ s, (∀ e, (c s).1 ≠ .threw e) → c (f s) = ((c s).1, f (c s).2)

section Commutes

variable {f : σ → σ}

theorem Commutes.pure (a : α) : Commutes f (pure a : Comp σ ε α) := fun _ _ ↦ rfl

theorem Commutes.throw (e : ε) : Commutes f (throw e : Comp σ ε α) := fun _ h ↦ absurd rfl (h e)

theorem Commutes.undefined : Commutes f (undefined : Comp σ ε α) := fun _ _ ↦ rfl

theorem Commutes.exhausted : Commutes f (exhausted : Comp σ ε α) := fun _ _ ↦ rfl

theorem Commutes.modify {g : σ → σ} (h : ∀ s, g (f s) = f (g s)) :
    Commutes f (modify g : Comp σ ε Unit) := by
  intro s _
  rw [modify_apply, modify_apply, h]

theorem Commutes.gets {g : σ → α} (h : ∀ s, g (f s) = g s) :
    Commutes f (gets g : Comp σ ε α) := by
  intro s _
  rw [gets_apply, gets_apply, h]

theorem Commutes.bind {c : Comp σ ε α} {k : α → Comp σ ε β} (hc : Commutes f c)
    (hk : ∀ a, Commutes f (k a)) : Commutes f (c >>= k) := by
  intro s h
  have h1 : ∀ e, (c s).1 ≠ .threw e := by
    intro e he
    refine h e ?_
    rcases hs : c s with ⟨_ | _ | _ | _, s'⟩ <;> simp [hs] at he
    rw [bind_threw hs, he]
  rw [bind_apply, hc s h1, bind_apply]
  rw [bind_apply] at h
  rcases hs : c s with ⟨a | e | _ | _, s'⟩ <;> rw [hs] at h
  exact hk a s' h

theorem Commutes.focus {view : σ → τ} {update : τ → σ → σ} {g : τ → τ} {c : Comp τ ε α}
    (hc : Commutes g c) (hview : ∀ s, view (f s) = g (view s))
    (hupdate : ∀ t s, update (g t) (f s) = f (update t s)) :
    Commutes f (focus view update c) := by
  intro s h
  simp only [focus_apply] at h ⊢
  rw [hview, hc (view s) h, hupdate]

end Commutes

/-! ## Runs from related states -/

/-- From states that `R` relates, `c` ends in the same way, and in states that `R` relates. -/
def Respects (R : σ → σ → Prop) (c : Comp σ ε α) : Prop :=
  ∀ s s', R s s' → (c s).1 = (c s').1 ∧ R (c s).2 (c s').2

/-- The same value, beside states that `R` relates. -/
def Beside (R : σ → σ → Prop) (s s' : β × σ) : Prop := s.1 = s'.1 ∧ R s.2 s'.2

section Respects

variable {R : σ → σ → Prop}

theorem Respects.pure (a : α) : Respects R (pure a : Comp σ ε α) := fun _ _ h ↦ ⟨rfl, h⟩

theorem Respects.throw (e : ε) : Respects R (throw e : Comp σ ε α) := fun _ _ h ↦ ⟨rfl, h⟩

theorem Respects.ofExcept (r : Except ε α) : Respects R (ofExcept r : Comp σ ε α) :=
  fun _ _ h ↦ ⟨rfl, h⟩

theorem Respects.gets {g : σ → α} (hg : ∀ s s', R s s' → g s = g s') :
    Respects R (gets g : Comp σ ε α) := by
  intro s s' h
  rw [gets_apply, gets_apply, hg s s' h]
  exact ⟨rfl, h⟩

theorem Respects.modify {f : σ → σ} (hf : ∀ s s', R s s' → R (f s) (f s')) :
    Respects R (modify f : Comp σ ε Unit) := fun s s' h ↦ ⟨rfl, hf s s' h⟩

theorem Respects.bind {c : Comp σ ε α} {f : α → Comp σ ε β} (hc : Respects R c)
    (hf : ∀ a, Respects R (f a)) : Respects R (c >>= f) := by
  intro s s' h
  obtain ⟨ho, hr⟩ := hc s s' h
  rw [bind_apply, bind_apply]
  rcases hs : c s with ⟨o, t⟩
  rcases hs' : c s' with ⟨o', t'⟩
  rw [hs, hs'] at ho hr
  subst ho
  rcases o with a | e | _ | _
  · exact hf a t t' hr
  all_goals exact ⟨rfl, hr⟩

theorem Respects.tryCatch {c : Comp σ ε α} {handler : ε → Comp σ ε α} (hc : Respects R c)
    (hh : ∀ e, Respects R (handler e)) : Respects R (tryCatch c handler) := by
  intro s s' h
  obtain ⟨ho, hr⟩ := hc s s' h
  rw [tryCatch_apply, tryCatch_apply]
  rcases hs : c s with ⟨o, t⟩
  rcases hs' : c s' with ⟨o', t'⟩
  rw [hs, hs'] at ho hr
  subst ho
  rcases o with a | e | _ | _
  case threw => exact hh e t t' hr
  all_goals exact ⟨rfl, hr⟩

theorem Respects.focus {S : τ → τ → Prop} {view : σ → τ} {update : τ → σ → σ} {c : Comp τ ε α}
    (hc : Respects S c) (hview : ∀ s s', R s s' → S (view s) (view s'))
    (hupdate : ∀ s s' t t', R s s' → S t t' → R (update t s) (update t' s')) :
    Respects R (focus view update c) := by
  intro s s' h
  obtain ⟨ho, hr⟩ := hc _ _ (hview s s' h)
  exact ⟨ho, hupdate s s' _ _ h hr⟩

/-- A computation over the value alone. -/
theorem Respects.fst {c : Comp β ε α} :
    Respects (Beside R) (Comp.focus (fun s ↦ s.1) (fun t s ↦ (t, s.2)) c : Comp (β × σ) ε α) :=
  .focus (S := Eq) (fun t t' h ↦ by subst h; exact ⟨rfl, rfl⟩) (fun _ _ h ↦ h.1)
    fun _ _ _ _ h ht ↦ ⟨ht, h.2⟩

/-- A loop whose turns respect `R` beside the value of their entry respects it beside the map. -/
theorem Respects.forEntries {κ : Type} {body : κ → Comp (β × σ) ε Unit}
    (hbody : ∀ k, Respects (Beside R) (body k)) (m : List (κ × β)) {s s' : σ} (h : R s s') :
    (forEntries body m s).1 = (forEntries body m s').1 ∧
      Beside R (forEntries body m s).2 (forEntries body m s').2 := by
  induction m generalizing s s' with
  | nil => exact ⟨rfl, rfl, h⟩
  | cons p m ih =>
    obtain ⟨k, b⟩ := p
    obtain ⟨ho, hb, hr⟩ := hbody k (b, s) (b, s') ⟨rfl, h⟩
    rcases hs : body k (b, s) with ⟨o, b₁, s₁⟩
    rcases hs' : body k (b, s') with ⟨o', b₁', s₁'⟩
    rw [hs, hs'] at ho hb hr
    obtain rfl : o = o' := ho
    obtain rfl : b₁ = b₁' := hb
    by_cases hreturned : o = .returned ()
    · rw [hreturned] at hs hs'
      obtain ⟨ho, hm, hr⟩ := ih hr
      rw [forEntries_returned hs, forEntries_returned hs']
      refine ⟨ho, ?_, hr⟩
      rw [hm]
    · rw [forEntries_stopped hs hreturned, forEntries_stopped hs' hreturned]
      exact ⟨rfl, rfl, hr⟩

end Respects

end Comp
