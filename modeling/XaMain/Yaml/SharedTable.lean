import XaMain.Yaml.Dispatch

/-!
# One table for many loads

`parsers[mkey]` adds an empty entry for a section that has none, so a table that is kept from one
load to the next grows with the files that are loaded.  An empty entry cannot be called, and is as
good as none: the loads do not influence each other.

* `DispatchClosed`: a property that the steps of a load have, and that sequencing and the loops
  keep, holds of the load.  Both of the next two are cases of it.
* `Grows` says what a load may do to the table (`grows_closed`), whatever it ends with.
* `SameHandlers` relates the states of two loads whose tables have the same handlers, and such loads
  cannot be told apart (`respects_closed`).
* `loadAll_independent` — for every sequence of loads, each does what it would do with the first
  table.
-/

set_option autoImplicit false

namespace XaMain
namespace Yaml

variable {σ : Type}

/-! ## Following the text of `load_settings` -/

/-- `P` holds of every step of a load of settings, and of what is put together from calls it holds
of. -/
structure DispatchClosed (P : {β α : Type} → Comp (β × Dispatch σ) Exception α → Prop) : Prop where
  pure : ∀ {β α : Type} (a : α), P (pure a : Comp (β × Dispatch σ) Exception α)
  bind : ∀ {β α γ : Type} {c : Comp (β × Dispatch σ) Exception α}
    {f : α → Comp (β × Dispatch σ) Exception γ}, P c → (∀ a, P (f a)) → P (c >>= f)
  throw : ∀ {β α : Type} (e : Exception), P (Comp.throw e : Comp (β × Dispatch σ) Exception α)
  ofExcept : ∀ {β α : Type} (r : Except Exception α),
    P (Comp.ofExcept r : Comp (β × Dispatch σ) Exception α)
  tryCatch : ∀ {β α : Type} {c : Comp (β × Dispatch σ) Exception α}
    {handler : Exception → Comp (β × Dispatch σ) Exception α},
    P c → (∀ e, P (handler e)) → P (Comp.tryCatch c handler)
  gets : ∀ {β α : Type} (g : β → α),
    P (Comp.gets fun s ↦ g s.1 : Comp (β × Dispatch σ) Exception α)
  callParser : ∀ mkey key, P (callParser mkey key)
  onMapping : ∀ {body : String → Comp (Node × Dispatch σ) Exception Unit},
    (∀ k, P (body k)) → P (onMapping (Comp.forEntries body))
  onLoading : ∀ {α : Type} (c : Loader α), P (onLoading c)
  onNode : ∀ {α : Type} {c : Comp (Node × Dispatch σ) Exception α}, P c → P (onNode c)
  setErrc : ∀ val message, P (setErrc val message)

namespace DispatchClosed

variable {P : {β α : Type} → Comp (β × Dispatch σ) Exception α → Prop}

theorem runParser (h : DispatchClosed P) (mkey key : String) : P (runParser mkey key) := by
  rw [Yaml.runParser]
  refine h.bind (h.callParser mkey key) fun result ↦ ?_
  split
  · exact h.bind (h.gets id) fun _ ↦ h.throw _
  · exact h.pure _

theorem dispatchEntry (h : DispatchClosed P) (mkey key : String) : P (dispatchEntry mkey key) := by
  rw [Yaml.dispatchEntry]
  refine h.bind (h.gets Node.type) fun type ↦ ?_
  split
  · exact h.pure _
  · exact h.runParser mkey key

theorem dispatchSection (h : DispatchClosed P) (mkey : String) : P (dispatchSection mkey) := by
  rw [Yaml.dispatchSection]
  refine h.bind (h.gets Node.type) fun type ↦ ?_
  cases type with
  | empty => exact h.throw _
  | scalar => exact h.pure _
  | sequence => exact h.runParser mkey mkey
  | mapping => exact h.onMapping (h.dispatchEntry mkey)

theorem catchClauses (h : DispatchClosed P) (e : Exception) : P (catchClauses e) := by
  rw [Yaml.catchClauses]
  split_ifs <;> exact h.bind (h.setErrc _ _) fun _ ↦ h.pure _

theorem loadFileWithFmap (h : DispatchClosed P) (files : String → FileState) (filename : String) :
    P (loadFileWithFmap files filename) := by
  rw [Yaml.loadFileWithFmap]
  refine h.tryCatch (h.bind (h.onLoading _) fun _ ↦ h.bind (h.gets Loading.node) fun node ↦ ?_)
    h.catchClauses
  exact h.bind (h.ofExcept _) fun _ ↦ h.bind (h.onNode (h.onMapping h.dispatchSection)) fun _ ↦
    h.bind (h.setErrc _ _) fun _ ↦ h.pure _

theorem loadSettings (h : DispatchClosed P) (files : String → FileState) (filename : String) :
    P (loadSettings files filename) := by
  rw [Yaml.loadSettings]
  refine h.bind (h.loadFileWithFmap files filename) fun result ↦
    h.bind (h.gets fun s : Loading ↦ s.node.errc) fun errc ↦ ?_
  split
  · exact h.pure _
  · exact h.pure _

end DispatchClosed

/-! ## What a load does to the table -/

/-- `d'` has the entries of `d`, and besides them only empty ones. -/
def Grows (d d' : Dispatch σ) : Prop := ∀ mkey,
  d'.parsers.find? mkey = d.parsers.find? mkey ∨
    d.parsers.find? mkey = none ∧ d'.parsers.find? mkey = some none

theorem Grows.refl (d : Dispatch σ) : Grows d d := fun _ ↦ Or.inl rfl

theorem Grows.trans {d d' d'' : Dispatch σ} (h : Grows d d') (h' : Grows d' d'') : Grows d d'' := by
  intro mkey
  rcases h mkey with heq | ⟨hnone, hempty⟩
  · rw [← heq]
    exact h' mkey
  · rcases h' mkey with heq' | ⟨hnone', -⟩
    · exact Or.inr ⟨hnone, by rw [heq', hempty]⟩
    · rw [hempty] at hnone'
      simp at hnone'

instance : Std.Refl (Grows (σ := σ)) := ⟨.refl⟩

instance : IsTrans (Dispatch σ) Grows := ⟨fun _ _ _ ↦ .trans⟩

/-- The same, of a state with something beside the table. -/
def GrowsBeside {β : Type} (s s' : β × Dispatch σ) : Prop := Grows s.2 s'.2

instance {β : Type} : Std.Refl (GrowsBeside (σ := σ) (β := β)) := ⟨fun s ↦ .refl s.2⟩

instance {β : Type} : IsTrans (β × Dispatch σ) GrowsBeside := ⟨fun _ _ _ h h' ↦ Grows.trans h h'⟩

theorem callParser_grows (mkey key : String) :
    Comp.Moves (GrowsBeside (σ := σ)) (callParser mkey key) := by
  intro s
  have hfind : ∀ k, (s.2.parsers.insertNew mkey none).find? k = s.2.parsers.find? k ∨
      s.2.parsers.find? k = none ∧ (s.2.parsers.insertNew mkey none).find? k = some none := by
    intro k
    by_cases hk : k = mkey
    · rw [hk, OrderedMap.find?_insertNew_self]
      cases s.2.parsers.find? mkey with
      | none => exact Or.inr ⟨rfl, rfl⟩
      | some f => exact Or.inl rfl
    · exact Or.inl (OrderedMap.find?_insertNew_ne _ hk none)
  simp only [callParser]
  split
  · exact hfind
  · exact hfind

theorem grows_closed : DispatchClosed fun c ↦ Comp.Moves (GrowsBeside (σ := σ)) c where
  pure := .pure
  bind := .bind
  throw := .throw
  ofExcept := .ofExcept
  tryCatch := .tryCatch
  gets _ := .gets _
  callParser := callParser_grows
  onMapping h s := Comp.Moves.forEntries h s.1.mapping s.2
  onLoading _ s := .refl s.2
  onNode h := .focus h fun _ _ hs ↦ hs
  setErrc _ _ := .modify fun s ↦ .refl s.2

/-- The handlers are the same, whatever empty entries there are. -/
theorem Grows.handler_eq {d d' : Dispatch σ} (h : Grows d d') :
    d'.parsers.handler = d.parsers.handler := by
  funext mkey
  rw [Parsers.handler, Parsers.handler]
  rcases h mkey with heq | ⟨hnone, hempty⟩
  · rw [heq]
  · rw [hnone, hempty]
    rfl

/-! ## Loads with the same handlers -/

/-- The tables have the same handlers, and all else is the same. -/
structure SameHandlers (d d' : Dispatch σ) : Prop where
  handler : d.parsers.handler = d'.parsers.handler
  env : d.env = d'.env
  trace : d.trace = d'.trace

theorem callParser_respects (mkey key : String) :
    Comp.Respects (Comp.Beside (SameHandlers (σ := σ))) (callParser mkey key) := by
  rintro ⟨value, parsers, env, trace⟩ ⟨_, parsers', _, _⟩ ⟨rfl, hhandler, rfl, rfl⟩
  have hsame := (handler_insertNew parsers mkey).trans
    (hhandler.trans (handler_insertNew parsers' mkey).symm)
  simp only [callParser, hsame]
  cases Parsers.handler (parsers'.insertNew mkey none) mkey with
  | none => exact ⟨rfl, rfl, hsame, rfl, rfl⟩
  | some f => exact ⟨rfl, rfl, hsame, rfl, rfl⟩

theorem onMapping_respects {body : String → Comp (Node × Dispatch σ) Exception Unit}
    (h : ∀ k, Comp.Respects (Comp.Beside SameHandlers) (body k)) :
    Comp.Respects (Comp.Beside SameHandlers) (onMapping (Comp.forEntries body)) := by
  rintro ⟨n, d⟩ ⟨_, d'⟩ ⟨rfl, hd⟩
  obtain ⟨ho, hm, hsame⟩ := Comp.Respects.forEntries h n.mapping hd
  refine ⟨ho, ?_, hsame⟩
  simp only [onMapping, hm]

/-- **Loads whose tables have the same handlers cannot be told apart.** -/
theorem respects_closed :
    DispatchClosed fun c ↦ Comp.Respects (Comp.Beside (SameHandlers (σ := σ))) c where
  pure := .pure
  bind := .bind
  throw := .throw
  ofExcept := .ofExcept
  tryCatch := .tryCatch
  gets g := .gets fun _ _ h ↦ congrArg g h.1
  callParser := callParser_respects
  onMapping := onMapping_respects
  onLoading _ := .fst
  onNode h := .focus h (fun _ _ hs ↦ ⟨by rw [hs.1], hs.2⟩) fun _ _ _ _ hs ht ↦
    ⟨by rw [hs.1, ht.1], ht.2⟩
  setErrc _ _ := .modify fun _ _ h ↦ ⟨by rw [h.1], h.2⟩

/-! ## A sequence of loads -/

/-- One of the loads of a program, into a new node. -/
structure SettingsLoad (σ : Type) where
  /-- The files as they are then. -/
  files : String → FileState
  filename : String
  /-- What the program has done to the settings since the load before. -/
  prepare : σ → σ

/-- What a load comes to. -/
structure Report (σ : Type) where
  /-- How `load_settings` ends, and what it returns. -/
  outcome : Outcome Exception Bool
  /-- `errc_` of the node. -/
  errc : ErrorCode
  /-- The calls of handlers, with their results. -/
  calls : List Invocation
  /-- The settings that are left. -/
  env : σ

/-- The load, over the table and the settings. -/
def SettingsLoad.run (load : SettingsLoad σ) (parsers : Parsers σ) (env : σ) :
    Outcome Exception Bool × Loading × Dispatch σ :=
  loadSettings load.files load.filename
    ({ node := .fresh, events := [] }, { parsers := parsers, env := load.prepare env })

/-- What is to be seen of it. -/
def SettingsLoad.report (load : SettingsLoad σ) (parsers : Parsers σ) (env : σ) : Report σ :=
  let r := load.run parsers env
  { outcome := r.1, errc := r.2.1.node.errc, calls := r.2.2.trace, env := r.2.2.env }

/-- The loads one after the other, each with the table that the one before has left: their reports,
and the table in the end. -/
def loadAll : List (SettingsLoad σ) → Parsers σ → σ → List (Report σ) × Parsers σ
  | [], parsers, _ => ([], parsers)
  | load :: loads, parsers, env =>
    let rest := loadAll loads (load.run parsers env).2.2.parsers (load.report parsers env).env
    (load.report parsers env :: rest.1, rest.2)

/-- The loads one after the other, each with the same table as it was constructed. -/
def loadEach (parsers : Parsers σ) : List (SettingsLoad σ) → σ → List (Report σ)
  | [], _ => []
  | load :: loads, env =>
    load.report parsers env :: loadEach parsers loads (load.report parsers env).env

/-- With the same handlers a load comes to the same. -/
theorem SettingsLoad.report_congr (load : SettingsLoad σ) {parsers parsers' : Parsers σ}
    (h : parsers.handler = parsers'.handler) (env : σ) :
    load.report parsers env = load.report parsers' env := by
  obtain ⟨houtcome, hnode, hsame⟩ := respects_closed.loadSettings load.files load.filename
    ({ node := .fresh, events := [] }, { parsers := parsers, env := load.prepare env })
    ({ node := .fresh, events := [] }, { parsers := parsers', env := load.prepare env })
    ⟨rfl, h, rfl, rfl⟩
  rw [SettingsLoad.report, SettingsLoad.report, SettingsLoad.run, SettingsLoad.run, houtcome, hnode,
    hsame.trace, hsame.env]

theorem SettingsLoad.run_grows (load : SettingsLoad σ) (parsers : Parsers σ) (env : σ) :
    Grows { parsers := parsers, env := env } (load.run parsers env).2.2 :=
  grows_closed.loadSettings load.files load.filename
    ({ node := .fresh, events := [] }, { parsers := parsers, env := load.prepare env })

theorem loadEach_congr {parsers parsers' : Parsers σ} (h : parsers.handler = parsers'.handler)
    (loads : List (SettingsLoad σ)) (env : σ) :
    loadEach parsers loads env = loadEach parsers' loads env := by
  induction loads generalizing env with
  | nil => rfl
  | cons load loads ih => rw [loadEach, loadEach, load.report_congr h, ih]

/-- **Loads through one table do not influence each other.**  Each makes the calls of handlers,
returns the value and leaves the error code and the settings that it would with the table as it was
constructed, from the settings it starts with.  The table keeps the entries it had, and those that
are added are empty. -/
theorem loadAll_independent (parsers : Parsers σ) (loads : List (SettingsLoad σ)) (env : σ) :
    (loadAll loads parsers env).1 = loadEach parsers loads env ∧
      ∀ mkey, (loadAll loads parsers env).2.find? mkey = parsers.find? mkey ∨
        parsers.find? mkey = none ∧ (loadAll loads parsers env).2.find? mkey = some none := by
  induction loads generalizing parsers env with
  | nil => exact ⟨rfl, fun _ ↦ Or.inl rfl⟩
  | cons load loads ih =>
    have hgrows := load.run_grows parsers env
    obtain ⟨hreports, htable⟩ :=
      ih (load.run parsers env).2.2.parsers (load.report parsers env).env
    refine ⟨?_, fun mkey ↦ ?_⟩
    · rw [loadAll, loadEach, hreports, loadEach_congr hgrows.handler_eq]
    · have hrest : Grows (load.run parsers env).2.2
          { parsers := (loadAll (load :: loads) parsers env).2, env := env } := htable
      exact hgrows.trans hrest mkey

end Yaml
end XaMain
