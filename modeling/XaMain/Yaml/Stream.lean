import XaMain.Yaml.Loader

/-!
# What the loader does on every stream

Facts about `loadTop` and the functions below it that hold whatever the events are, well formed or
not.

* `LoaderClosed` and `LoaderClosed.loader`: a property that the steps of the loader have, and that
  sequencing and loading a part keep, holds of the loader.  Both of the next two are cases of it.
* `loadTop_throws`: whatever the loader throws is a `yaml_parse_fail`.
* `loadTop_extend`: events that come after those a load looked at make no difference to it, unless
  it failed on a parser error for the lack of them.
* `loadTop_ne_exhausted`: the fuel that `loadTop` starts with is enough.
* `loadTop_loaded`: a load of a fresh node that returns has left no node below the root untouched.
-/

set_option autoImplicit false

namespace XaMain
namespace Yaml

/-! ## Following the text of the loader -/

/-- `P` holds of every step of the loader, and of what is put together from calls it holds of. -/
structure LoaderClosed (P : {α : Type} → Loader α → Prop) : Prop where
  pure : ∀ {α : Type} (a : α), P (pure a : Loader α)
  bind : ∀ {α β : Type} {c : Loader α} {f : α → Loader β}, P c → (∀ a, P (f a)) → P (c >>= f)
  throw : ∀ {α : Type} (s : String), P (Comp.throw (yamlParseFail s) : Loader α)
  exhausted : ∀ {α : Type}, P (Comp.exhausted : Loader α)
  nextEvent : P nextEvent
  scalarValue : ∀ event, P (scalarValue event)
  eventDelete : ∀ event, P (yamlEventDelete event)
  mapping : P (Comp.gets fun s ↦ s.node.mapping : Loader (List (String × Node)))
  assignNode : ∀ g : Node → Node, P (assignNode g)
  onEntry : ∀ {α : Type} (key : String) {c : Loader α}, P c → P (onEntry key c)
  onBack : ∀ {α : Type} {c : Loader α}, P c → P (onBack c)

section LoaderClosed

variable {P : {α : Type} → Loader α → Prop}

/-- The three functions of the recursion, by induction on the fuel. -/
theorem LoaderClosed.loader (h : LoaderClosed P) : ∀ fuel : Nat,
    (∀ event, P (loadNode fuel event)) ∧ P (loadMapping fuel) ∧ P (loadSequence fuel)
  | 0 => by
    refine ⟨fun event ↦ ?_, ?_, ?_⟩
    · rw [loadNode]; exact h.exhausted
    · rw [loadMapping]; exact h.exhausted
    · rw [loadSequence]; exact h.exhausted
  | fuel + 1 => by
    obtain ⟨hnode, hmap, hseq⟩ := h.loader fuel
    refine ⟨fun event ↦ ?_, ?_, ?_⟩
    · rw [loadNode]
      split
      · exact h.bind (h.assignNode _) fun _ ↦ h.bind (h.scalarValue _) fun v ↦
          h.bind (h.assignNode _) fun _ ↦ h.pure _
      · exact h.bind (h.assignNode _) fun _ ↦ hmap
      · exact h.bind (h.assignNode _) fun _ ↦ hseq
      · exact h.throw _
    · rw [loadMapping]
      refine h.bind h.nextEvent fun event ↦ ?_
      split
      · exact h.bind (h.eventDelete _) fun _ ↦ h.pure _
      · refine h.bind (h.scalarValue _) fun key ↦ h.bind (h.eventDelete _) fun _ ↦
          h.bind h.mapping fun mapping ↦ ?_
        split
        · exact h.throw _
        · exact h.bind (h.assignNode _) fun _ ↦ h.bind h.nextEvent fun value ↦
            h.bind (h.onEntry key (hnode value)) fun _ ↦ h.bind (h.eventDelete _) fun _ ↦ hmap
    · rw [loadSequence]
      refine h.bind h.nextEvent fun event ↦ ?_
      split
      · exact h.bind (h.eventDelete _) fun _ ↦ h.pure _
      · refine h.bind (h.assignNode _) fun _ ↦ h.bind (h.onBack (hnode event)) fun result ↦
          h.bind (h.eventDelete _) fun _ ↦ ?_
        split
        · exact h.pure _
        · exact hseq

/-- The loop of `load_top`. -/
theorem LoaderClosed.loadTopLoop (h : LoaderClosed P) (fuel : Nat) : P (loadTopLoop fuel) := by
  induction fuel with
  | zero => rw [Yaml.loadTopLoop]; exact h.exhausted
  | succ fuel ih =>
    rw [Yaml.loadTopLoop]
    refine h.bind h.nextEvent fun event ↦ ?_
    split
    · exact h.bind (h.eventDelete _) fun _ ↦ h.pure _
    · split
      · exact h.bind ((h.loader fuel).1 event) fun _ ↦ h.bind (h.eventDelete _) fun _ ↦ h.pure _
      · exact h.bind (h.eventDelete _) fun _ ↦ ih

end LoaderClosed

/-! ## Where it takes the state -/

theorem nextEvent_moves {R : Loading → Loading → Prop} [Std.Refl R] (h : ∀ s ds, R s (s.pop ds)) :
    Comp.Moves R nextEvent := by
  intro s
  cases hs : s.events with
  | nil => rw [nextEvent_nil hs]; exact Std.Refl.refl s
  | cons d ds => rw [nextEvent_cons hs]; exact h s ds

theorem scalarValue_moves {R : Loading → Loading → Prop} (event : YamlEvent)
    (h : ∀ s, R s (s.log (.read event.handle))) : Comp.Moves R (scalarValue event) := by
  intro s
  have hlog := h s
  obtain ⟨handle, d⟩ := event
  cases d <;> exact hlog

/-! ## What it throws -/

theorem nextEvent_onlyThrows {Q : Exception → Prop} (hQ : ∀ text, Q (yamlParseFail text)) :
    Comp.OnlyThrows Q nextEvent := by
  intro s e h
  cases hs : s.events with
  | nil =>
    rw [nextEvent_nil hs, Outcome.threw.injEq] at h
    exact h ▸ hQ _
  | cons d ds =>
    rw [nextEvent_cons hs] at h
    cases h

theorem scalarValue_onlyThrows (Q : Exception → Prop) (event : YamlEvent) :
    Comp.OnlyThrows Q (scalarValue event) := by
  rw [scalarValue]
  refine Comp.OnlyThrows.bind (.modify _) fun _ ↦ ?_
  split
  · exact .pure _
  · exact .undefined

theorem onlyThrows_closed {Q : Exception → Prop} (hQ : ∀ text, Q (yamlParseFail text)) :
    LoaderClosed fun c ↦ Comp.OnlyThrows Q c where
  pure := .pure
  bind := .bind
  throw text := .throw (hQ text)
  exhausted := .exhausted
  nextEvent := nextEvent_onlyThrows hQ
  scalarValue := scalarValue_onlyThrows _
  eventDelete _ := .modify _
  mapping := .gets _
  assignNode _ := .modify _
  onEntry _ _ := .focus
  onBack := .focus

/-- **Whatever the loader throws is a `yaml_parse_fail`.** -/
theorem loadTop_throws : Comp.OnlyThrows (fun e ↦ ∃ text, e = yamlParseFail text) loadTop :=
  fun s ↦ (onlyThrows_closed fun text ↦ ⟨text, rfl⟩).loadTopLoop (2 * s.events.length + 1) s

theorem loadTop_onlyThrows : Comp.OnlyThrows (fun e ↦ e.isA .yamlParseFail = true) loadTop := by
  intro s e he
  obtain ⟨text, rfl⟩ := loadTop_throws s e he
  exact yamlParseFail_isA text

/-! ## Events that were not looked at -/

/-- The same load, with `q` to come after the events that are left. -/
def Loading.extend (q : List EventData) (s : Loading) : Loading :=
  { s with events := s.events ++ q }

theorem nextEvent_commutes (q : List EventData) : Comp.Commutes (Loading.extend q) nextEvent := by
  intro s h
  cases hs : s.events with
  | nil =>
    rw [nextEvent_nil hs] at h
    exact absurd rfl (h _)
  | cons d ds =>
    have hq : (s.extend q).events = d :: (ds ++ q) := by rw [Loading.extend, hs]; rfl
    rw [nextEvent_cons hs, nextEvent_cons hq]
    rfl

theorem scalarValue_commutes (q : List EventData) (event : YamlEvent) :
    Comp.Commutes (Loading.extend q) (scalarValue event) := by
  rw [scalarValue]
  refine Comp.Commutes.bind (.modify fun _ ↦ rfl) fun _ ↦ ?_
  split
  · exact .pure _
  · exact .undefined

theorem commutes_closed (q : List EventData) :
    LoaderClosed fun c ↦ Comp.Commutes (Loading.extend q) c where
  pure := .pure
  bind := .bind
  throw _ := .throw _
  exhausted := .exhausted
  nextEvent := nextEvent_commutes q
  scalarValue := scalarValue_commutes q
  eventDelete _ := .modify fun _ ↦ rfl
  mapping := .gets fun _ ↦ rfl
  assignNode _ := .modify fun _ ↦ rfl
  onEntry _ _ h := .focus h (fun _ ↦ rfl) fun _ _ ↦ rfl
  onBack h := .focus h (fun _ ↦ rfl) fun _ _ ↦ rfl

/-! ## Fuel -/

/-- One unit more changes nothing but an exhausted run. -/
theorem loader_approx : ∀ fuel : Nat,
    (∀ event, Comp.Approx (loadNode fuel event) (loadNode (fuel + 1) event)) ∧
      Comp.Approx (loadMapping fuel) (loadMapping (fuel + 1)) ∧
      Comp.Approx (loadSequence fuel) (loadSequence (fuel + 1))
  | 0 => by
    refine ⟨fun event ↦ ?_, ?_, ?_⟩
    · rw [loadNode]; exact .exhausted _
    · rw [loadMapping]; exact .exhausted _
    · rw [loadSequence]; exact .exhausted _
  | fuel + 1 => by
    obtain ⟨hnode, hmap, hseq⟩ := loader_approx fuel
    refine ⟨fun event ↦ ?_, ?_, ?_⟩
    · rw [loadNode, loadNode]
      split
      · exact .refl _
      · exact .bind (.refl _) fun _ ↦ hmap
      · exact .bind (.refl _) fun _ ↦ hseq
      · exact .refl _
    · rw [loadMapping, loadMapping]
      refine .bind (.refl _) fun event ↦ ?_
      split
      · exact .refl _
      · refine .bind (.refl _) fun key ↦ .bind (.refl _) fun _ ↦ .bind (.refl _) fun mapping ↦ ?_
        split
        · exact .refl _
        · exact .bind (.refl _) fun _ ↦ .bind (.refl _) fun value ↦
            .bind (.focus (hnode value)) fun _ ↦ .bind (.refl _) fun _ ↦ hmap
    · rw [loadSequence, loadSequence]
      refine .bind (.refl _) fun event ↦ ?_
      split
      · exact .refl _
      · refine .bind (.refl _) fun _ ↦ .bind (.focus (hnode event)) fun result ↦
          .bind (.refl _) fun _ ↦ ?_
        split
        · exact .refl _
        · exact hseq

theorem loadTopLoop_approx_succ (fuel : Nat) :
    Comp.Approx (loadTopLoop fuel) (loadTopLoop (fuel + 1)) := by
  induction fuel with
  | zero => rw [loadTopLoop]; exact .exhausted _
  | succ fuel ih =>
    rw [loadTopLoop, loadTopLoop]
    refine .bind (.refl _) fun event ↦ ?_
    split
    · exact .refl _
    · split
      · exact .bind ((loader_approx fuel).1 event) fun _ ↦ .refl _
      · exact .bind (.refl _) fun _ ↦ ih

theorem loadTopLoop_approx {fuel fuel' : Nat} (h : fuel ≤ fuel') :
    Comp.Approx (loadTopLoop fuel) (loadTopLoop fuel') := by
  induction h with
  | refl => exact .refl _
  | step _ ih => exact ih.trans (loadTopLoop_approx_succ _)

/-- At most `n` events are left. -/
def Loading.Short (n : Nat) (s : Loading) : Prop := s.events.length ≤ n

section Short

variable {ex : Prop} {n : Nat}

theorem nextEvent_short :
    Comp.Triple ex (Loading.Short n) nextEvent fun _ s ↦ 0 < n ∧ s.Short (n - 1) := by
  intro s hs
  cases h : s.events with
  | nil => rw [nextEvent_nil h]; trivial
  | cons d ds =>
    rw [nextEvent_cons h]
    simp only [Loading.Short, h, List.length_cons, Loading.pop_events] at hs ⊢
    omega

theorem scalarValue_short (event : YamlEvent) :
    Comp.Triple ex (Loading.Short n) (scalarValue event) fun _ ↦ Loading.Short n := by
  rw [scalarValue]
  refine .bind (Q := fun _ ↦ Loading.Short n) (.modify fun _ h ↦ h) fun _ ↦ ?_
  split
  · exact .pure fun _ h ↦ h
  · exact .undefined

theorem assignNode_short (g : Node → Node) :
    Comp.Triple ex (Loading.Short n) (assignNode g) fun _ ↦ Loading.Short n :=
  .modify fun _ h ↦ h

theorem eventDelete_short (event : YamlEvent) :
    Comp.Triple ex (Loading.Short n) (yamlEventDelete event) fun _ ↦ Loading.Short n :=
  .modify fun _ h ↦ h

theorem onEntry_short {α : Type} {c : Loader α}
    (h : Comp.Triple ex (Loading.Short n) c fun _ ↦ Loading.Short n) (key : String) :
    Comp.Triple ex (Loading.Short n) (onEntry key c) fun _ ↦ Loading.Short n :=
  .focus (R := fun _ _ ↦ Loading.Short n) (fun _ hs ↦ h.pre fun _ ht ↦ ht ▸ hs)
    fun _ _ _ _ ht ↦ ht

theorem onBack_short {α : Type} {c : Loader α}
    (h : Comp.Triple ex (Loading.Short n) c fun _ ↦ Loading.Short n) :
    Comp.Triple ex (Loading.Short n) (onBack c) fun _ ↦ Loading.Short n :=
  .focus (R := fun _ _ ↦ Loading.Short n) (fun _ hs ↦ h.pre fun _ ht ↦ ht ▸ hs)
    fun _ _ _ _ ht ↦ ht

end Short

/-- **Enough fuel**: two units for every event that is left, one for a loop and one more for
`load_node`.  No event is put back, so what is left when a call returns is no more than there
was. -/
theorem loader_fuel : ∀ fuel : Nat,
    (∀ n, 2 * n + 2 ≤ fuel → ∀ event, Comp.Triple False (Loading.Short n) (loadNode fuel event)
      fun _ ↦ Loading.Short n) ∧
    (∀ n, 2 * n + 1 ≤ fuel → Comp.Triple False (Loading.Short n) (loadMapping fuel)
      fun _ ↦ Loading.Short n) ∧
    (∀ n, 2 * n + 1 ≤ fuel → Comp.Triple False (Loading.Short n) (loadSequence fuel)
      fun _ ↦ Loading.Short n)
  | 0 => ⟨fun n h ↦ by omega, fun n h ↦ by omega, fun n h ↦ by omega⟩
  | fuel + 1 => by
    obtain ⟨hnode, hmap, hseq⟩ := loader_fuel fuel
    refine ⟨fun n hn event ↦ ?_, fun n hn ↦ ?_, fun n hn ↦ ?_⟩
    · rw [loadNode]
      split
      · exact .bind (assignNode_short _) fun _ ↦ .bind (scalarValue_short event) fun _ ↦
          .bind (assignNode_short _) fun _ ↦ .pure fun _ h ↦ h
      · exact .bind (assignNode_short _) fun _ ↦ hmap n (by omega)
      · exact .bind (assignNode_short _) fun _ ↦ hseq n (by omega)
      · exact .throw _
    · rw [loadMapping]
      refine .bind nextEvent_short fun event ↦ ?_
      refine .pre (P := Loading.Short (n - 1)) ?_ fun _ h ↦ h.2
      have hle : ∀ {k : Nat} {s : Loading}, k ≤ n → s.Short k → s.Short n :=
        fun hk hs ↦ le_trans hs hk
      split
      · exact .bind (eventDelete_short event) fun _ ↦ .pure fun _ h ↦ hle (by omega) h
      · refine .bind (scalarValue_short event) fun key ↦ .bind (eventDelete_short event) fun _ ↦
          .bind (Q := fun _ ↦ Loading.Short (n - 1)) (.gets fun _ h ↦ h) fun mapping ↦ ?_
        split
        · exact .throw _
        · refine .bind (assignNode_short _) fun _ ↦ .bind nextEvent_short fun value ↦ ?_
          -- the value is loaded with the key and its own first event gone
          rcases Nat.lt_or_ge 1 n with h1 | h1
          · refine .pre (P := Loading.Short (n - 2)) ?_ fun _ h ↦ h.2
            exact .bind (onEntry_short (hnode _ (by omega) value) key) fun _ ↦
              .bind (eventDelete_short value) fun _ ↦
              (hmap _ (by omega)).post fun _ _ h ↦ hle (by omega) h
          · exact .of_not fun s h ↦ by omega
    · rw [loadSequence]
      refine .bind nextEvent_short fun event ↦ ?_
      have hle : ∀ {k : Nat} {s : Loading}, k ≤ n → s.Short k → s.Short n :=
        fun hk hs ↦ le_trans hs hk
      rcases Nat.lt_or_ge 0 n with h0 | h0
      · refine .pre (P := Loading.Short (n - 1)) ?_ fun _ h ↦ h.2
        split
        · exact .bind (eventDelete_short event) fun _ ↦ .pure fun _ h ↦ hle (by omega) h
        · refine .bind (assignNode_short _) fun _ ↦
            .bind (onBack_short (hnode _ (by omega) event)) fun result ↦
            .bind (eventDelete_short event) fun _ ↦ ?_
          split
          · exact .pure fun _ h ↦ hle (by omega) h
          · exact (hseq _ (by omega)).post fun _ _ h ↦ hle (by omega) h
      · exact .of_not fun s h ↦ by omega

theorem loadTopLoop_fuel : ∀ fuel n : Nat, 2 * n + 1 ≤ fuel →
    Comp.Triple False (Loading.Short n) (loadTopLoop fuel) fun _ ↦ Loading.Short n
  | 0, n, hn => by omega
  | fuel + 1, n, hn => by
    rw [loadTopLoop]
    refine .bind nextEvent_short fun event ↦ ?_
    have hle : ∀ {k : Nat} {s : Loading}, k ≤ n → s.Short k → s.Short n :=
      fun hk hs ↦ le_trans hs hk
    rcases Nat.lt_or_ge 0 n with h0 | h0
    · refine .pre (P := Loading.Short (n - 1)) ?_ fun _ h ↦ h.2
      split
      · exact .bind (eventDelete_short event) fun _ ↦ .pure fun _ h ↦ hle (by omega) h
      · split
        · exact .bind ((loader_fuel fuel).1 _ (by omega) event) fun _ ↦
            .bind (eventDelete_short event) fun _ ↦ .pure fun _ h ↦ hle (by omega) h
        · exact .bind (eventDelete_short event) fun _ ↦
            (loadTopLoop_fuel fuel _ (by omega)).post fun _ _ h ↦ hle (by omega) h
    · exact .of_not fun s h ↦ by omega

/-- **A load always ends**: it returns, throws, or reads a payload that is not there. -/
theorem loadTop_ne_exhausted (s : Loading) : (loadTop s).1 ≠ .exhausted :=
  (loadTopLoop_fuel (2 * s.events.length + 1) s.events.length (Nat.le_refl _)).ne_exhausted
    (Nat.le_refl _)

/-- **What comes after a load makes no difference to it**: a load that does not throw does the same
with more events to follow, and leaves them. -/
theorem loadTop_extend {s : Loading} (q : List EventData) (h : ∀ e, (loadTop s).1 ≠ .threw e) :
    loadTop (s.extend q) = ((loadTop s).1, (loadTop s).2.extend q) := by
  have hfuel : 2 * s.events.length + 1 ≤ 2 * (s.extend q).events.length + 1 := by
    simp only [Loading.extend, List.length_append]
    omega
  have hext := (commutes_closed q).loadTopLoop (2 * s.events.length + 1) s h
  have hne : (loadTopLoop (2 * s.events.length + 1) (s.extend q)).1 ≠ .exhausted := by
    rw [hext]
    exact loadTop_ne_exhausted s
  rw [loadTop, loadTopLoop_approx hfuel _ hne]
  exact hext

/-! ## No node is left untouched -/

/-- Every node has been given a type, and every mapping is in key order, at every depth. -/
inductive Loaded : Node → Prop
  | mk {n : Node} (type : n.type ≠ .empty) (sorted : OrderedMap.Sorted n.mapping)
      (mapping : ∀ p ∈ n.mapping, Loaded p.2) (sequence : ∀ c ∈ n.sequence, Loaded c) : Loaded n

theorem Loaded.type_ne {n : Node} (h : Loaded n) : n.type ≠ .empty := by
  cases h with
  | mk type => exact type

theorem Loaded.sorted {n : Node} (h : Loaded n) : OrderedMap.Sorted n.mapping := by
  cases h with
  | mk _ sorted => exact sorted

theorem Loaded.entry {n : Node} (h : Loaded n) {p : String × Node} (hp : p ∈ n.mapping) :
    Loaded p.2 := by
  cases h with
  | mk _ _ mapping => exact mapping p hp

theorem Loaded.element {n : Node} (h : Loaded n) {c : Node} (hc : c ∈ n.sequence) : Loaded c := by
  cases h with
  | mk _ _ _ sequence => exact sequence c hc

/-- A fresh node with a type other than `TYPE_EMPTY`. -/
theorem loaded_ofType {t : NodeType} (h : t ≠ .empty) : Loaded (.ofType t) :=
  .mk h OrderedMap.sorted_nil (fun p hp ↦ by cases hp) (fun c hc ↦ by cases hc)

theorem Loaded.setScalar {n : Node} (h : Loaded n) (v : String) : Loaded (n.setScalar v) :=
  .mk h.type_ne h.sorted (fun _ hp ↦ h.entry hp) fun _ hc ↦ h.element hc

theorem Loaded.assign {n : Node} (h : Loaded n) {c : Node} (hc : Loaded c) (key : String) :
    Loaded (n.setMapping (OrderedMap.assign key c n.mapping)) := by
  refine .mk h.type_ne (OrderedMap.sorted_upsert h.sorted key _) (fun p hp ↦ ?_) fun c hc ↦
    h.element hc
  rcases OrderedMap.mem_upsert hp with rfl | ⟨_, _, rfl⟩ | hp
  · exact hc
  · exact hc
  · exact h.entry hp

theorem Loaded.concat {n : Node} (h : Loaded n) {c : Node} (hc : Loaded c) :
    Loaded (n.setSequence (n.sequence ++ [c])) := by
  refine .mk h.type_ne h.sorted (fun p hp ↦ h.entry hp) fun d hd ↦ ?_
  rcases List.mem_append.mp hd with hd | hd
  · exact h.element hd
  · rw [List.mem_singleton.mp hd]
    exact hc

/-- The node in the state has the property `P`. -/
def Loading.Has (P : Node → Prop) (s : Loading) : Prop := P s.node

section Has

variable {P : Node → Prop}

theorem nextEvent_has : Comp.Triple True (Loading.Has P) nextEvent fun _ ↦ Loading.Has P := by
  intro s hs
  cases h : s.events with
  | nil => rw [nextEvent_nil h]; trivial
  | cons d ds =>
    rw [nextEvent_cons h]
    exact hs

theorem scalarValue_has (event : YamlEvent) :
    Comp.Triple True (Loading.Has P) (scalarValue event) fun _ ↦ Loading.Has P := by
  rw [scalarValue]
  refine .bind (Q := fun _ ↦ Loading.Has P) (.modify fun _ h ↦ h) fun _ ↦ ?_
  split
  · exact .pure fun _ h ↦ h
  · exact .undefined

theorem eventDelete_has (event : YamlEvent) :
    Comp.Triple True (Loading.Has P) (yamlEventDelete event) fun _ ↦ Loading.Has P :=
  .modify fun _ h ↦ h

theorem assignNode_has {Q : Node → Prop} {g : Node → Node} (h : ∀ n, P n → Q (g n)) :
    Comp.Triple True (Loading.Has P) (assignNode g) fun _ ↦ Loading.Has Q :=
  .modify fun _ hs ↦ h _ hs

end Has

/-- A mapping with one new key, whose value is still to be loaded. -/
def NewEntry (key : String) (n : Node) : Prop :=
  ∃ m, Loaded m ∧ m.mapping.lookup key = none ∧
    n = m.setMapping (OrderedMap.emplace key (.ofType .empty) m.mapping)

/-- A sequence with one new element, which is still to be loaded. -/
def NewElement (n : Node) : Prop :=
  ∃ m, Loaded m ∧ n = m.setSequence (m.sequence ++ [.ofType .empty])

/-- Loading the value of a new key completes the mapping. -/
theorem onEntry_loaded {c : Loader Bool}
    (h : Comp.Triple True (Loading.Has (· = .fresh)) c fun _ ↦ Loading.Has Loaded) (key : String) :
    Comp.Triple True (Loading.Has (NewEntry key)) (onEntry key c) fun _ ↦ Loading.Has Loaded := by
  refine .focus (R := fun _ _ ↦ Loading.Has Loaded) (fun s hs ↦ h.pre fun t ht ↦ ?_)
    fun s _ t hs ht ↦ ?_
  · obtain ⟨m, hm, hnone, hn⟩ := hs
    rw [ht, Loading.Has, Loading.setNode_node, hn, Node.setMapping_mapping, OrderedMap.emplace,
      OrderedMap.lookup_upsert_self hm.sorted, hnone]
    rfl
  · obtain ⟨m, hm, hnone, hn⟩ := hs
    rw [Loading.Has, Loading.setNode_node, hn, Node.setMapping_mapping,
      Node.setMapping_setMapping, OrderedMap.assign, OrderedMap.emplace, OrderedMap.upsert_upsert]
    exact hm.assign ht key

/-- Loading the new element completes the sequence. -/
theorem onBack_loaded {c : Loader Bool}
    (h : Comp.Triple True (Loading.Has (· = .fresh)) c fun _ ↦ Loading.Has Loaded) :
    Comp.Triple True (Loading.Has NewElement) (onBack c) fun _ ↦ Loading.Has Loaded := by
  refine .focus (R := fun _ _ ↦ Loading.Has Loaded) (fun s hs ↦ h.pre fun t ht ↦ ?_)
    fun s _ t hs ht ↦ ?_
  · obtain ⟨m, hm, hn⟩ := hs
    rw [ht, Loading.Has, Loading.setNode_node, hn, Node.setSequence_sequence,
      List.getLast?_concat]
    rfl
  · obtain ⟨m, hm, hn⟩ := hs
    rw [Loading.Has, Loading.setNode_node, hn, Node.setSequence_sequence, List.dropLast_concat,
      Node.setSequence_setSequence]
    exact hm.concat ht

theorem loader_loaded : ∀ fuel : Nat,
    (∀ event, Comp.Triple True (Loading.Has (· = .fresh)) (loadNode fuel event)
      fun _ ↦ Loading.Has Loaded) ∧
    Comp.Triple True (Loading.Has Loaded) (loadMapping fuel) (fun _ ↦ Loading.Has Loaded) ∧
    Comp.Triple True (Loading.Has Loaded) (loadSequence fuel) (fun _ ↦ Loading.Has Loaded)
  | 0 => by
    refine ⟨fun event ↦ ?_, ?_, ?_⟩
    · rw [loadNode]; exact .exhausted fun _ _ ↦ trivial
    · rw [loadMapping]; exact .exhausted fun _ _ ↦ trivial
    · rw [loadSequence]; exact .exhausted fun _ _ ↦ trivial
  | fuel + 1 => by
    obtain ⟨hnode, hmap, hseq⟩ := loader_loaded fuel
    refine ⟨fun event ↦ ?_, ?_, ?_⟩
    · rw [loadNode]
      split
      · refine .bind (assignNode_has (Q := (· = .ofType .scalar)) fun n hn ↦ by rw [hn]; rfl)
          fun _ ↦ .bind (scalarValue_has event) fun v ↦
          .bind (assignNode_has (Q := Loaded) fun n hn ↦ ?_) fun _ ↦ .pure fun _ h ↦ h
        rw [hn]
        exact (loaded_ofType (t := .scalar) (by decide)).setScalar v
      · refine .bind (assignNode_has (Q := Loaded) fun n hn ↦ ?_) fun _ ↦ hmap
        rw [hn]
        exact loaded_ofType (t := .mapping) (by decide)
      · refine .bind (assignNode_has (Q := Loaded) fun n hn ↦ ?_) fun _ ↦ hseq
        rw [hn]
        exact loaded_ofType (t := .sequence) (by decide)
      · exact .throw _
    · rw [loadMapping]
      refine .bind nextEvent_has fun event ↦ ?_
      split
      · exact .bind (eventDelete_has event) fun _ ↦ .pure fun _ h ↦ h
      · refine .bind (scalarValue_has event) fun key ↦ .bind (eventDelete_has event) fun _ ↦
          .bind (Q := fun m s ↦ s.Has Loaded ∧ m = s.node.mapping) (.gets fun _ h ↦ ⟨h, rfl⟩)
          fun mapping ↦ ?_
        split
        · exact .throw _
        · rename_i hnew
          refine .bind (Q := fun _ ↦ Loading.Has (NewEntry key)) (.modify fun s hs ↦ ?_) fun _ ↦
            .bind nextEvent_has fun value ↦ .bind (onEntry_loaded (hnode value) key) fun _ ↦
            .bind (eventDelete_has value) fun _ ↦ hmap
          refine ⟨s.node, hs.1, ?_, rfl⟩
          rw [← hs.2]
          exact Option.not_isSome_iff_eq_none.mp hnew
    · rw [loadSequence]
      refine .bind nextEvent_has fun event ↦ ?_
      split
      · exact .bind (eventDelete_has event) fun _ ↦ .pure fun _ h ↦ h
      · refine .bind (assignNode_has (Q := NewElement) fun n hn ↦ ⟨n, hn, rfl⟩) fun _ ↦
          .bind (onBack_loaded (hnode event)) fun result ↦ .bind (eventDelete_has event) fun _ ↦ ?_
        split
        · exact .pure fun _ h ↦ h
        · exact hseq

theorem loadTopLoop_loaded (fuel : Nat) :
    Comp.Triple True (Loading.Has (· = .fresh)) (loadTopLoop fuel)
      fun _ ↦ Loading.Has fun n ↦ n = .fresh ∨ Loaded n := by
  induction fuel with
  | zero => rw [loadTopLoop]; exact .exhausted fun _ _ ↦ trivial
  | succ fuel ih =>
    rw [loadTopLoop]
    refine .bind nextEvent_has fun event ↦ ?_
    split
    · exact .bind (eventDelete_has event) fun _ ↦ .pure fun _ h ↦ Or.inl h
    · split
      · exact .bind ((loader_loaded fuel).1 event) fun _ ↦ .bind (eventDelete_has event) fun _ ↦
          .pure fun _ h ↦ Or.inr h
      · exact .bind (eventDelete_has event) fun _ ↦ ih

/-- **A load of a fresh node that returns** either found no collection and left the node as it was,
or has given a type to every node, with every mapping in key order. -/
theorem loadTop_loaded {s s' : Loading} {b : Bool} (hs : s.node = .fresh)
    (h : loadTop s = (.returned b, s')) : s'.node = .fresh ∨ Loaded s'.node :=
  (loadTopLoop_loaded _).returned hs h

end Yaml
end XaMain
