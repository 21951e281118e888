import XaMain.Yaml.Stream
import XaMain.Yaml.Document
import Mathlib.Data.List.Nodup

/-!
# Loading a document

`load_top` on the stream of a document whose root is a collection and whose keys are scalars
(`loadTop_document`).  It returns `true` exactly when the document is `Loadable` (no alias, no
repeated key) and the stream is not cut short before the end of the root, and then the node is the
document and the events up to that end have been consumed.  In every other case it throws.

The induction is over the document, with a statement about each of the three functions and the
stream that is left after it.  A stream that was cut short is compared with the whole one: if the
load did not throw, `loadTop_extend` makes it the same as the load of the whole stream, which
consumes more than there was.
-/

set_option autoImplicit false

namespace XaMain
namespace Yaml

/-! ## One turn of each loop -/

section Turns

variable {s : Loading} {ds : List EventData} {fuel : Nat}

theorem loadSequence_end (h : s.events = .sequenceEnd :: ds) :
    loadSequence (fuel + 1) s
      = (.returned true, (s.pop ds).log (.eventDelete s.obtained)) := by
  rw [loadSequence, Comp.bind_returned (nextEvent_cons h)]
  rfl

/-- The element was loaded: the loop goes on with the element in place. -/
theorem loadSequence_element {d : EventData} (h : s.events = d :: ds) (hd : d ≠ .sequenceEnd)
    {t : Loading}
    (hr : loadNode fuel ⟨s.obtained, d⟩ ((s.pop ds).setNode .fresh) = (.returned true, t)) :
    loadSequence (fuel + 1) s = loadSequence fuel
      ((t.setNode (s.node.setSequence (s.node.sequence ++ [t.node]))).log
        (.eventDelete s.obtained)) := by
  have hback := onBack_new (loadNode fuel ⟨s.obtained, d⟩) (s.pop ds) s.node
  rw [hr] at hback
  rw [loadSequence, Comp.bind_returned (nextEvent_cons h), if_neg hd,
    Comp.bind_returned (assignNode_apply _ _), Loading.pop_node, Comp.bind_returned hback,
    Comp.bind_returned (yamlEventDelete_apply _ _)]
  rfl

/-- The element could not be loaded, and the loop ends as it did. -/
theorem loadSequence_element_stopped {d : EventData} (h : s.events = d :: ds)
    (hd : d ≠ .sequenceEnd) {o : Outcome Exception Bool} (ho : ∀ b, o ≠ .returned b) {t : Loading}
    (hr : loadNode fuel ⟨s.obtained, d⟩ ((s.pop ds).setNode .fresh) = (o, t)) :
    loadSequence (fuel + 1) s
      = (o, t.setNode (s.node.setSequence (s.node.sequence ++ [t.node]))) := by
  have hback := onBack_new (loadNode fuel ⟨s.obtained, d⟩) (s.pop ds) s.node
  rw [hr] at hback
  rw [loadSequence, Comp.bind_returned (nextEvent_cons h), if_neg hd,
    Comp.bind_returned (assignNode_apply _ _), Loading.pop_node, Comp.bind_stopped hback ho]

theorem loadMapping_end (h : s.events = .mappingEnd :: ds) :
    loadMapping (fuel + 1) s
      = (.returned true, (s.pop ds).log (.eventDelete s.obtained)) := by
  rw [loadMapping, Comp.bind_returned (nextEvent_cons h)]
  rfl

/-- The state in which the value of the next entry is loaded: the events of the key and the first
event of the value are gone. -/
def Loading.value (s : Loading) (d : EventData) (ds : List EventData) : Loading :=
  ((((s.pop (d :: ds)).log (.read s.obtained)).log (.eventDelete s.obtained)).pop ds).setNode
    .fresh

theorem loadMapping_duplicate {key : String} (h : s.events = .scalar key :: ds)
    (hkey : (s.node.mapping.lookup key).isSome = true) :
    loadMapping (fuel + 1) s = (.threw (yamlParseFail ("Duplicated key " ++ key)),
      ((s.pop ds).log (.read s.obtained)).log (.eventDelete s.obtained)) := by
  rw [loadMapping, Comp.bind_returned (nextEvent_cons h), if_neg (by simp),
    Comp.bind_returned (scalarValue_scalar _ _ _), Comp.bind_returned (yamlEventDelete_apply _ _),
    Comp.bind_returned (Comp.gets_apply _ _)]
  simp only [Loading.log_node, Loading.pop_node, hkey, if_true, Comp.throw_apply]

/-- The value of a new key is loaded into a fresh node, and the loop goes on as that load says. -/
theorem loadMapping_entry (fuel : Nat) {key : String} {d : EventData}
    (h : s.events = .scalar key :: d :: ds) (hs : OrderedMap.Sorted s.node.mapping)
    (hkey : s.node.mapping.lookup key = none) :
    (∀ t b, loadNode fuel ⟨s.obtained + 1, d⟩ (s.value d ds) = (.returned b, t) →
      loadMapping (fuel + 1) s = loadMapping fuel
        ((t.setNode (s.node.setMapping (OrderedMap.assign key t.node s.node.mapping))).log
          (.eventDelete (s.obtained + 1)))) ∧
    (∀ t o, (∀ b, o ≠ .returned b) →
      loadNode fuel ⟨s.obtained + 1, d⟩ (s.value d ds) = (o, t) →
      loadMapping (fuel + 1) s
        = (o, t.setNode (s.node.setMapping (OrderedMap.assign key t.node s.node.mapping)))) := by
  have hentry := onEntry_new (loadNode fuel ⟨s.obtained + 1, d⟩) (s.value d ds) hs hkey
  have hstep : loadMapping (fuel + 1) s
      = (onEntry key (loadNode fuel ⟨s.obtained + 1, d⟩) >>= fun _ ↦
          yamlEventDelete ⟨s.obtained + 1, d⟩ >>= fun _ ↦ loadMapping fuel)
        ((s.value d ds).setNode
          (s.node.setMapping (OrderedMap.emplace key (.ofType .empty) s.node.mapping))) := by
    rw [loadMapping, Comp.bind_returned (nextEvent_cons h), if_neg (by simp),
      Comp.bind_returned (scalarValue_scalar _ _ _),
      Comp.bind_returned (yamlEventDelete_apply _ _), Comp.bind_returned (Comp.gets_apply _ _)]
    simp only [Loading.log_node, Loading.pop_node, hkey, Option.isSome_none, Bool.false_eq_true,
      if_false]
    rw [Comp.bind_returned (assignNode_apply _ _)]
    rw [Comp.bind_returned (nextEvent_cons (show _ = d :: ds from rfl))]
    rfl
  have hv : (s.value d ds).setNode .fresh = s.value d ds := rfl
  rw [hv] at hentry
  refine ⟨fun t b ht ↦ ?_, fun t o ho ht ↦ ?_⟩
  · rw [ht] at hentry
    rw [hstep, Comp.bind_returned hentry, Comp.bind_returned (yamlEventDelete_apply _ _)]
  · rw [ht] at hentry
    rw [hstep, Comp.bind_stopped hentry ho]

end Turns

/-! ## What can be loaded -/

/-- The documents the loader accepts: no alias, and no two equal keys in any mapping. -/
def Tree.Loadable (t : Tree) : Prop := EventData.alias ∉ t.events ∧ t.DistinctKeys

/-- Every element can be loaded. -/
def AllLoadable (ts : List Tree) : Prop :=
  EventData.alias ∉ Tree.eventsAll ts ∧ Tree.DistinctKeysAll ts

/-- Every value can be loaded, and the keys are distinct and not in `m` yet. -/
def EntriesLoadable (m : List (String × Node)) (es : List (Tree × Tree)) : Prop :=
  EventData.alias ∉ Tree.eventsEntries es ∧ Tree.DistinctKeysEntries es ∧
    (es.map Prod.fst).Nodup ∧ ∀ k, Tree.scalar k ∈ es.map Prod.fst → m.lookup k = none

theorem loadable_sequence {ts : List Tree} : (Tree.sequence ts).Loadable ↔ AllLoadable ts := by
  simp [Tree.Loadable, AllLoadable, Tree.events, Tree.DistinctKeys]

theorem loadable_mapping {es : List (Tree × Tree)} :
    (Tree.mapping es).Loadable ↔ EntriesLoadable [] es := by
  simp [Tree.Loadable, EntriesLoadable, Tree.events, Tree.DistinctKeys]
  tauto

theorem allLoadable_cons {t : Tree} {ts : List Tree} :
    AllLoadable (t :: ts) ↔ t.Loadable ∧ AllLoadable ts := by
  simp only [AllLoadable, Tree.Loadable, Tree.eventsAll, Tree.DistinctKeysAll, List.mem_append]
  tauto

theorem entriesLoadable_cons {m : List (String × Node)} {k : String} {v : Tree}
    {es : List (Tree × Tree)} (hk : m.lookup k = none) (n : Node) :
    EntriesLoadable m ((.scalar k, v) :: es)
      ↔ v.Loadable ∧ EntriesLoadable (OrderedMap.assign k n m) es := by
  have hkeys : (∀ k', Tree.scalar k' ∈ es.map Prod.fst →
        (OrderedMap.assign k n m).lookup k' = none) ↔
      Tree.scalar k ∉ es.map Prod.fst ∧
        ∀ k', Tree.scalar k' ∈ es.map Prod.fst → m.lookup k' = none := by
    constructor
    · intro h
      have hne : Tree.scalar k ∉ es.map Prod.fst := by
        intro hmem
        have := h k hmem
        simp [OrderedMap.lookup_assign_self] at this
      refine ⟨hne, fun k' hk' ↦ ?_⟩
      have hkk : k' ≠ k := fun he ↦ hne (he ▸ hk')
      rw [← h k' hk', OrderedMap.assign, OrderedMap.lookup_upsert_ne hkk]
    · rintro ⟨hne, h⟩ k' hk'
      have hkk : k' ≠ k := fun he ↦ hne (he ▸ hk')
      rw [OrderedMap.assign, OrderedMap.lookup_upsert_ne hkk]
      exact h k' hk'
  simp only [EntriesLoadable, Tree.Loadable, Tree.eventsEntries, Tree.DistinctKeysEntries,
    Tree.DistinctKeys, Tree.events, List.map_cons, List.nodup_cons, List.mem_append,
    List.mem_cons, hkeys]
  have hhead : (∀ k', Tree.scalar k' = .scalar k ∨ Tree.scalar k' ∈ es.map Prod.fst →
        m.lookup k' = none) ↔ ∀ k', Tree.scalar k' ∈ es.map Prod.fst → m.lookup k' = none := by
    refine ⟨fun h k' hk' ↦ h k' (Or.inr hk'), fun h k' hk' ↦ ?_⟩
    rcases hk' with hk' | hk'
    · rw [Tree.scalar.inj hk', hk]
    · exact h k' hk'
  rw [hhead]
  have halias : EventData.alias ∉ [EventData.scalar k] := by simp
  tauto

/-! ## The induction over the document -/

/-- The outcome of loading `t` into a fresh node when `rest` follows its events. -/
def LoadsAs (t : Tree) (rest : List EventData) (r : Outcome Exception Bool × Loading) : Prop :=
  (t.Loadable → ∃ s', r = (.returned true, s') ∧ Represents s'.node t ∧ s'.events = rest) ∧
    (¬ t.Loadable → ∃ e, r.1 = .threw e)

/-- The outcome of the loop of `load_sequence` from the state `s`. -/
def LoadsAll (ts : List Tree) (rest : List EventData) (s : Loading)
    (r : Outcome Exception Bool × Loading) : Prop :=
  (AllLoadable ts → ∃ s' ns, r = (.returned true, s') ∧ s'.events = rest ∧ RepresentsAll ns ts ∧
    s'.node = s.node.setSequence (s.node.sequence ++ ns)) ∧
    (¬ AllLoadable ts → ∃ e, r.1 = .threw e)

/-- The outcome of the loop of `load_mapping` from the state `s`. -/
def LoadsEntries (es : List (Tree × Tree)) (rest : List EventData) (s : Loading)
    (r : Outcome Exception Bool × Loading) : Prop :=
  (EntriesLoadable s.node.mapping es → ∃ s' m, r = (.returned true, s') ∧ s'.events = rest ∧
    RepresentsEntries m es ∧
    s'.node = s.node.setMapping (OrderedMap.assignAll m s.node.mapping)) ∧
    (¬ EntriesLoadable s.node.mapping es → ∃ e, r.1 = .threw e)

/-- The keys of the entries are those of the document. -/
theorem keys_of_representsEntries {m : List (String × Node)} {es : List (Tree × Tree)}
    (h : RepresentsEntries m es) : m.map (fun p ↦ Tree.scalar p.1) = es.map Prod.fst := by
  induction m generalizing es with
  | nil => cases es <;> simp [RepresentsEntries] at h ⊢
  | cons p m ih =>
    obtain ⟨k, n⟩ := p
    cases es with
    | nil => simp [RepresentsEntries] at h
    | cons e es =>
      obtain ⟨kt, t⟩ := e
      rw [RepresentsEntries] at h
      simp [h.1, ih h.2.2]

theorem nodup_of_representsEntries {m : List (String × Node)} {es : List (Tree × Tree)}
    (h : RepresentsEntries m es) (hnd : (es.map Prod.fst).Nodup) : (m.map Prod.fst).Nodup := by
  rw [← keys_of_representsEntries h] at hnd
  exact List.Nodup.of_map Tree.scalar (by simpa [Function.comp_def] using hnd)

/-- A mapping built from no entries holds what the document holds. -/
theorem represents_mapping {m : List (String × Node)} {es : List (Tree × Tree)}
    (h : RepresentsEntries m es) (hnd : (es.map Prod.fst).Nodup) :
    Represents ((Node.ofType .mapping).setMapping (OrderedMap.assignAll m [])) (.mapping es) := by
  have hkeys := nodup_of_representsEntries h hnd
  have hperm := OrderedMap.perm_assignAll hkeys (m := []) fun _ _ ↦ rfl
  rw [List.append_nil] at hperm
  rw [Represents]
  exact ⟨rfl, rfl, rfl, OrderedMap.sorted_assignAll OrderedMap.sorted_nil m, m, hperm.symm, h⟩

mutual

/-- `load_node` on the first event of a document node. -/
theorem loadNode_tree : ∀ t : Tree, t.ScalarKeys → ∀ {d : EventData} {ds : List EventData},
    t.events = d :: ds → ∀ (fuel : Nat), t.events.length ≤ fuel + 1 →
    ∀ (s : Loading) (h : Nat) (rest : List EventData), s.node = .fresh → s.events = ds ++ rest →
      LoadsAs t rest (loadNode (fuel + 1) ⟨h, d⟩ s)
  | .scalar v, _, d, ds, hd, fuel, _, s, h, rest, hs, hev => by
    simp only [Tree.events, List.cons.injEq] at hd
    obtain ⟨rfl, rfl⟩ := hd
    refine ⟨fun _ ↦ ⟨_, rfl, ?_, hev⟩, fun hno ↦ absurd ?_ hno⟩
    · simp only [Represents, hs]
      exact ⟨rfl, rfl, rfl, rfl⟩
    · simp [Tree.Loadable, Tree.events, Tree.DistinctKeys]
  | .alias, _, d, ds, hd, fuel, _, s, h, rest, hs, hev => by
    simp only [Tree.events, List.cons.injEq] at hd
    obtain ⟨rfl, rfl⟩ := hd
    refine ⟨fun hno ↦ absurd hno ?_, fun _ ↦ ⟨_, rfl⟩⟩
    simp [Tree.Loadable, Tree.events]
  | .sequence ts, hk, d, ds, hd, fuel, hfuel, s, h, rest, hs, hev => by
    simp only [Tree.events, List.cons.injEq, List.length_cons, List.length_append,
      List.length_nil] at hd hfuel
    obtain ⟨rfl, rfl⟩ := hd
    have hloop := loadSequence_trees ts hk fuel (by omega)
      (s.setNode (s.node.setType .sequence)) rest (by simpa using hev)
    have hnode : loadNode (fuel + 1) ⟨h, .sequenceStart⟩ s
        = loadSequence fuel (s.setNode (s.node.setType .sequence)) := rfl
    rw [hnode]
    refine ⟨fun hl ↦ ?_, fun hl ↦ hloop.2 (mt loadable_sequence.mpr hl)⟩
    obtain ⟨s', ns, hr, hrest, hns, hn⟩ := hloop.1 (loadable_sequence.mp hl)
    refine ⟨s', hr, ?_, hrest⟩
    rw [hn, hs, Represents]
    exact ⟨rfl, rfl, rfl, hns⟩
  | .mapping es, hk, d, ds, hd, fuel, hfuel, s, h, rest, hs, hev => by
    simp only [Tree.events, List.cons.injEq, List.length_cons, List.length_append,
      List.length_nil] at hd hfuel
    obtain ⟨rfl, rfl⟩ := hd
    have hempty : (s.node.setType .mapping).mapping = [] := by rw [hs]; rfl
    have hloop := loadMapping_entries es hk fuel (by omega)
      (s.setNode (s.node.setType .mapping)) rest
      (by simp only [Loading.setNode_node, hempty]; exact OrderedMap.sorted_nil)
      (by simpa using hev)
    simp only [LoadsEntries, Loading.setNode_node, hempty] at hloop
    have hnode : loadNode (fuel + 1) ⟨h, .mappingStart⟩ s
        = loadMapping fuel (s.setNode (s.node.setType .mapping)) := rfl
    rw [hnode]
    refine ⟨fun hl ↦ ?_, fun hl ↦ hloop.2 (mt loadable_mapping.mpr hl)⟩
    have hl' := loadable_mapping.mp hl
    obtain ⟨s', m, hr, hrest, hm, hn⟩ := hloop.1 hl'
    refine ⟨s', hr, ?_, hrest⟩
    rw [hn, hs]
    exact represents_mapping hm hl'.2.2.1

/-- The loop of `load_sequence`. -/
theorem loadSequence_trees : ∀ ts : List Tree, Tree.ScalarKeysAll ts → ∀ (fuel : Nat),
    (Tree.eventsAll ts).length + 1 ≤ fuel → ∀ (s : Loading) (rest : List EventData),
    s.events = Tree.eventsAll ts ++ .sequenceEnd :: rest →
      LoadsAll ts rest s (loadSequence fuel s)
  | [], _, fuel, hfuel, s, rest, hev => by
    obtain ⟨fuel, rfl⟩ : ∃ f, fuel = f + 1 := ⟨fuel - 1, by omega⟩
    rw [loadSequence_end hev]
    refine ⟨fun _ ↦ ⟨_, [], rfl, rfl, trivial, by simp⟩, fun hno ↦ absurd ?_ hno⟩
    simp [AllLoadable, Tree.eventsAll, Tree.DistinctKeysAll]
  | t :: ts, hk, fuel, hfuel, s, rest, hev => by
    obtain ⟨d, ds, hd⟩ := t.events_eq_cons
    have hne : d ≠ .sequenceEnd := t.head_ne_sequenceEnd hd
    simp only [Tree.eventsAll, List.length_append, hd, List.length_cons, List.append_assoc,
      List.cons_append] at hfuel hev
    obtain ⟨fuel, rfl⟩ : ∃ f, fuel = f + 2 := ⟨fuel - 2, by omega⟩
    have htree := loadNode_tree t hk.1 hd fuel (by simp only [hd, List.length_cons]; omega)
      ((s.pop (ds ++ (Tree.eventsAll ts ++ .sequenceEnd :: rest))).setNode .fresh) s.obtained
      (Tree.eventsAll ts ++ .sequenceEnd :: rest) rfl rfl
    rw [LoadsAll, allLoadable_cons]
    by_cases ht : t.Loadable
    · obtain ⟨s₁, hr, hrep, hev₁⟩ := htree.1 ht
      rw [loadSequence_element hev hne hr]
      have hloop := loadSequence_trees ts hk.2 (fuel + 1) (by omega)
        ((s₁.setNode (s.node.setSequence (s.node.sequence ++ [s₁.node]))).log
          (.eventDelete s.obtained)) rest hev₁
      refine ⟨fun hl ↦ ?_, fun hl ↦ hloop.2 fun hts ↦ hl ⟨ht, hts⟩⟩
      obtain ⟨s', ns, hr', hrest, hns, hn⟩ := hloop.1 hl.2
      exact ⟨s', s₁.node :: ns, hr', hrest, ⟨hrep, hns⟩, by simpa using hn⟩
    · obtain ⟨e, he⟩ := htree.2 ht
      exact ⟨fun hl ↦ absurd hl.1 ht,
        fun _ ↦ ⟨e, by rw [loadSequence_element_stopped hev hne (by simp) (Prod.ext he rfl)]⟩⟩

/-- The loop of `load_mapping`. -/
theorem loadMapping_entries : ∀ es : List (Tree × Tree), Tree.ScalarKeysEntries es →
    ∀ (fuel : Nat), (Tree.eventsEntries es).length + 1 ≤ fuel →
    ∀ (s : Loading) (rest : List EventData), OrderedMap.Sorted s.node.mapping →
    s.events = Tree.eventsEntries es ++ .mappingEnd :: rest →
      LoadsEntries es rest s (loadMapping fuel s)
  | [], _, fuel, hfuel, s, rest, _, hev => by
    obtain ⟨fuel, rfl⟩ : ∃ f, fuel = f + 1 := ⟨fuel - 1, by omega⟩
    rw [loadMapping_end hev]
    refine ⟨fun _ ↦ ⟨_, [], rfl, rfl, trivial, ?_⟩, fun hno ↦ absurd ?_ hno⟩
    · exact (s.node.setMapping_self).symm
    simp [EntriesLoadable, Tree.eventsEntries, Tree.DistinctKeysEntries]
  | (_, v) :: es, ⟨⟨k, rfl⟩, hv, hes⟩, fuel, hfuel, s, rest, hsorted, hev => by
    obtain ⟨d, ds, hd⟩ := v.events_eq_cons
    simp only [Tree.eventsEntries, Tree.events, List.length_append, hd, List.length_cons,
      List.append_assoc, List.cons_append, List.nil_append] at hfuel hev
    obtain ⟨fuel, rfl⟩ : ∃ f, fuel = f + 2 := ⟨fuel - 2, by omega⟩
    rcases hlook : s.node.mapping.lookup k with _ | n
    · have htree := loadNode_tree v hv hd fuel (by simp only [hd, List.length_cons]; omega)
        (s.value d (ds ++ (Tree.eventsEntries es ++ .mappingEnd :: rest))) (s.obtained + 1)
        (Tree.eventsEntries es ++ .mappingEnd :: rest) rfl rfl
      have hturn := loadMapping_entry (fuel + 1) hev hsorted hlook
      by_cases ht : v.Loadable
      · obtain ⟨s₁, hr, hrep, hev₁⟩ := htree.1 ht
        rw [hturn.1 s₁ true hr]
        have hloop := loadMapping_entries es hes (fuel + 1) (by omega)
          ((s₁.setNode (s.node.setMapping
            (OrderedMap.assign k s₁.node s.node.mapping))).log (.eventDelete (s.obtained + 1)))
          rest (OrderedMap.sorted_upsert hsorted k _) hev₁
        rw [LoadsEntries, entriesLoadable_cons hlook s₁.node]
        refine ⟨fun hl ↦ ?_, fun hl ↦ hloop.2 fun hrest ↦ hl ⟨ht, hrest⟩⟩
        obtain ⟨s', m, hr', hrest, hm, hn⟩ := hloop.1 hl.2
        exact ⟨s', (k, s₁.node) :: m, hr', hrest, ⟨rfl, hrep, hm⟩, hn⟩
      · obtain ⟨e, he⟩ := htree.2 ht
        refine ⟨fun hl ↦ absurd ((entriesLoadable_cons hlook Node.fresh).mp hl).1 ht, fun _ ↦ ?_⟩
        exact ⟨e, by rw [hturn.2 _ _ (by simp) (Prod.ext he rfl)]⟩
    · refine ⟨fun hl ↦ ?_, fun _ ↦
        ⟨_, by rw [loadMapping_duplicate hev (by rw [hlook]; rfl)]⟩⟩
      have hnone := hl.2.2.2 k (by simp)
      rw [hlook] at hnone
      cases hnone

end

/-! ## The whole stream -/

/-- An event that neither ends the stream nor starts a collection is passed over. -/
theorem loadTopLoop_skip {s : Loading} {d : EventData} (ds : List EventData) {fuel : Nat}
    (h : s.events = d :: ds)
    (hd : d ≠ .streamEnd ∧ d ≠ .sequenceStart ∧ d ≠ .mappingStart) :
    loadTopLoop (fuel + 1) s
      = loadTopLoop fuel ((s.pop ds).log (.eventDelete s.obtained)) := by
  rw [loadTopLoop, Comp.bind_returned (nextEvent_cons h), if_neg hd.1,
    if_neg (by simp [hd.2.1, hd.2.2]), Comp.bind_returned (yamlEventDelete_apply _ _)]

/-- A collection is loaded, and the loop ends as the load of it does. -/
theorem loadTopLoop_root (fuel : Nat) {s : Loading} {d : EventData} (ds : List EventData)
    (h : s.events = d :: ds) (hd : d = .sequenceStart ∨ d = .mappingStart) :
    (∀ t b, loadNode fuel ⟨s.obtained, d⟩ (s.pop ds) = (.returned b, t) →
      loadTopLoop (fuel + 1) s = (.returned b, t.log (.eventDelete s.obtained))) ∧
    (∀ t o, (∀ b, o ≠ .returned b) → loadNode fuel ⟨s.obtained, d⟩ (s.pop ds) = (o, t) →
      loadTopLoop (fuel + 1) s = (o, t)) := by
  have hne : d ≠ .streamEnd := by rintro rfl; simp at hd
  rw [loadTopLoop, Comp.bind_returned (nextEvent_cons h), if_neg hne, if_pos hd]
  refine ⟨fun t b ht ↦ ?_, fun t o ho ht ↦ ?_⟩
  · rw [Comp.bind_returned ht, Comp.bind_returned (yamlEventDelete_apply _ _)]
    rfl
  · rw [Comp.bind_stopped ht ho]

/-- **A stream that holds the whole root**: the load is the load of the root. -/
theorem loadTop_whole {t : Tree} (hroot : t.IsCollection) (hkeys : t.ScalarKeys)
    {s : Loading} (hs : s.node = .fresh) {rest : List EventData}
    (hev : s.events = [.streamStart, .documentStart] ++ t.events ++ rest) :
    LoadsAs t rest (loadTop s) := by
  obtain ⟨d, ds, hd⟩ := t.events_eq_cons
  have hstart : d = .sequenceStart ∨ d = .mappingStart := by
    cases t <;> simp_all [Tree.IsCollection, Tree.events]
  rw [hd] at hev
  obtain ⟨fuel, hf⟩ : ∃ f, 2 * s.events.length + 1 = f + 4 :=
    ⟨2 * s.events.length + 1 - 4, by simp only [hev, List.length_append, List.length_cons]; omega⟩
  have hlen : t.events.length ≤ fuel + 1 := by
    have := congrArg List.length hev
    simp only [List.length_append, List.length_cons, hd] at this ⊢
    omega
  rw [loadTop, hf, loadTopLoop_skip (.documentStart :: d :: (ds ++ rest)) hev (by decide),
    loadTopLoop_skip (d := .documentStart) (d :: (ds ++ rest)) rfl (by decide)]
  have htree := loadNode_tree t hkeys hd fuel hlen
    (((((s.pop (.documentStart :: d :: (ds ++ rest))).log (.eventDelete s.obtained)).pop
      (d :: (ds ++ rest))).log (.eventDelete (s.obtained + 1))).pop (ds ++ rest))
    (s.obtained + 2) rest hs rfl
  have htop := loadTopLoop_root (fuel + 1)
    (s := (((s.pop (.documentStart :: d :: (ds ++ rest))).log (.eventDelete s.obtained)).pop
      (d :: (ds ++ rest))).log (.eventDelete (s.obtained + 1))) (ds ++ rest) rfl hstart
  refine ⟨fun hl ↦ ?_, fun hl ↦ ?_⟩
  · obtain ⟨s', hr, hrep, hrest⟩ := htree.1 hl
    exact ⟨_, htop.1 s' true hr, hrep, hrest⟩
  · obtain ⟨e, he⟩ := htree.2 hl
    exact ⟨e, congrArg Prod.fst (htop.2 _ _ (by simp) (Prod.ext he rfl))⟩

/-- **A stream that ends inside the root**: the load throws.  Otherwise it would be the load of the
whole stream, which leaves fewer events than are missing. -/
theorem loadTop_cut {t : Tree} (hroot : t.IsCollection) (hkeys : t.ScalarKeys)
    {s : Loading} (hs : s.node = .fresh) {n : Nat} (hn : n < 2 + t.events.length)
    (hev : s.events = t.stream.take n) : ∃ e, (loadTop s).1 = .threw e := by
  by_contra hno
  rw [not_exists] at hno
  have hext := loadTop_extend (t.stream.drop n) hno
  have hfull : (s.extend (t.stream.drop n)).events
      = [.streamStart, .documentStart] ++ t.events ++ [.documentEnd, .streamEnd] := by
    show s.events ++ t.stream.drop n = _
    rw [hev, List.take_append_drop, Tree.stream]
  have hwhole := loadTop_whole hroot hkeys (s := s.extend (t.stream.drop n)) hs hfull
  rw [hext] at hwhole
  by_cases hl : t.Loadable
  · obtain ⟨s', hr, -, hrest⟩ := hwhole.1 hl
    have hlen := congrArg List.length hrest
    rw [← (Prod.mk.inj hr).2] at hlen
    simp only [Loading.extend, List.length_append, List.length_drop, Tree.stream,
      List.length_cons, List.length_nil] at hlen
    omega
  · obtain ⟨e, he⟩ := hwhole.2 hl
    exact hno e he

/-- **YAML loading accepts exactly the documents that can be represented, and rebuilds them.**  For
a document with a collection as its root and scalar keys, delivered in full or cut short after `n`
events by a parser error, and a load into a fresh node. -/
theorem loadTop_document (t : Tree) (hroot : t.IsCollection) (hkeys : t.ScalarKeys) (n : Nat)
    (s : Loading) (hs : s.node = .fresh) (hev : s.events = t.stream.take n) :
    ((loadTop s).1 = .returned true ↔
      EventData.alias ∉ t.events ∧ t.DistinctKeys ∧ 2 + t.events.length ≤ n) ∧
    ((loadTop s).1 = .returned true → Represents (loadTop s).2.node t ∧
      (loadTop s).2.events = (t.stream.take n).drop (2 + t.events.length)) ∧
    ((loadTop s).1 ≠ .returned true →
      ∃ e, (loadTop s).1 = .threw e ∧ e.isA .yamlParseFail = true) := by
  rcases Nat.lt_or_ge n (2 + t.events.length) with hn | hn
  · -- cut short
    obtain ⟨e, he⟩ := loadTop_cut hroot hkeys hs hn hev
    refine ⟨⟨fun h ↦ ?_, fun h ↦ by omega⟩, fun h ↦ ?_, fun _ ↦ ⟨e, he, loadTop_onlyThrows s e he⟩⟩
    · rw [he] at h; cases h
    · rw [he] at h; cases h
  · -- the whole root is there
    have hsplit : t.stream.take n = [.streamStart, .documentStart] ++ t.events
        ++ (t.stream.take n).drop (2 + t.events.length) := by
      have hpre : (t.stream.take n).take (2 + t.events.length)
          = [.streamStart, .documentStart] ++ t.events := by
        rw [List.take_take, Nat.min_eq_left hn, Tree.stream]
        exact List.take_left' (by simp only [List.length_append, List.length_cons,
          List.length_nil])
      rw [← hpre, List.take_append_drop]
    have hload := loadTop_whole hroot hkeys hs (hev.trans hsplit)
    by_cases hl : t.Loadable
    · obtain ⟨s', hr, hrep, hrest⟩ := hload.1 hl
      rw [hr]
      exact ⟨⟨fun _ ↦ ⟨hl.1, hl.2, hn⟩, fun _ ↦ rfl⟩, fun _ ↦ ⟨hrep, hrest⟩,
        fun h ↦ absurd rfl h⟩
    · obtain ⟨e, he⟩ := hload.2 hl
      rw [he]
      refine ⟨⟨fun h ↦ ?_, fun h ↦ absurd ⟨h.1, h.2.1⟩ hl⟩, fun h ↦ ?_,
        fun _ ↦ ⟨e, rfl, loadTop_onlyThrows s e he⟩⟩ <;> cases h

/-- The document `z: [x, y]`, `a: b`. -/
def sampleTree : Tree :=
  .mapping [(.scalar "z", .sequence [.scalar "x", .scalar "y"]), (.scalar "a", .scalar "b")]

theorem loadTop_document_sample :
    (loadTop { node := .fresh, events := sampleTree.stream.take 13 }).1 = .returned true := by
  have h := loadTop_document sampleTree trivial
    ⟨⟨"z", rfl⟩, ⟨trivial, trivial, trivial⟩, ⟨"a", rfl⟩, trivial, trivial⟩ 13
    { node := .fresh, events := sampleTree.stream.take 13 } rfl rfl
  refine h.1.mpr ⟨by decide, ?_, by decide⟩
  simp [sampleTree, Tree.DistinctKeys, Tree.DistinctKeysEntries, Tree.DistinctKeysAll]

end Yaml
end XaMain
