import XaMain.Yaml.LoadCorrect
import XaMain.Yaml.Verdict

/-!
# Loading a document with any keys

The induction of `Yaml/LoadCorrect.lean` for documents that need not have scalars as keys.  The
loader loads a document without a fault (`fault_eq_none_iff`), and otherwise it reads its events up
to the first fault and ends there, as `Fault.outcome` says: at an alias and at a repeated key it
throws a `yaml_parse_fail`, and at a key that is not a scalar `load_mapping` reads the payload of
the event as if it were one.

The root of a document is loaded onto whatever the node held before (`LoadedOnto`), and for a
mapping the keys that are there count as keys of the document.
-/

set_option autoImplicit false

namespace XaMain
namespace Yaml

/-- How a load ends at a fault. -/
def Fault.outcome : Fault → Outcome Exception Bool
  | .alias => .threw (yamlParseFail ("Unexpected node type " ++ toString EventData.alias.type))
  | .duplicate key => .threw (yamlParseFail ("Duplicated key " ++ key))
  | .badKey => .undefined

theorem Fault.outcome_ne_returned (f : Fault) (b : Bool) : f.outcome ≠ .returned b := by
  cases f <;> simp [outcome]

/-! ## Documents without a fault -/

/-- The keys of the mapping are `keys`, in any order. -/
def HasKeys (m : List (String × Node)) (keys : List String) : Prop :=
  ∀ k, k ∈ keys ↔ (m.lookup k).isSome = true

theorem hasKeys_nil : HasKeys [] [] := fun k ↦ by simp

theorem HasKeys.lookup_eq_none {m : List (String × Node)} {keys : List String} (h : HasKeys m keys)
    {k : String} (hk : k ∉ keys) : m.lookup k = none := by
  rwa [h k, Option.isSome_iff_ne_none, not_not] at hk

theorem HasKeys.assign {m : List (String × Node)} {keys : List String} (h : HasKeys m keys)
    (k : String) (n : Node) : HasKeys (OrderedMap.assign k n m) (k :: keys) := by
  intro k'
  by_cases hk : k' = k
  · simp [hk, OrderedMap.lookup_assign_self]
  · rw [OrderedMap.assign, OrderedMap.lookup_upsert_ne hk, ← h k']
    simp [hk]

/-- The keys of a mapping. -/
theorem hasKeys_map (m : List (String × Node)) : HasKeys m (m.map Prod.fst) := by
  intro k
  induction m with
  | nil => simp
  | cons p m ih =>
    obtain ⟨k', n⟩ := p
    by_cases hk : k = k'
    · simp [hk]
    · rw [OrderedMap.lookup_cons_ne hk, ← ih]
      simp [hk]

mutual

/-- A document has no fault iff it can be loaded. -/
theorem fault_eq_none_iff : ∀ t : Tree, t.fault = none ↔ t.ScalarKeys ∧ t.Loadable
  | .scalar v => by
    simp [Tree.fault, Tree.ScalarKeys, Tree.Loadable, Tree.events, Tree.DistinctKeys]
  | .alias => by simp [Tree.fault, Tree.Loadable, Tree.events]
  | .sequence ts => by
    rw [Tree.fault, loadable_sequence]
    exact faultAll_eq_none_iff ts
  | .mapping es => by
    rw [Tree.fault, loadable_mapping]
    exact faultEntries_eq_none_iff es hasKeys_nil

theorem faultAll_eq_none_iff : ∀ ts : List Tree,
    Tree.faultAll ts = none ↔ Tree.ScalarKeysAll ts ∧ AllLoadable ts
  | [] => by
    simp [Tree.faultAll, Tree.ScalarKeysAll, AllLoadable, Tree.eventsAll, Tree.DistinctKeysAll]
  | t :: ts => by
    rw [Tree.faultAll, Option.or_eq_none_iff, fault_eq_none_iff t, faultAll_eq_none_iff ts,
      allLoadable_cons, Tree.ScalarKeysAll]
    tauto

theorem faultEntries_eq_none_iff : ∀ (es : List (Tree × Tree)) {m : List (String × Node)}
    {keys : List String}, HasKeys m keys →
    (Tree.faultEntries keys es = none ↔ Tree.ScalarKeysEntries es ∧ EntriesLoadable m es)
  | [], m, keys, _ => by
    simp [Tree.faultEntries, Tree.ScalarKeysEntries, EntriesLoadable, Tree.eventsEntries,
      Tree.DistinctKeysEntries]
  | (.scalar k, v) :: es, m, keys, hkeys => by
    rw [Tree.faultEntries]
    by_cases hk : k ∈ keys
    · have hno : ¬ EntriesLoadable m ((.scalar k, v) :: es) := by
        intro h
        have hnone := h.2.2.2 k (by simp)
        rw [hkeys k, hnone] at hk
        cases hk
      simp [hk, hno]
    · rw [if_neg hk, Option.or_eq_none_iff, fault_eq_none_iff v,
        faultEntries_eq_none_iff es (hkeys.assign k .fresh),
        entriesLoadable_cons (hkeys.lookup_eq_none hk) .fresh, Tree.ScalarKeysEntries]
      have hscalar : ∃ s, Tree.scalar k = .scalar s := ⟨k, rfl⟩
      tauto
  | (.alias, v) :: es, m, keys, _ => by simp [Tree.faultEntries, Tree.ScalarKeysEntries]
  | (.sequence ts, v) :: es, m, keys, _ => by simp [Tree.faultEntries, Tree.ScalarKeysEntries]
  | (.mapping es', v) :: es, m, keys, _ => by simp [Tree.faultEntries, Tree.ScalarKeysEntries]

end

/-! ## Documents with a fault -/

/-- A key that is not a scalar is read as one. -/
theorem loadMapping_badKey {s : Loading} {d : EventData} {ds : List EventData} {fuel : Nat}
    (h : s.events = d :: ds) (hend : d ≠ .mappingEnd) (hd : ∀ v, d ≠ .scalar v) :
    loadMapping (fuel + 1) s = (.undefined, (s.pop ds).log (.read s.obtained)) := by
  have hread : scalarValue ⟨s.obtained, d⟩ (s.pop ds)
      = (.undefined, (s.pop ds).log (.read s.obtained)) := by
    cases d with
    | scalar v => exact absurd rfl (hd v)
    | _ => rfl
  rw [loadMapping, Comp.bind_returned (nextEvent_cons h), if_neg hend, Comp.bind_apply, hread]

/-- The first event of a node that is not a scalar, in the place of a key. -/
theorem loadMapping_badKey_tree {k : Tree} (hk : ∀ v, k ≠ .scalar v) {s : Loading}
    {rest : List EventData} {fuel : Nat} (hfuel : 2 * (k.events.take 1).length ≤ fuel)
    (h : s.events = k.events.take 1 ++ rest) :
    ∃ s', loadMapping fuel s = (Fault.badKey.outcome, s') ∧ s'.events = rest := by
  obtain ⟨d, ds, hd⟩ := k.events_eq_cons
  rw [hd, List.take_succ_cons, List.take_zero] at hfuel h
  obtain ⟨fuel, rfl⟩ : ∃ n, fuel = n + 1 := ⟨fuel - 1, by simp at hfuel; omega⟩
  have hkey : d ≠ .mappingEnd ∧ ∀ v, d ≠ .scalar v := by
    rcases k with v | _ | ts | es
    · exact absurd rfl (hk v)
    all_goals
      obtain rfl := (List.cons.inj hd).1
      simp
  exact ⟨_, loadMapping_badKey h hkey.1 hkey.2, rfl⟩

mutual

/-- `load_node` on the first event of a document node with a fault: it ends there, and what follows
is left. -/
theorem loadNode_fault : ∀ (t : Tree) {f : Fault}, t.fault = some f → ∀ {d : EventData}
    {ds : List EventData}, t.untilFault = d :: ds → ∀ (fuel : Nat),
    2 * t.untilFault.length ≤ fuel + 2 → ∀ (s : Loading) (h : Nat) (rest : List EventData),
    s.node = .fresh → s.events = ds ++ rest →
      ∃ s', loadNode (fuel + 1) ⟨h, d⟩ s = (f.outcome, s') ∧ s'.events = rest
  | .scalar v, f, hf, _, _, _, _, _, _, _, _, _, _ => by simp [Tree.fault] at hf
  | .alias, f, hf, d, ds, hd, fuel, _, s, h, rest, _, hev => by
    simp only [Tree.untilFault, List.cons.injEq] at hd
    obtain ⟨rfl, rfl⟩ := hd
    obtain rfl : Fault.alias = f := Option.some.inj hf
    exact ⟨s, rfl, hev⟩
  | .sequence ts, f, hf, d, ds, hd, fuel, hfuel, s, h, rest, _, hev => by
    simp only [Tree.untilFault, List.cons.injEq, List.length_cons] at hd hfuel
    obtain ⟨rfl, rfl⟩ := hd
    exact loadSequence_fault ts hf fuel (by omega) (s.setNode (s.node.setType .sequence)) rest hev
  | .mapping es, f, hf, d, ds, hd, fuel, hfuel, s, h, rest, hs, hev => by
    simp only [Tree.untilFault, List.cons.injEq, List.length_cons] at hd hfuel
    obtain ⟨rfl, rfl⟩ := hd
    have hempty : (s.node.setType .mapping).mapping = [] := by rw [hs]; rfl
    refine loadMapping_fault es hf fuel (by omega) (s.setNode (s.node.setType .mapping)) rest ?_ ?_
      hev
    · rw [Loading.setNode_node, hempty]
      exact OrderedMap.sorted_nil
    · rw [Loading.setNode_node, hempty]
      exact hasKeys_nil

/-- The loop of `load_sequence`. -/
theorem loadSequence_fault : ∀ (ts : List Tree) {f : Fault}, Tree.faultAll ts = some f →
    ∀ (fuel : Nat), 2 * (Tree.untilFaultAll ts).length ≤ fuel → ∀ (s : Loading)
    (rest : List EventData), s.events = Tree.untilFaultAll ts ++ rest →
      ∃ s', loadSequence fuel s = (f.outcome, s') ∧ s'.events = rest
  | [], f, hf, _, _, _, _, _ => by simp [Tree.faultAll] at hf
  | t :: ts, f, hf, fuel, hfuel, s, rest, hev => by
    rw [Tree.untilFaultAll] at hfuel hev
    rcases ht : t.fault with _ | f'
    · -- the element is loaded, and the fault is in one of the others
      have hts : Tree.faultAll ts = some f := by rwa [Tree.faultAll, ht, Option.none_or] at hf
      obtain ⟨hkeys, hl⟩ := (fault_eq_none_iff t).mp ht
      obtain ⟨d, ds, hd⟩ := t.events_eq_cons
      have hne : d ≠ .sequenceEnd := t.head_ne_sequenceEnd hd
      simp only [ht, Option.isSome_none, Bool.false_eq_true, if_false, hd, List.length_append,
        List.length_cons, List.cons_append, List.append_assoc] at hfuel hev
      obtain ⟨fuel, rfl⟩ : ∃ n, fuel = n + 2 := ⟨fuel - 2, by omega⟩
      have htree := loadNode_tree t hkeys hd fuel (by simp only [hd, List.length_cons]; omega)
        ((s.pop (ds ++ (Tree.untilFaultAll ts ++ rest))).setNode .fresh) s.obtained
        (Tree.untilFaultAll ts ++ rest) rfl rfl
      obtain ⟨s₁, hr, -, hev₁⟩ := htree.1 hl
      rw [loadSequence_element hev hne hr]
      exact loadSequence_fault ts hts (fuel + 1) (by omega) _ rest hev₁
    · obtain rfl : f' = f := by simpa [Tree.faultAll, ht] using hf
      obtain ⟨d, ds, hd⟩ := t.untilFault_eq_cons
      have hne : d ≠ .sequenceEnd := by
        obtain ⟨l, hl⟩ := t.untilFault_isPrefix (by rw [ht]; rfl)
        exact t.head_ne_sequenceEnd (by rw [← hl, hd, List.cons_append])
      simp only [ht, Option.isSome_some, if_true, hd, List.length_cons, List.cons_append]
        at hfuel hev
      obtain ⟨fuel, rfl⟩ : ∃ n, fuel = n + 2 := ⟨fuel - 2, by omega⟩
      obtain ⟨s₁, hr, hev₁⟩ := loadNode_fault t ht hd fuel
        (by simp only [hd, List.length_cons]; omega)
        ((s.pop (ds ++ rest)).setNode .fresh) s.obtained rest rfl rfl
      exact ⟨_, loadSequence_element_stopped hev hne f'.outcome_ne_returned hr, hev₁⟩

/-- The loop of `load_mapping`. -/
theorem loadMapping_fault : ∀ (es : List (Tree × Tree)) {keys : List String} {f : Fault},
    Tree.faultEntries keys es = some f → ∀ (fuel : Nat),
    2 * (Tree.untilFaultEntries keys es).length ≤ fuel → ∀ (s : Loading) (rest : List EventData),
    OrderedMap.Sorted s.node.mapping → HasKeys s.node.mapping keys →
    s.events = Tree.untilFaultEntries keys es ++ rest →
      ∃ s', loadMapping fuel s = (f.outcome, s') ∧ s'.events = rest
  | [], keys, f, hf, _, _, _, _, _, _, _ => by simp [Tree.faultEntries] at hf
  | (.scalar k, v) :: es, keys, f, hf, fuel, hfuel, s, rest, hsorted, hkeys, hev => by
    rw [Tree.untilFaultEntries] at hfuel hev
    rw [Tree.faultEntries] at hf
    by_cases hk : k ∈ keys
    · rw [if_pos hk] at hf hfuel hev
      obtain rfl : Fault.duplicate k = f := Option.some.inj hf
      obtain ⟨fuel, rfl⟩ : ∃ n, fuel = n + 1 := ⟨fuel - 1, by simp at hfuel; omega⟩
      exact ⟨_, loadMapping_duplicate hev ((hkeys k).mp hk), rfl⟩
    · rw [if_neg hk] at hf hfuel hev
      have hlook : s.node.mapping.lookup k = none := hkeys.lookup_eq_none hk
      rcases hv : v.fault with _ | f'
      · -- the value is loaded, and the fault is in one of the other entries
        have hes : Tree.faultEntries (k :: keys) es = some f := by rwa [hv, Option.none_or] at hf
        obtain ⟨hvkeys, hl⟩ := (fault_eq_none_iff v).mp hv
        obtain ⟨d, ds, hd⟩ := v.events_eq_cons
        simp only [hv, Option.isSome_none, Bool.false_eq_true, if_false, hd, List.length_cons,
          List.length_append, List.cons_append, List.append_assoc] at hfuel hev
        obtain ⟨fuel, rfl⟩ : ∃ n, fuel = n + 2 := ⟨fuel - 2, by omega⟩
        have htree := loadNode_tree v hvkeys hd fuel (by simp only [hd, List.length_cons]; omega)
          (s.value d (ds ++ (Tree.untilFaultEntries (k :: keys) es ++ rest))) (s.obtained + 1)
          (Tree.untilFaultEntries (k :: keys) es ++ rest) rfl rfl
        obtain ⟨s₁, hr, -, hev₁⟩ := htree.1 hl
        rw [(loadMapping_entry (fuel + 1) hev hsorted hlook).1 s₁ true hr]
        exact loadMapping_fault es hes (fuel + 1) (by omega) _ rest
          (OrderedMap.sorted_upsert hsorted k _) (hkeys.assign k _) hev₁
      · obtain rfl : f' = f := by simpa [hv] using hf
        obtain ⟨d, ds, hd⟩ := v.untilFault_eq_cons
        simp only [hv, Option.isSome_some, if_true, hd, List.length_cons, List.cons_append]
          at hfuel hev
        obtain ⟨fuel, rfl⟩ : ∃ n, fuel = n + 2 := ⟨fuel - 2, by omega⟩
        obtain ⟨s₁, hr, hev₁⟩ := loadNode_fault v hv hd fuel
          (by simp only [hd, List.length_cons]; omega)
          (s.value d (ds ++ rest)) (s.obtained + 1) rest rfl rfl
        exact ⟨_, (loadMapping_entry (fuel + 1) hev hsorted hlook).2 s₁ _ f'.outcome_ne_returned hr,
          hev₁⟩
  | (.alias, v) :: es, keys, f, hf, fuel, hfuel, s, rest, _, _, hev => by
    obtain rfl : Fault.badKey = f := Option.some.inj hf
    exact loadMapping_badKey_tree (k := .alias) (by simp) hfuel hev
  | (.sequence ts, v) :: es, keys, f, hf, fuel, hfuel, s, rest, _, _, hev => by
    obtain rfl : Fault.badKey = f := Option.some.inj hf
    exact loadMapping_badKey_tree (k := .sequence ts) (by simp) hfuel hev
  | (.mapping es', v) :: es, keys, f, hf, fuel, hfuel, s, rest, _, _, hev => by
    obtain rfl : Fault.badKey = f := Option.some.inj hf
    exact loadMapping_badKey_tree (k := .mapping es') (by simp) hfuel hev

end

/-! ## The root -/

/-- `n'` is the node `n` with the collection `t` loaded onto it.  Its type is set and its elements
are added to what is there. -/
def LoadedOnto (n : Node) : Tree → Node → Prop
  | .sequence ts, n' => ∃ ns, RepresentsAll ns ts ∧
    n' = (n.setType .sequence).setSequence (n.sequence ++ ns)
  | .mapping es, n' => ∃ m, RepresentsEntries m es ∧
    n' = (n.setType .mapping).setMapping (OrderedMap.assignAll m n.mapping)
  | _, _ => False

theorem LoadedOnto.type_eq {t : Tree} {n n' : Node} (h : LoadedOnto n t n') :
    n'.type = .sequence ∨ n'.type = .mapping := by
  cases t with
  | sequence ts => obtain ⟨ns, -, rfl⟩ := h; exact Or.inl rfl
  | mapping es => obtain ⟨m, -, rfl⟩ := h; exact Or.inr rfl
  | _ => exact h.elim

/-- On a fresh node, the document is what it holds. -/
theorem LoadedOnto.represents {t : Tree} {n : Node} (h : LoadedOnto .fresh t n)
    (hl : t.DistinctKeys) : Represents n t := by
  cases t with
  | sequence ts =>
    obtain ⟨ns, hns, rfl⟩ := h
    rw [Represents]
    exact ⟨rfl, rfl, rfl, hns⟩
  | mapping es =>
    obtain ⟨m, hm, rfl⟩ := h
    exact represents_mapping hm hl.1
  | _ => exact h.elim

theorem faultIn_nil (t : Tree) : t.faultIn [] = t.fault := by cases t <;> rfl

section Root

variable {keys : List String} {d : EventData} {ds rest : List EventData} {s : Loading}

/-- A root without a fault is loaded onto the node. -/
theorem loadNode_root {t : Tree} (hroot : t.IsCollection) (hf : t.faultIn keys = none)
    (hd : t.events = d :: ds) (fuel : Nat) (hfuel : t.events.length ≤ fuel + 1) (h : Nat)
    (hsorted : OrderedMap.Sorted s.node.mapping) (hkeys : HasKeys s.node.mapping keys)
    (hev : s.events = ds ++ rest) :
    ∃ s', loadNode (fuel + 1) ⟨h, d⟩ s = (.returned true, s') ∧ LoadedOnto s.node t s'.node ∧
      s'.events = rest := by
  cases t with
  | sequence ts =>
    simp only [Tree.events, List.cons.injEq, List.length_cons, List.length_append,
      List.length_nil] at hd hfuel
    obtain ⟨rfl, rfl⟩ := hd
    obtain ⟨hscalar, hl⟩ := (faultAll_eq_none_iff ts).mp hf
    have hloop := loadSequence_trees ts hscalar fuel (by omega)
      (s.setNode (s.node.setType .sequence)) rest (by simpa using hev)
    obtain ⟨s', ns, hr, hrest, hns, hn⟩ := hloop.1 hl
    exact ⟨s', hr, ⟨ns, hns, hn⟩, hrest⟩
  | mapping es =>
    simp only [Tree.events, List.cons.injEq, List.length_cons, List.length_append,
      List.length_nil] at hd hfuel
    obtain ⟨rfl, rfl⟩ := hd
    obtain ⟨hscalar, hl⟩ := (faultEntries_eq_none_iff es hkeys).mp hf
    have hloop := loadMapping_entries es hscalar fuel (by omega)
      (s.setNode (s.node.setType .mapping)) rest hsorted (by simpa using hev)
    obtain ⟨s', m, hr, hrest, hm, hn⟩ := hloop.1 hl
    exact ⟨s', hr, ⟨m, hm, hn⟩, hrest⟩
  | _ => exact hroot.elim

/-- A root with a fault is loaded up to there. -/
theorem loadNode_root_fault {t : Tree} (hroot : t.IsCollection) {f : Fault}
    (hf : t.faultIn keys = some f) (hd : t.examined keys = d :: ds) (fuel : Nat)
    (hfuel : 2 * (t.examined keys).length ≤ fuel + 2) (h : Nat)
    (hsorted : OrderedMap.Sorted s.node.mapping) (hkeys : HasKeys s.node.mapping keys)
    (hev : s.events = ds ++ rest) :
    ∃ s', loadNode (fuel + 1) ⟨h, d⟩ s = (f.outcome, s') ∧ s'.events = rest := by
  have hexamined : t.examined keys = t.untilFaultIn keys := by
    rw [Tree.examined, hf]
    rfl
  rw [hexamined] at hd hfuel
  cases t with
  | sequence ts =>
    simp only [Tree.untilFaultIn, Tree.untilFault, List.cons.injEq, List.length_cons] at hd hfuel
    obtain ⟨rfl, rfl⟩ := hd
    exact loadSequence_fault ts hf fuel (by omega) (s.setNode (s.node.setType .sequence)) rest hev
  | mapping es =>
    simp only [Tree.untilFaultIn, List.cons.injEq, List.length_cons] at hd hfuel
    obtain ⟨rfl, rfl⟩ := hd
    exact loadMapping_fault es hf fuel (by omega) (s.setNode (s.node.setType .mapping)) rest hsorted
      hkeys hev
  | _ => exact hroot.elim

end Root

/-- The first event that is examined of a collection is the start of it. -/
theorem examined_root {t : Tree} (hroot : t.IsCollection) (keys : List String) :
    ∃ d ds, t.examined keys = d :: ds ∧ (d = .sequenceStart ∨ d = .mappingStart) := by
  rw [Tree.examined]
  cases t with
  | sequence ts => split <;> exact ⟨_, _, rfl, Or.inl rfl⟩
  | mapping es => split <;> exact ⟨_, _, rfl, Or.inr rfl⟩
  | _ => exact hroot.elim

end Yaml
end XaMain
