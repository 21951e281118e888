import XaMain.Yaml.LoadVerdict

/-!
# Loading a stream

`load_top` on any stream of documents does what `verdict` says (`loadTop_examined`): it loads the
first document with a collection as its root if it can be loaded, stops at its first fault if it
cannot, and returns without a document if there is none.  What comes after the events it has
examined makes no difference, and if some of these are missing it throws (`loadTop_short`).

Two properties of a load follow for every stream: when it never reads a payload that is not there
(`loadTop_reads_scalars_iff`), and when what it returns is the first document
(`loadTop_loads_first_iff`).
-/

set_option autoImplicit false

namespace XaMain
namespace Yaml

/-- A document that is not a collection is one event, and `load_top` passes over it. -/
theorem events_of_not_collection {t : Tree} (h : ¬ t.IsCollection) :
    ∃ d, t.events = [d] ∧ (d ≠ .streamEnd ∧ d ≠ .sequenceStart ∧ d ≠ .mappingStart) := by
  cases t with
  | scalar v => exact ⟨_, rfl, by simp⟩
  | sequence ts => exact absurd trivial h
  | mapping es => exact absurd trivial h
  | _ => exact ⟨_, rfl, by simp⟩

/-! ## The stream -/

/-- The load ended as the verdict says, on a node that was `n`. -/
def Verdict.Describes (n : Node) (r : Outcome Exception Bool × Loading) : Verdict → Prop
  | .nothing => r.1 = .returned true ∧ r.2.node = n
  | .document t => r.1 = .returned true ∧ LoadedOnto n t r.2.node
  | .fault f => r.1 = f.outcome

theorem loadTopLoop_end {s : Loading} {ds : List EventData} {fuel : Nat}
    (h : s.events = .streamEnd :: ds) :
    loadTopLoop (fuel + 1) s = (.returned true, (s.pop ds).log (.eventDelete s.obtained)) := by
  rw [loadTopLoop, Comp.bind_returned (nextEvent_cons h)]
  rfl

/-- The loop of `load_top`, from a document on. -/
theorem loadTopLoop_examinedFrom (keys : List String) : ∀ (ts : List Tree) (fuel : Nat),
    2 * (examinedFrom keys ts).length ≤ fuel → ∀ (s : Loading) (rest : List EventData),
    OrderedMap.Sorted s.node.mapping → HasKeys s.node.mapping keys →
    s.events = examinedFrom keys ts ++ rest →
      (verdict keys ts).Describes s.node (loadTopLoop fuel s) ∧ (loadTopLoop fuel s).2.events = rest
  | [], fuel, hfuel, s, rest, _, _, hev => by
    obtain ⟨fuel, rfl⟩ : ∃ n, fuel = n + 1 :=
      ⟨fuel - 1, by simp only [examinedFrom, List.length_singleton] at hfuel; omega⟩
    rw [loadTopLoop_end hev]
    exact ⟨⟨rfl, rfl⟩, rfl⟩
  | t :: ts, fuel, hfuel, s, rest, hsorted, hkeys, hev => by
    rw [examinedFrom] at hfuel hev
    rw [verdict]
    by_cases hroot : t.IsCollection
    · rw [if_pos hroot] at hfuel hev ⊢
      obtain ⟨d, ds, hd, hstart⟩ := examined_root hroot keys
      rw [hd] at hfuel hev
      simp only [List.length_cons] at hfuel
      obtain ⟨fuel, rfl⟩ : ∃ n, fuel = n + 3 := ⟨fuel - 3, by omega⟩
      rw [loadTopLoop_skip (d := .documentStart) (d :: (ds ++ rest)) hev (by decide)]
      have htop := loadTopLoop_root (fuel + 1)
        (s := (s.pop (d :: (ds ++ rest))).log (.eventDelete s.obtained)) (ds ++ rest) rfl hstart
      cases hf : t.faultIn keys with
      | none =>
        have hall : t.events = d :: ds := by rwa [Tree.examined, hf] at hd
        obtain ⟨s', hr, hloaded, hrest⟩ := loadNode_root
          (s := ((s.pop (d :: (ds ++ rest))).log (.eventDelete s.obtained)).pop (ds ++ rest)) hroot
          hf hall fuel (by rw [hall, List.length_cons]; omega) (s.obtained + 1) hsorted hkeys rfl
        rw [htop.1 s' true hr]
        exact ⟨⟨rfl, hloaded⟩, hrest⟩
      | some f =>
        obtain ⟨s', hr, hrest⟩ := loadNode_root_fault
          (s := ((s.pop (d :: (ds ++ rest))).log (.eventDelete s.obtained)).pop (ds ++ rest)) hroot
          hf hd fuel (by rw [hd, List.length_cons]; omega) (s.obtained + 1) hsorted hkeys rfl
        rw [htop.2 s' _ f.outcome_ne_returned hr]
        exact ⟨rfl, hrest⟩
    · -- the three events of the document are passed over
      rw [if_neg hroot] at hfuel hev ⊢
      obtain ⟨d, hevents, hskip⟩ := events_of_not_collection hroot
      simp only [Tree.document, hevents, List.cons_append, List.nil_append, List.length_cons]
        at hfuel hev
      obtain ⟨fuel, rfl⟩ : ∃ n, fuel = n + 3 := ⟨fuel - 3, by omega⟩
      rw [loadTopLoop_skip (d := .documentStart) _ hev (by decide),
        loadTopLoop_skip (d := d) (.documentEnd :: (examinedFrom keys ts ++ rest)) rfl hskip,
        loadTopLoop_skip (d := .documentEnd) (examinedFrom keys ts ++ rest) rfl (by decide)]
      exact loadTopLoop_examinedFrom keys ts fuel (by omega) _ rest hsorted hkeys rfl

section Stream

variable {keys : List String} {ts : List Tree} {s : Loading}

/-- **A load does what the verdict says**, and leaves the events it had no need to look at. -/
theorem loadTop_examined (rest : List EventData) (hsorted : OrderedMap.Sorted s.node.mapping)
    (hkeys : HasKeys s.node.mapping keys) (hev : s.events = examined keys ts ++ rest) :
    (verdict keys ts).Describes s.node (loadTop s) ∧ (loadTop s).2.events = rest := by
  have hlen : s.events.length = (examinedFrom keys ts).length + 1 + rest.length := by
    rw [hev, examined, List.length_append, List.length_cons]
  rw [loadTop, loadTopLoop_skip (d := .streamStart) (examinedFrom keys ts ++ rest) hev (by decide)]
  exact loadTopLoop_examinedFrom keys ts _ (by omega) _ rest hsorted hkeys rfl

theorem examinedIn_isPrefix (keys : List String) (t : Tree) : t.examined keys <+: t.events := by
  rw [Tree.examined]
  split
  · next hf =>
    cases t with
    | mapping es =>
      have hentries := Tree.untilFaultEntries_isPrefix es keys hf
      exact (List.prefix_cons_inj _).mpr (hentries.trans (List.prefix_append _ _))
    | _ => exact Tree.untilFault_isPrefix _ hf
  · exact List.prefix_rfl

theorem examinedFrom_isPrefix (keys : List String) (ts : List Tree) :
    examinedFrom keys ts <+: ts.flatMap Tree.document ++ [.streamEnd] := by
  induction ts with
  | nil => exact List.prefix_rfl
  | cons t ts ih =>
    rw [examinedFrom, List.flatMap_cons, List.append_assoc]
    split
    · rw [Tree.document, List.cons_append, List.append_assoc]
      have hroot := examinedIn_isPrefix keys t
      exact (List.prefix_cons_inj _).mpr (hroot.trans (List.prefix_append _ _))
    · exact (List.prefix_append_right_inj _).mpr ih

theorem examined_isPrefix (keys : List String) (ts : List Tree) :
    examined keys ts <+: Tree.streamOf ts :=
  (List.prefix_cons_inj _).mpr (examinedFrom_isPrefix keys ts)

/-- **A stream that is cut short** before the load has seen what it has to: it throws.  Otherwise it
would be the load of the whole stream, which leaves fewer events than are missing. -/
theorem loadTop_short {n : Nat} (hn : n < (examined keys ts).length)
    (hsorted : OrderedMap.Sorted s.node.mapping) (hkeys : HasKeys s.node.mapping keys)
    (hev : s.events = (Tree.streamOf ts).take n) :
    ∃ e, (loadTop s).1 = .threw e ∧ e.isA .yamlParseFail = true := by
  by_contra hno
  have hthrew : ∀ e, (loadTop s).1 ≠ .threw e :=
    fun e he ↦ hno ⟨e, he, loadTop_onlyThrows s e he⟩
  obtain ⟨rest, hrest⟩ := examined_isPrefix keys ts
  have hfull : (s.extend ((Tree.streamOf ts).drop n)).events = examined keys ts ++ rest := by
    show s.events ++ (Tree.streamOf ts).drop n = _
    rw [hev, List.take_append_drop, hrest]
  have hleft := (loadTop_examined (s := s.extend ((Tree.streamOf ts).drop n)) rest hsorted hkeys
    hfull).2
  rw [loadTop_extend _ hthrew] at hleft
  have hlen := congrArg List.length hleft
  have hstream := congrArg List.length hrest
  simp only [Loading.extend, List.length_append, List.length_drop] at hlen hstream
  omega

end Stream

/-! ## What is read -/

/-- The verdict of a stream is about its first document with a collection as its root. -/
theorem verdict_append {keys : List String} {before : List Tree}
    (h : ∀ t ∈ before, ¬ t.IsCollection) (ts : List Tree) :
    verdict keys (before ++ ts) = verdict keys ts := by
  induction before with
  | nil => rfl
  | cons t before ih =>
    rw [List.cons_append, verdict, if_neg (h t List.mem_cons_self)]
    exact ih fun u hu ↦ h u (List.mem_cons_of_mem t hu)

theorem verdict_cons {keys : List String} {t : Tree} (hroot : t.IsCollection) (ts : List Tree) :
    verdict keys (t :: ts) = (t.faultIn keys).elim (.document t) .fault := by
  rw [verdict, if_pos hroot]
  cases t.faultIn keys <;> rfl

/-- A root with no fault has scalars as keys. -/
theorem scalarKeys_of_faultIn {keys : List String} {t : Tree} {m : List (String × Node)}
    (hkeys : HasKeys m keys) (hf : t.faultIn keys = none) : t.ScalarKeys := by
  cases t with
  | mapping es => exact ((faultEntries_eq_none_iff es hkeys).mp hf).1
  | _ => exact ((fault_eq_none_iff _).mp hf).1

/-- The load of the stream `ts` reads the payload of no event but a scalar, and if the document it
loads has a key that is not a scalar, it throws a `yaml_parse_fail`. -/
def ReadsScalars (ts : List Tree) (s : Loading) : Prop :=
  (loadTop s).1 ≠ .undefined ∧
    ∀ before t later, ts = before ++ t :: later → (∀ u ∈ before, ¬ u.IsCollection) →
      t.IsCollection → ¬ t.ScalarKeys →
        ∃ e, (loadTop s).1 = .threw e ∧ e.isA .yamlParseFail = true

/-- **When the loader reads only scalars as scalars**: when the first fault of the document that it
loads is not a key of another kind. -/
theorem loadTop_reads_scalars_iff (ts : List Tree) (s : Loading)
    (hsorted : OrderedMap.Sorted s.node.mapping) (hev : s.events = Tree.streamOf ts) :
    ReadsScalars ts s ↔ verdict (s.node.mapping.map Prod.fst) ts ≠ .fault .badKey := by
  have hkeys := hasKeys_map s.node.mapping
  obtain ⟨rest, hrest⟩ := examined_isPrefix (s.node.mapping.map Prod.fst) ts
  obtain ⟨hdescribes, -⟩ := loadTop_examined rest hsorted hkeys (hev.trans hrest.symm)
  refine ⟨fun h hbad ↦ ?_, fun hgood ↦ ?_⟩
  · rw [hbad] at hdescribes
    exact h.1 hdescribes
  · cases hv : verdict (s.node.mapping.map Prod.fst) ts with
    | fault f =>
      rw [hv] at hdescribes hgood
      have hthrew : ∃ e, (loadTop s).1 = .threw e := by
        cases f with
        | badKey => exact absurd rfl hgood
        | _ => exact ⟨_, hdescribes⟩
      obtain ⟨e, he⟩ := hthrew
      exact ⟨by rw [he]; simp, fun _ _ _ _ _ _ _ ↦ ⟨e, he, loadTop_onlyThrows s e he⟩⟩
    | document t =>
      rw [hv] at hdescribes
      refine ⟨by rw [hdescribes.1]; simp, ?_⟩
      rintro before u later rfl hbefore hroot hkey
      rw [verdict_append hbefore, verdict_cons hroot] at hv
      cases hf : u.faultIn (s.node.mapping.map Prod.fst) with
      | none => exact absurd (scalarKeys_of_faultIn hkeys hf) hkey
      | some f => rw [hf] at hv; cases hv
    | nothing =>
      rw [hv] at hdescribes
      refine ⟨by rw [hdescribes.1]; simp, ?_⟩
      rintro before u later rfl hbefore hroot hkey
      rw [verdict_append hbefore, verdict_cons hroot] at hv
      cases hf : u.faultIn (s.node.mapping.map Prod.fst) <;> rw [hf] at hv <;> cases hv

/-- A load of the stream `ts` into a fresh node. -/
def Loading.ofStream (ts : List Tree) : Loading := { node := .fresh, events := Tree.streamOf ts }

/-- The document `? [x] : y`. -/
def listKeyTree : Tree := .mapping [(.sequence [.scalar "x"], .scalar "y")]

/-- A sequence as a key: its payload is read as that of a scalar. -/
theorem not_reads_scalars_listKey :
    (loadTop (.ofStream [listKeyTree])).1 = .undefined ∧
    ¬ ∀ (ts : List Tree) (s : Loading), s.node = .fresh → s.events = Tree.streamOf ts →
      ReadsScalars ts s := by
  obtain ⟨rest, hrest⟩ := examined_isPrefix [] [listKeyTree]
  have hrun : (loadTop (.ofStream [listKeyTree])).1 = .undefined :=
    (loadTop_examined (s := .ofStream [listKeyTree]) rest OrderedMap.sorted_nil hasKeys_nil
      hrest.symm).1
  exact ⟨hrun, fun h ↦ (h [listKeyTree] _ rfl rfl).1 hrun⟩

theorem loadTop_reads_scalars_sample :
    ReadsScalars [sampleTree] (.ofStream [sampleTree]) := by
  refine (loadTop_reads_scalars_iff [sampleTree] (.ofStream _) OrderedMap.sorted_nil rfl).mpr ?_
  simp [verdict, sampleTree, Tree.IsCollection, Tree.faultIn, Tree.faultEntries, Tree.fault,
    Tree.faultAll, Loading.ofStream, Node.fresh, Node.ofType]

/-! ## What is returned -/

/-- The events of documents and the end of the stream after them. -/
def Tree.toEnd (ts : List Tree) : List EventData := ts.flatMap Tree.document ++ [.streamEnd]

/-- The load of the stream `ts` succeeds with the first document, or with an empty node if there is
none; or it says that it cannot load the first document, and has read no further. -/
def LoadsFirst (r : Outcome Exception Bool × Loading) : List Tree → Prop
  | [] => r.1 = .returned true ∧ r.2.node.type = .empty
  | t :: later => r.1 = .returned true ∧ Represents r.2.node t ∨
    (r.1 = .returned false ∨ ∃ e, r.1 = .threw e) ∧ Tree.toEnd later <:+ r.2.events

/-- A node is no document that is not a collection if it is fresh or a collection was loaded onto
it. -/
theorem not_represents_of_verdict {t : Tree} (ht : ¬ t.IsCollection) {v : Verdict} {n : Node}
    {r : Outcome Exception Bool × Loading} (hn : n.type = .empty) (h : v.Describes n r)
    (hr : r.1 = .returned true) : ¬ Represents r.2.node t := by
  have htype : r.2.node.type ≠ .scalar := by
    cases v with
    | nothing => rw [h.2, hn]; simp
    | document u => rcases h.2.type_eq with heq | heq <;> rw [heq] <;> simp
    | fault f => exact absurd (Eq.trans (Eq.symm h) hr) (f.outcome_ne_returned true)
  intro hrep
  cases t with
  | sequence ts => exact ht trivial
  | mapping es => exact ht trivial
  | scalar v => rw [Represents] at hrep; exact htype hrep.1
  | _ => rw [Represents] at hrep; exact hrep

/-- What is left when the load stops in the first document. -/
theorem suffix_of_root {t : Tree} (hroot : t.IsCollection) {keys : List String} {later : List Tree}
    {rest : List EventData} (h : examined keys (t :: later) ++ rest = Tree.streamOf (t :: later)) :
    Tree.toEnd later <:+ rest := by
  obtain ⟨l, hl⟩ := examinedIn_isPrefix keys t
  rw [examined, examinedFrom, if_pos hroot, Tree.streamOf, List.flatMap_cons, Tree.document, ← hl]
    at h
  simp only [List.cons_append, List.append_assoc, List.cons.injEq, true_and,
    List.append_cancel_left_eq] at h
  exact ⟨l ++ [.documentEnd], by simp [h, Tree.toEnd]⟩

/-- What is left when the load passes over the first document. -/
theorem not_suffix_of_skip {t : Tree} (hroot : ¬ t.IsCollection) {keys : List String}
    {later : List Tree} {rest : List EventData}
    (h : examined keys (t :: later) ++ rest = Tree.streamOf (t :: later)) :
    ¬ Tree.toEnd later <:+ rest := by
  intro hsuffix
  have hpos : 0 < (examinedFrom keys later).length := by
    cases later with
    | nil => simp [examinedFrom]
    | cons u later => rw [examinedFrom]; split <;> simp [Tree.document]
  have hlen := congrArg List.length h
  have hle := hsuffix.length_le
  simp only [examined, examinedFrom, if_neg hroot, Tree.streamOf, Tree.toEnd, List.flatMap_cons,
    List.length_append, List.length_cons, List.length_nil] at hlen hle
  omega

/-- **When a load is the load of the first document**: when the root of the first document, if there
is one, is a collection whose first fault is not a key that is not a scalar.  Other roots are passed
over. -/
theorem loadTop_loads_first_iff (ts : List Tree) (s : Loading) (hs : s.node = .fresh)
    (hev : s.events = Tree.streamOf ts) :
    LoadsFirst (loadTop s) ts ↔ ∀ t ∈ ts.head?, t.IsCollection ∧ t.fault ≠ some .badKey := by
  obtain ⟨rest, hrest⟩ := examined_isPrefix [] ts
  have hsorted : OrderedMap.Sorted s.node.mapping := by rw [hs]; exact OrderedMap.sorted_nil
  have hkeys : HasKeys s.node.mapping [] := by rw [hs]; exact hasKeys_nil
  obtain ⟨hdescribes, hleft⟩ := loadTop_examined rest hsorted hkeys (hev.trans hrest.symm)
  rw [hs] at hdescribes
  cases ts with
  | nil =>
    refine ⟨fun _ t ht ↦ absurd ht (by simp), fun _ ↦ ⟨hdescribes.1, ?_⟩⟩
    rw [hdescribes.2]
    rfl
  | cons t later =>
    have hhead : (∀ u ∈ (t :: later).head?, u.IsCollection ∧ u.fault ≠ some .badKey) ↔
        t.IsCollection ∧ t.fault ≠ some .badKey := by simp
    rw [hhead]
    by_cases hroot : t.IsCollection
    · rw [verdict_cons hroot, faultIn_nil] at hdescribes
      cases hf : t.fault with
      | none =>
        rw [hf] at hdescribes
        obtain ⟨hret, hloaded⟩ := hdescribes
        have hl := ((fault_eq_none_iff t).mp hf).2.2
        exact ⟨fun _ ↦ ⟨hroot, by simp⟩, fun _ ↦ Or.inl ⟨hret, hloaded.represents hl⟩⟩
      | some f =>
        rw [hf] at hdescribes
        have hend : (loadTop s).1 = f.outcome := hdescribes
        have hsuffix : Tree.toEnd later <:+ (loadTop s).2.events := by
          rw [hleft]
          exact suffix_of_root hroot hrest
        rw [LoadsFirst, hend]
        cases f with
        | badKey => simp [Fault.outcome]
        | _ => exact ⟨fun _ ↦ ⟨hroot, by simp⟩, fun _ ↦ Or.inr ⟨Or.inr ⟨_, rfl⟩, hsuffix⟩⟩
    · refine ⟨?_, fun h ↦ absurd h.1 hroot⟩
      rintro (⟨hret, hrep⟩ | ⟨-, hsuffix⟩)
      · exact absurd hrep (not_represents_of_verdict hroot rfl hdescribes hret)
      · rw [hleft] at hsuffix
        exact absurd hsuffix (not_suffix_of_skip hroot hrest)

theorem loadTop_loads_first_sample :
    LoadsFirst (loadTop (.ofStream [sampleTree, listKeyTree])) [sampleTree, listKeyTree] := by
  refine (loadTop_loads_first_iff [sampleTree, listKeyTree] (.ofStream _) rfl rfl).mpr ?_
  rintro t ⟨⟩
  refine ⟨trivial, ?_⟩
  simp [sampleTree, Tree.faultEntries, Tree.fault, Tree.faultAll]

/-- A scalar as the whole document: the load succeeds and the node is empty.  With a second document
behind it, the load succeeds with that one. -/
theorem not_loads_first_scalar :
    ((loadTop (.ofStream [.scalar "a"])).1 = .returned true ∧
      (loadTop (.ofStream [.scalar "a"])).2.node = .fresh) ∧
    ((loadTop (.ofStream [.scalar "a", .sequence []])).1 = .returned true ∧
      Represents (loadTop (.ofStream [.scalar "a", .sequence []])).2.node (.sequence [])) ∧
    ¬ ∀ (ts : List Tree) (s : Loading), s.node = .fresh → s.events = Tree.streamOf ts →
      LoadsFirst (loadTop s) ts := by
  obtain ⟨rest, hrest⟩ := examined_isPrefix [] [.scalar "a"]
  obtain ⟨hone, hleft⟩ := loadTop_examined (s := .ofStream [.scalar "a"]) rest
    OrderedMap.sorted_nil hasKeys_nil hrest.symm
  obtain ⟨rest', hrest'⟩ := examined_isPrefix [] [.scalar "a", .sequence []]
  have htwo := (loadTop_examined (s := .ofStream [.scalar "a", .sequence []]) rest'
    OrderedMap.sorted_nil hasKeys_nil hrest'.symm).1
  refine ⟨hone, ⟨htwo.1, LoadedOnto.represents htwo.2 trivial⟩, fun h ↦ ?_⟩
  rcases h [.scalar "a"] (.ofStream [.scalar "a"]) rfl rfl with ⟨hret, hrep⟩ | ⟨-, hsuffix⟩
  · exact not_represents_of_verdict id rfl hone hret hrep
  · rw [hleft] at hsuffix
    exact not_suffix_of_skip id hrest hsuffix

end Yaml
end XaMain
