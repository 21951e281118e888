import XaMain.Yaml.Load

/-!
# Loading again

A node may be loaded more than once.  A load sets the type of the node, but it adds to the sequence
and to the mapping that are there, so what an earlier load has left can make a difference to it.
`load_same_as_fresh_iff` says when it does.

* `Reached` are the nodes that loads lead to, failed ones included.  The scalar and the error code
  of such a node are still those of a new one, since the root of what is loaded is a collection.
* With more keys in the node a document has the same first fault, or a repeated key before it
  (`verdict_earlier`).
* With nothing in the node its type makes no difference (`loadTopLoop_setNode`).
-/

set_option autoImplicit false

namespace XaMain
namespace Yaml

/-! ## The nodes that loads lead to -/

/-- The states of a node after any sequence of loads, however they ended.  A load with undefined
behaviour leads nowhere. -/
inductive Reached : Node → Prop
  | fresh : Reached .fresh
  | load {n : Node} (load : Load) : Reached n → (load.run (Load.start n)).1 ≠ .undefined →
      Reached (load.run (Load.start n)).2.node

/-- `n'` has the scalar and the error code of `n`, and its mapping is in order if that of `n` is. -/
structure SameMembers (n n' : Node) : Prop where
  scalar : n'.scalar = n.scalar
  errc : n'.errc = n.errc
  sorted : OrderedMap.Sorted n.mapping → OrderedMap.Sorted n'.mapping

theorem SameMembers.refl (n : Node) : SameMembers n n := ⟨rfl, rfl, id⟩

theorem SameMembers.trans {n n' n'' : Node} (h : SameMembers n n') (h' : SameMembers n' n'') :
    SameMembers n n'' :=
  ⟨h'.scalar.trans h.scalar, h'.errc.trans h.errc, fun hn ↦ h'.sorted (h.sorted hn)⟩

theorem SameMembers.setType (n : Node) (t : NodeType) : SameMembers n (n.setType t) :=
  ⟨rfl, rfl, id⟩

theorem SameMembers.setSequence (n : Node) (l : List Node) : SameMembers n (n.setSequence l) :=
  ⟨rfl, rfl, id⟩

theorem SameMembers.upsert (n : Node) (key : String) (f : Option Node → Node) :
    SameMembers n (n.setMapping (OrderedMap.upsert key f n.mapping)) :=
  ⟨rfl, rfl, fun hn ↦ OrderedMap.sorted_upsert hn key f⟩

/-- The same of the node that is loaded. -/
def KeepsMembers (s s' : Loading) : Prop := SameMembers s.node s'.node

instance : Std.Refl KeepsMembers := ⟨fun s ↦ .refl s.node⟩

instance : IsTrans Loading KeepsMembers := ⟨fun _ _ _ h h' ↦ SameMembers.trans h h'⟩

theorem nextEvent_keepsMembers : Comp.Moves KeepsMembers nextEvent :=
  nextEvent_moves fun s _ ↦ .refl s.node

theorem scalarValue_keepsMembers (event : YamlEvent) :
    Comp.Moves KeepsMembers (scalarValue event) := scalarValue_moves event fun s ↦ .refl s.node

theorem eventDelete_keepsMembers (event : YamlEvent) :
    Comp.Moves KeepsMembers (yamlEventDelete event) := fun s ↦ .refl s.node

/-- Whatever happens in an entry, it happens to the mapping. -/
theorem onEntry_keepsMembers {α : Type} (key : String) (c : Loader α) :
    Comp.Moves KeepsMembers (onEntry key c) := fun s ↦ .upsert s.node key _

theorem onBack_keepsMembers {α : Type} (c : Loader α) :
    Comp.Moves KeepsMembers (onBack c) := fun s ↦ .setSequence s.node _

theorem loadMapping_keepsMembers (fuel : Nat) : Comp.Moves KeepsMembers (loadMapping fuel) := by
  induction fuel with
  | zero => rw [loadMapping]; exact fun s ↦ .refl s.node
  | succ fuel ih =>
    rw [loadMapping]
    refine .bind nextEvent_keepsMembers fun event ↦ ?_
    split
    · exact .bind (eventDelete_keepsMembers event) fun _ ↦ .pure _
    · refine .bind (scalarValue_keepsMembers event) fun key ↦
        .bind (eventDelete_keepsMembers event) fun _ ↦ .bind (.gets _) fun mapping ↦ ?_
      split
      · exact .throw _
      · exact .bind (fun s ↦ .upsert s.node key _) fun _ ↦ .bind nextEvent_keepsMembers fun value ↦
          .bind (onEntry_keepsMembers key _) fun _ ↦ .bind (eventDelete_keepsMembers value) fun _ ↦
          ih

theorem loadSequence_keepsMembers (fuel : Nat) : Comp.Moves KeepsMembers (loadSequence fuel) := by
  induction fuel with
  | zero => rw [loadSequence]; exact fun s ↦ .refl s.node
  | succ fuel ih =>
    rw [loadSequence]
    refine .bind nextEvent_keepsMembers fun event ↦ ?_
    split
    · exact .bind (eventDelete_keepsMembers event) fun _ ↦ .pure _
    · refine .bind (fun s ↦ .setSequence s.node _) fun _ ↦ .bind (onBack_keepsMembers _)
        fun result ↦ .bind (eventDelete_keepsMembers event) fun _ ↦ ?_
      split
      · exact .pure _
      · exact ih

theorem loadTopLoop_keepsMembers (fuel : Nat) : Comp.Moves KeepsMembers (loadTopLoop fuel) := by
  induction fuel with
  | zero => rw [loadTopLoop]; exact fun s ↦ .refl s.node
  | succ fuel ih =>
    rw [loadTopLoop]
    refine .bind nextEvent_keepsMembers fun event ↦ ?_
    split
    · exact .bind (eventDelete_keepsMembers event) fun _ ↦ .pure _
    · split
      · next hstart =>
        refine .bind ?_ fun _ ↦ .bind (eventDelete_keepsMembers event) fun _ ↦ .pure _
        obtain ⟨h, d⟩ := event
        cases fuel with
        | zero => rw [loadNode]; exact fun s ↦ .refl s.node
        | succ fuel =>
          rcases hstart with rfl | rfl
          · exact .bind (fun s ↦ .setType s.node _) fun _ ↦ loadSequence_keepsMembers fuel
          · exact .bind (fun s ↦ .setType s.node _) fun _ ↦ loadMapping_keepsMembers fuel
      · exact .bind (eventDelete_keepsMembers event) fun _ ↦ ih

theorem Load.run_sameMembers (load : Load) (n : Node) :
    SameMembers n (load.run (Load.start n)).2.node := by
  cases h : load.input? with
  | none =>
    obtain ⟨text, calls, hrun, -⟩ := load.run_unopened h n
    rw [hrun]
    exact .refl n
  | some input =>
    rw [(load.run_loadTop h).2]
    exact loadTopLoop_keepsMembers _ (load.opened n input)

/-- A node that loads have led to has the scalar and the error code of a new one. -/
theorem Reached.sameMembers {n : Node} (h : Reached n) : SameMembers .fresh n := by
  induction h with
  | fresh => exact .refl _
  | load load _ _ ih => exact ih.trans (load.run_sameMembers _)

theorem Reached.sorted {n : Node} (h : Reached n) : OrderedMap.Sorted n.mapping :=
  h.sameMembers.sorted OrderedMap.sorted_nil

/-! ## More keys -/

/-- The first fault and the events up to there are `f'` and `l'`, but for a repeated key before. -/
def Earlier (f : Option Fault) (l : List EventData) (f' : Option Fault) (l' : List EventData) :
    Prop :=
  f = f' ∧ l = l' ∨ (∃ k, f = some (.duplicate k)) ∧ l.length ≤ l'.length

namespace Tree

/-- The events of the entries of a mapping that has `keys` already, up to the fault if there is
one. -/
def examinedEntries (keys : List String) (es : List (Tree × Tree)) : List EventData :=
  if (faultEntries keys es).isSome then untilFaultEntries keys es else eventsEntries es

theorem examinedEntries_duplicate {keys : List String} {k : String} (hk : k ∈ keys) (v : Tree)
    (es : List (Tree × Tree)) : examinedEntries keys ((.scalar k, v) :: es) = [.scalar k] := by
  simp [examinedEntries, faultEntries, untilFaultEntries, hk]

theorem examinedEntries_new {keys : List String} {k : String} (hk : k ∉ keys) (v : Tree)
    (es : List (Tree × Tree)) : examinedEntries keys ((.scalar k, v) :: es) =
      .scalar k :: if v.fault.isSome then v.untilFault else
        v.events ++ examinedEntries (k :: keys) es := by
  cases hv : v.fault with
  | some f => simp [examinedEntries, faultEntries, untilFaultEntries, hk, hv]
  | none =>
    cases hes : faultEntries (k :: keys) es <;>
      simp [examinedEntries, faultEntries, untilFaultEntries, eventsEntries, events, hk, hv, hes]

theorem faultEntries_earlier : ∀ (es : List (Tree × Tree)) {keys keys' : List String},
    (∀ k ∈ keys', k ∈ keys) → Earlier (faultEntries keys es) (examinedEntries keys es)
      (faultEntries keys' es) (examinedEntries keys' es)
  | [], _, _, _ => Or.inl ⟨rfl, rfl⟩
  | (.scalar k, v) :: es, keys, keys', hkeys => by
    by_cases hk' : k ∈ keys'
    · have hk : k ∈ keys := hkeys k hk'
      refine Or.inl ?_
      rw [examinedEntries_duplicate hk, examinedEntries_duplicate hk', faultEntries, faultEntries,
        if_pos hk, if_pos hk']
      exact ⟨rfl, rfl⟩
    · by_cases hk : k ∈ keys
      · -- the key is repeated only where the node has it
        refine Or.inr ⟨⟨k, if_pos hk⟩, ?_⟩
        rw [examinedEntries_duplicate hk, examinedEntries_new hk']
        simp
      · rw [examinedEntries_new hk, examinedEntries_new hk', faultEntries, faultEntries, if_neg hk,
          if_neg hk']
        cases hv : v.fault with
        | some f => exact Or.inl ⟨rfl, rfl⟩
        | none =>
          have hcons : ∀ j ∈ k :: keys', j ∈ k :: keys := fun j hj ↦
            (List.mem_cons.mp hj).elim (fun h ↦ h ▸ List.mem_cons_self)
              fun h ↦ List.mem_cons_of_mem k (hkeys j h)
          rcases faultEntries_earlier es hcons with ⟨hf, hex⟩ | ⟨hdup, hlen⟩
          · exact Or.inl (by rw [hf, hex]; exact ⟨rfl, rfl⟩)
          · exact Or.inr ⟨by simpa using hdup, by simpa using hlen⟩
  | (.alias, v) :: es, _, _, _ => Or.inl ⟨rfl, rfl⟩
  | (.sequence ts, v) :: es, _, _, _ => Or.inl ⟨rfl, rfl⟩
  | (.mapping es', v) :: es, _, _, _ => Or.inl ⟨rfl, rfl⟩

theorem examined_mapping (keys : List String) (es : List (Tree × Tree)) :
    examined keys (.mapping es) = .mappingStart :: (examinedEntries keys es ++
      if (faultEntries keys es).isSome then [] else [.mappingEnd]) := by
  cases h : faultEntries keys es <;>
    simp [examined, faultIn, untilFaultIn, examinedEntries, events, h]

theorem faultIn_earlier (keys : List String) (t : Tree) :
    Earlier (t.faultIn keys) (t.examined keys) (t.faultIn []) (t.examined []) := by
  cases t with
  | mapping es =>
    have hkeys : ∀ k ∈ ([] : List String), k ∈ keys := by simp
    rcases faultEntries_earlier es hkeys with ⟨hf, hex⟩ | ⟨⟨k, hk⟩, hlen⟩
    · refine Or.inl ?_
      rw [faultIn, faultIn, examined_mapping, examined_mapping, hf, hex]
      exact ⟨rfl, rfl⟩
    · refine Or.inr ⟨⟨k, hk⟩, ?_⟩
      have hsome : (faultEntries keys es).isSome = true := by rw [hk]; rfl
      simp only [examined_mapping, hsome, if_true, List.length_cons, List.length_append,
        List.length_nil]
      omega
  | _ => exact Or.inl ⟨rfl, rfl⟩

end Tree

/-- **A node that has keys already**: a stream comes to the same, or a key of the document is
repeated before that. -/
theorem verdict_earlier (keys : List String) (ts : List Tree) :
    verdict keys ts = verdict [] ts ∧ examined keys ts = examined [] ts ∨
      (∃ k, verdict keys ts = .fault (.duplicate k)) ∧
        (examined keys ts).length ≤ (examined [] ts).length := by
  induction ts with
  | nil => exact Or.inl ⟨rfl, rfl⟩
  | cons t ts ih =>
    simp only [verdict, examined, examinedFrom] at ih ⊢
    by_cases hroot : t.IsCollection
    · simp only [if_pos hroot]
      rcases t.faultIn_earlier keys with ⟨hf, hex⟩ | ⟨⟨k, hk⟩, hlen⟩
      · exact Or.inl (by rw [hf, hex]; exact ⟨rfl, rfl⟩)
      · exact Or.inr ⟨⟨k, by rw [hk]⟩, by simpa using hlen⟩
    · simp only [if_neg hroot]
      rcases ih with ⟨hv, hex⟩ | ⟨hv, hlen⟩
      · exact Or.inl ⟨hv, by rw [(List.cons.inj hex).2]⟩
      · exact Or.inr ⟨hv, by simpa using hlen⟩

/-! ## Nothing in the node -/

/-- A load of two nodes that differ only in their types comes to the same, or loads neither. -/
theorem loadTopLoop_setNode {n : Node} : ∀ (fuel : Nat) (s : Loading),
    (∀ t, n.setType t = s.node.setType t) →
      loadTopLoop fuel (s.setNode n) = loadTopLoop fuel s ∨
        (loadTopLoop fuel s).2.node = s.node ∧ (loadTopLoop fuel (s.setNode n)).2.node = n
  | 0, _, _ => Or.inr ⟨rfl, rfl⟩
  | fuel + 1, s, hn => by
    cases hev : s.events with
    | nil =>
      have hev' : (s.setNode n).events = [] := hev
      rw [loadTopLoop, Comp.bind_threw (nextEvent_nil hev), Comp.bind_threw (nextEvent_nil hev')]
      exact Or.inr ⟨rfl, rfl⟩
    | cons d ds =>
      have hev' : (s.setNode n).events = d :: ds := hev
      by_cases hend : d = .streamEnd
      · subst hend
        rw [loadTopLoop_end hev, loadTopLoop_end hev']
        exact Or.inr ⟨rfl, rfl⟩
      by_cases hstart : d = .sequenceStart ∨ d = .mappingStart
      · rw [loadTopLoop, Comp.bind_returned (nextEvent_cons hev),
          Comp.bind_returned (nextEvent_cons hev')]
        simp only [if_neg hend, if_pos hstart]
        cases fuel with
        | zero => exact Or.inr ⟨rfl, rfl⟩
        | succ fuel =>
          -- the type is set before anything else is done with the node
          have hsame : loadNode (fuel + 1) ⟨(s.setNode n).obtained, d⟩ ((s.setNode n).pop ds)
              = loadNode (fuel + 1) ⟨s.obtained, d⟩ (s.pop ds) := by
            rcases hstart with rfl | rfl
            · exact congrArg (fun m ↦ loadSequence fuel ((s.pop ds).setNode m)) (hn .sequence)
            · exact congrArg (fun m ↦ loadMapping fuel ((s.pop ds).setNode m)) (hn .mapping)
          left
          rw [Comp.bind_apply, hsame, Comp.bind_apply]
          rfl
      · have hskip : d ≠ .streamEnd ∧ d ≠ .sequenceStart ∧ d ≠ .mappingStart :=
          ⟨hend, fun h ↦ hstart (Or.inl h), fun h ↦ hstart (Or.inr h)⟩
        rw [loadTopLoop_skip ds hev hskip, loadTopLoop_skip ds hev' hskip]
        exact loadTopLoop_setNode fuel ((s.pop ds).log (.eventDelete s.obtained)) hn

/-- The node is new but for its type. -/
theorem Reached.setType_eq {n : Node} (hn : Reached n) (hseq : n.sequence = [])
    (hmap : n.mapping = []) (t : NodeType) : n.setType t = Node.fresh.setType t := by
  obtain ⟨hscalar, herrc, -⟩ := hn.sameMembers
  obtain ⟨type, scalar, sequence, mapping, errc⟩ := n
  subst hseq hmap hscalar herrc
  rfl

theorem length_of_representsAll : ∀ {ns : List Node} {ts : List Tree}, RepresentsAll ns ts →
    ns.length = ts.length
  | [], [], _ => rfl
  | _ :: _, [], h => by simp [RepresentsAll] at h
  | [], _ :: _, h => by simp [RepresentsAll] at h
  | _ :: ns, _ :: ts, h => by
    rw [RepresentsAll] at h
    rw [List.length_cons, List.length_cons, length_of_representsAll h.2]

/-- A mapping that new keys are added to. -/
theorem length_assignAll {m : List (String × Node)} {es : List (Tree × Tree)} {n : Node}
    (hm : RepresentsEntries m es)
    (hf : Tree.faultEntries (n.mapping.map Prod.fst) es = none) :
    (OrderedMap.assignAll m n.mapping).length = es.length + n.mapping.length := by
  obtain ⟨-, -, -, hnodup, hnew⟩ := (faultEntries_eq_none_iff es (hasKeys_map n.mapping)).mp hf
  have hkeys := keys_of_representsEntries hm
  have hdistinct := nodup_of_representsEntries hm hnodup
  have hlookup : ∀ p ∈ m, n.mapping.lookup p.1 = none := by
    intro p hp
    refine hnew p.1 ?_
    rw [← hkeys]
    exact List.mem_map_of_mem hp
  have hlen : m.length = es.length := by simpa using congrArg List.length hkeys
  rw [(OrderedMap.perm_assignAll hdistinct hlookup).length_eq, List.length_append, hlen]

/-- What is in the node before a collection is loaded is in it afterwards. -/
theorem LoadedOnto.empty {n n₁ n₂ : Node} {t : Tree}
    (hf : t.faultIn (n.mapping.map Prod.fst) = none) (hfresh : t.faultIn [] = none)
    (h₁ : LoadedOnto n t n₁) (h₂ : LoadedOnto .fresh t n₂) (hseq : n₁.sequence = n₂.sequence)
    (hmap : n₁.mapping = n₂.mapping) : n.sequence = [] ∧ n.mapping = [] := by
  cases t with
  | sequence ts =>
    obtain ⟨ns₁, hns₁, rfl⟩ := h₁
    obtain ⟨ns₂, hns₂, rfl⟩ := h₂
    have hone := length_of_representsAll hns₁
    have htwo := length_of_representsAll hns₂
    have hlen : (n.sequence ++ ns₁).length = ([] ++ ns₂).length := congrArg List.length hseq
    simp only [List.length_append, List.length_nil] at hlen
    exact ⟨List.length_eq_zero_iff.mp (by omega), hmap⟩
  | mapping es =>
    obtain ⟨m₁, hm₁, rfl⟩ := h₁
    obtain ⟨m₂, hm₂, rfl⟩ := h₂
    have hone := length_assignAll hm₁ hf
    have htwo := length_assignAll (n := .fresh) hm₂ hfresh
    have hlen : (OrderedMap.assignAll m₁ n.mapping).length
        = (OrderedMap.assignAll m₂ Node.fresh.mapping).length := congrArg List.length hmap
    have hzero : Node.fresh.mapping.length = 0 := rfl
    exact ⟨hseq, List.length_eq_zero_iff.mp (by omega)⟩
  | _ => exact h₁.elim

/-! ## The load and the load of a new node -/

/-- The same value is returned, or an exception of the same classes is thrown. -/
def SameOutcome : Outcome Exception Bool → Outcome Exception Bool → Prop
  | .returned b, .returned b' => b = b'
  | .threw e, .threw e' => e.classes = e'.classes
  | .undefined, .undefined | .exhausted, .exhausted => True
  | _, _ => False

/-- Two loads with the same outcome, and the same data in the nodes if they succeed. -/
structure SameLoad (r r' : Outcome Exception Bool × Loading) : Prop where
  outcome : SameOutcome r.1 r'.1
  data : ∀ b, r.1 = .returned b → r.2.node.type = r'.2.node.type ∧
    r.2.node.scalar = r'.2.node.scalar ∧ r.2.node.sequence = r'.2.node.sequence ∧
    r.2.node.mapping = r'.2.node.mapping

/-- Nothing that the node holds matters to a load of the documents. -/
def Forgotten (n : Node) (ts : List Tree) : Prop :=
  match verdict [] ts with
  | .nothing => n.type = .empty ∧ n.sequence = [] ∧ n.mapping = []
  | .document _ => n.sequence = [] ∧ n.mapping = []
  | .fault .badKey => verdict (n.mapping.map Prod.fst) ts = .fault .badKey
  | .fault _ => True

theorem faultIn_of_document {keys : List String} {ts : List Tree} {t : Tree}
    (h : verdict keys ts = .document t) : t.faultIn keys = none := by
  induction ts with
  | nil => cases h
  | cons u ts ih =>
    rw [verdict] at h
    split at h
    · cases hf : u.faultIn keys with
      | none =>
        rw [hf] at h
        exact Verdict.document.inj h ▸ hf
      | some f => rw [hf] at h; cases h
    · exact ih h

section SameLoad

variable {r r' q q' : Outcome Exception Bool × Loading}

theorem sameLoad_congr (h : r.1 = q.1 ∧ r.2.node = q.2.node)
    (h' : r'.1 = q'.1 ∧ r'.2.node = q'.2.node) : SameLoad r r' ↔ SameLoad q q' := by
  obtain ⟨h₁, h₂⟩ := h
  obtain ⟨h₁', h₂'⟩ := h'
  refine ⟨fun hs ↦ ⟨?_, ?_⟩, fun hs ↦ ⟨?_, ?_⟩⟩
  · exact h₁ ▸ h₁' ▸ hs.outcome
  · exact h₁ ▸ h₂ ▸ h₂' ▸ hs.data
  · exact h₁ ▸ h₁' ▸ hs.outcome
  · exact h₁ ▸ h₂ ▸ h₂' ▸ hs.data

theorem sameLoad_of_threw {text text' : String} (h : r.1 = .threw (yamlParseFail text))
    (h' : r'.1 = .threw (yamlParseFail text')) : SameLoad r r' := by
  refine ⟨?_, fun b hb ↦ ?_⟩
  · rw [h, h']
    rfl
  · rw [h] at hb
    cases hb

theorem sameLoad_of_fault {f : Fault} (h : r.1 = f.outcome) (h' : r'.1 = f.outcome) :
    SameLoad r r' := by
  refine ⟨?_, fun b hb ↦ absurd (h.symm.trans hb) (f.outcome_ne_returned b)⟩
  rw [h, h']
  cases f <;> first | rfl | trivial

end SameLoad

/-- A document is loaded as into a new node iff there is nothing in the node. -/
theorem sameLoad_document {n : Node} (hn : Reached n) {s : Loading} {t : Tree} (hs : s.node = n)
    (hf : t.faultIn (n.mapping.map Prod.fst) = none) (hfresh : t.faultIn [] = none)
    (h : (Verdict.document t).Describes n (loadTop s))
    (h' : (Verdict.document t).Describes .fresh (loadTop (s.setNode .fresh))) :
    SameLoad (loadTop s) (loadTop (s.setNode .fresh)) ↔ n.sequence = [] ∧ n.mapping = [] := by
  obtain ⟨hr, hloaded⟩ := h
  obtain ⟨hr', hloaded'⟩ := h'
  refine ⟨fun hsame ↦ ?_, fun ⟨hseq, hmap⟩ ↦ ?_⟩
  · obtain ⟨-, -, hsequence, hmapping⟩ := hsame.data true hr
    exact LoadedOnto.empty hf hfresh hloaded hloaded' hsequence hmapping
  · have htype : ∀ τ, Node.fresh.setType τ = s.node.setType τ :=
      fun τ ↦ by rw [hs, hn.setType_eq hseq hmap]
    rcases loadTopLoop_setNode (2 * s.events.length + 1) s htype with heq | ⟨-, hnode⟩
    · have heq : loadTop (s.setNode .fresh) = loadTop s := heq
      rw [heq]
      refine ⟨?_, fun b _ ↦ ⟨rfl, rfl, rfl, rfl⟩⟩
      rw [hr]
      rfl
    · -- a new node that is loaded has another type
      have hnode : (loadTop (s.setNode .fresh)).2.node = .fresh := hnode
      rw [hnode] at hloaded'
      rcases hloaded'.type_eq with heq | heq <;> cases heq

/-- The stream comes to the same for the two nodes. -/
theorem sameLoad_of_same {n : Node} (hn : Reached n) {s : Loading} (hs : s.node = n)
    {ts : List Tree} (hsame : verdict (n.mapping.map Prod.fst) ts = verdict [] ts)
    (h : (verdict (n.mapping.map Prod.fst) ts).Describes n (loadTop s))
    (h' : (verdict [] ts).Describes .fresh (loadTop (s.setNode .fresh))) :
    SameLoad (loadTop s) (loadTop (s.setNode .fresh)) ↔ Forgotten n ts := by
  rw [Forgotten]
  cases hv : verdict [] ts with
  | nothing =>
    rw [hsame, hv] at h
    rw [hv] at h'
    obtain ⟨hr, hnode⟩ := h
    obtain ⟨hr', hnode'⟩ := h'
    have hout : SameOutcome (loadTop s).1 (loadTop (s.setNode .fresh)).1 := by
      rw [hr, hr']
      rfl
    refine ⟨fun hload ↦ ?_, fun ⟨htype, hseq, hmap⟩ ↦ ⟨hout, fun b _ ↦ ?_⟩⟩
    · obtain ⟨htype, -, hseq, hmap⟩ := hload.data true hr
      rw [hnode, hnode'] at htype hseq hmap
      exact ⟨htype, hseq, hmap⟩
    · rw [hnode, hnode']
      exact ⟨htype, hn.sameMembers.scalar, hseq, hmap⟩
  | document t =>
    have hold := hsame.trans hv
    rw [hold] at h
    rw [hv] at h'
    exact sameLoad_document hn hs (faultIn_of_document hold) (faultIn_of_document hv) h h'
  | fault f =>
    rw [hsame, hv] at h
    rw [hv] at h'
    refine iff_of_true (sameLoad_of_fault h h') ?_
    cases f with
    | badKey => exact hsame.trans hv
    | _ => trivial

/-- Where a new node is loaded, there must be nothing in the node. -/
theorem Forgotten.mapping_eq_nil {n : Node} {ts : List Tree} (h : Forgotten n ts)
    (hno : ∀ f, verdict [] ts ≠ .fault f) : n.mapping = [] := by
  cases hv : verdict [] ts with
  | nothing => rw [Forgotten, hv] at h; exact h.2.2
  | document t => rw [Forgotten, hv] at h; exact h.2
  | fault f => exact absurd hv (hno f)

/-- A key of the document is in the node already, and the load of the node throws. -/
theorem sameLoad_of_duplicate {n : Node} {key : String} {ts : List Tree}
    {r r' : Outcome Exception Bool × Loading}
    (hdup : verdict (n.mapping.map Prod.fst) ts = .fault (.duplicate key))
    (h : r.1 = (Fault.duplicate key).outcome) (h' : (verdict [] ts).Describes .fresh r') :
    SameLoad r r' ↔ Forgotten n ts := by
  cases hv : verdict [] ts with
  | fault f =>
    rw [hv] at h'
    rw [Forgotten, hv]
    cases f with
    | badKey =>
      refine iff_of_false (fun hload ↦ ?_) fun hbad ↦ ?_
      · have hout := hload.outcome
        rw [h, h'] at hout
        exact hout
      · rw [hdup] at hbad
        cases hbad
    | _ => exact iff_of_true (sameLoad_of_threw h h') trivial
  | _ =>
    rw [hv] at h'
    refine iff_of_false (fun hload ↦ ?_) fun hempty ↦ ?_
    · have hout := hload.outcome
      rw [h, h'.1] at hout
      exact hout
    · have hmap := hempty.mapping_eq_nil fun f hf ↦ by rw [hv] at hf; cases hf
      rw [hmap, List.map_nil, hv] at hdup
      cases hdup

/-- **When a load is the load of a new node**: when libyaml cannot be made ready, when the stream is
cut short before the load has seen what it has to, or when nothing that the node holds matters to
it. -/
theorem load_same_as_fresh_iff (load : Load) (n : Node) (hn : Reached n) (ts : List Tree) (k : Nat)
    (hload : load.Delivers ts k) :
    SameLoad (load.run (Load.start n)) (load.run (Load.start .fresh)) ↔
      load.input? = none ∨ k < (examined [] ts).length ∨ Forgotten n ts := by
  cases h : load.input? with
  | none =>
    obtain ⟨text, calls, hr, -⟩ := load.run_unopened h n
    obtain ⟨text', calls', hr', -⟩ := load.run_unopened h .fresh
    rw [hr, hr']
    exact iff_of_true (sameLoad_of_threw rfl rfl) (Or.inl rfl)
  | some input =>
    rw [sameLoad_congr (load.run_loadTop h) (load.run_loadTop h)]
    simp only [reduceCtorEq, false_or]
    have hnew : (examined [] ts).length ≤ k ∧
          (verdict [] ts).Describes .fresh (loadTop (load.opened .fresh input)) ∨
        k < (examined [] ts).length ∧
          ∃ text, (loadTop (load.opened .fresh input)).1 = .threw (yamlParseFail text) :=
      load.loadTop_delivered (n := .fresh) OrderedMap.sorted_nil hload h
    have hold := load.loadTop_delivered hn.sorted hload h
    have hearlier := verdict_earlier (n.mapping.map Prod.fst) ts
    rcases hnew with ⟨hk, hnew⟩ | ⟨hk, text, hnew⟩
    · have hcomplete : (verdict (n.mapping.map Prod.fst) ts).Describes n
          (loadTop (load.opened n input)) := by
        rcases hold with ⟨-, hold⟩ | ⟨hk', -⟩
        · exact hold
        · rcases hearlier with ⟨-, hex⟩ | ⟨-, hlen⟩
          · rw [hex] at hk'
            omega
          · omega
      have hiff : SameLoad (loadTop (load.opened n input)) (loadTop (load.opened .fresh input)) ↔
          Forgotten n ts := by
        rcases hearlier with ⟨hsame, -⟩ | ⟨⟨key, hdup⟩, -⟩
        · exact sameLoad_of_same (s := load.opened n input) hn rfl hsame hcomplete hnew
        · rw [hdup] at hcomplete
          exact sameLoad_of_duplicate hdup hcomplete hnew
      refine hiff.trans ⟨Or.inr, fun hor ↦ hor.elim (fun hlt ↦ ?_) id⟩
      omega
    · -- the new node is not loaded, and neither is this one
      refine iff_of_true ?_ (Or.inl hk)
      rcases hold with ⟨hk', hold⟩ | ⟨-, text', hold⟩
      · rcases hearlier with ⟨-, hex⟩ | ⟨⟨key, hdup⟩, -⟩
        · rw [hex] at hk'
          omega
        · rw [hdup] at hold
          exact sameLoad_of_threw hold hnew
      · exact sameLoad_of_threw hold hnew

/-- The text `a: b`. -/
def abText : Load :=
  .string (fun _ ↦ .stream (Tree.streamOf [.mapping [(.scalar "a", .scalar "b")]]) 0) "a: b"

/-- The node after one load of `a: b`. -/
def abNode : Node := (abText.run (Load.start .fresh)).2.node

theorem reached_abNode : Reached abNode := .load abText .fresh fun h ↦ nomatch h

/-- The same text a second time: its key is there already. -/
theorem not_same_as_fresh_again :
    (abText.run (Load.start .fresh)).1 = .returned true ∧
      (abText.run (Load.start abNode)).1 = .threw (yamlParseFail "Duplicated key a") ∧
      ¬ ∀ (load : Load) (n : Node) (ts : List Tree) (k : Nat), Reached n → load.Delivers ts k →
        SameLoad (load.run (Load.start n)) (load.run (Load.start .fresh)) := by
  have hfirst : (abText.run (Load.start .fresh)).1 = .returned true := rfl
  have hsecond : (abText.run (Load.start abNode)).1
      = .threw (yamlParseFail "Duplicated key a") := rfl
  refine ⟨hfirst, hsecond, fun h ↦ ?_⟩
  have hload : abText.Delivers [.mapping [(.scalar "a", .scalar "b")]] 8 := by
    rintro input ⟨⟩
    rfl
  have hout := (h abText abNode _ 8 reached_abNode hload).outcome
  rw [hfirst, hsecond] at hout
  exact hout

/-- The node after a load of `[]`. -/
def emptyNode : Node := .ofType .sequence

/-- The text `[]`. -/
def emptyText : Load := .string (fun _ ↦ .stream (Tree.streamOf [.sequence []]) 0) "[]"

theorem load_same_as_fresh_sample :
    SameLoad (sampleText.run (Load.start emptyNode)) (sampleText.run (Load.start .fresh)) := by
  have hreached : Reached emptyNode := .load emptyText .fresh fun h ↦ nomatch h
  refine (load_same_as_fresh_iff sampleText emptyNode hreached [sampleTree] 15
    sampleText_delivers).mpr (Or.inr (Or.inr ?_))
  simp [Forgotten, verdict, sampleTree, Tree.IsCollection, Tree.faultIn, Tree.faultEntries,
    Tree.fault, Tree.faultAll, emptyNode, Node.ofType]

end Yaml
end XaMain
