import XaMain.Yaml.Load
import Mathlib.Data.List.Perm.Basic

/-!
# The node of a document

`Represents` says when a node is a document; here the node is computed.  `Tree.node` is the node
that loading a document into a fresh node gives (`Load.run_node`), the error code included, and so
what can be told from the node about the document can be read off it.

* `node_of_represents` — there is no other node that is the document and has no error code set.
* `loader_plain` — the loader sets no error code.
* `load_same_node_iff` — two documents are loaded as the same node exactly when they are the same
  up to the order of the entries of their mappings.
-/

set_option autoImplicit false

namespace XaMain
namespace Yaml

/-! ## The node -/

/-- The text of a key. -/
def Tree.keyText : Tree → String
  | .scalar k => k
  | _ => ""

mutual

/-- The node of a document that can be loaded. -/
def Tree.node : Tree → Node
  | .scalar v => (Node.ofType .scalar).setScalar v
  | .alias => .fresh
  | .sequence ts => (Node.ofType .sequence).setSequence (Tree.nodes ts)
  | .mapping es => (Node.ofType .mapping).setMapping (OrderedMap.assignAll (Tree.entryNodes es) [])

/-- The nodes of the elements of a sequence. -/
def Tree.nodes : List Tree → List Node
  | [] => []
  | t :: ts => t.node :: Tree.nodes ts

/-- The keys and nodes of the entries of a mapping, in the order of the document. -/
def Tree.entryNodes : List (Tree × Tree) → List (String × Node)
  | [] => []
  | (k, v) :: es => (k.keyText, v.node) :: Tree.entryNodes es

end

/-! ## No error code is set -/

/-- Nowhere in the node an error code is set. -/
inductive Plain : Node → Prop
  | mk {n : Node} (errc : n.errc = {}) (mapping : ∀ p ∈ n.mapping, Plain p.2)
      (sequence : ∀ c ∈ n.sequence, Plain c) : Plain n

theorem Plain.errc_eq {n : Node} (h : Plain n) : n.errc = {} := by
  cases h with
  | mk errc => exact errc

theorem Plain.entry {n : Node} (h : Plain n) {p : String × Node} (hp : p ∈ n.mapping) :
    Plain p.2 := by
  cases h with
  | mk _ mapping => exact mapping p hp

theorem Plain.element {n : Node} (h : Plain n) {c : Node} (hc : c ∈ n.sequence) : Plain c := by
  cases h with
  | mk _ _ sequence => exact sequence c hc

theorem plain_ofType (t : NodeType) : Plain (.ofType t) :=
  .mk rfl (fun p hp ↦ (by cases hp)) fun c hc ↦ (by cases hc)

theorem Plain.setType {n : Node} (h : Plain n) (t : NodeType) : Plain (n.setType t) :=
  .mk h.errc_eq (fun _ hp ↦ h.entry hp) fun _ hc ↦ h.element hc

theorem Plain.setScalar {n : Node} (h : Plain n) (v : String) : Plain (n.setScalar v) :=
  .mk h.errc_eq (fun _ hp ↦ h.entry hp) fun _ hc ↦ h.element hc

/-- Writing a key keeps it, if what is written is plain. -/
theorem Plain.upsert {n : Node} (h : Plain n) (key : String) {f : Option Node → Node}
    (hnone : Plain (f none)) (hsome : ∀ c, Plain c → Plain (f (some c))) :
    Plain (n.setMapping (OrderedMap.upsert key f n.mapping)) := by
  refine .mk h.errc_eq (fun p hp ↦ ?_) fun _ hc ↦ h.element hc
  rcases OrderedMap.mem_upsert hp with rfl | ⟨b, hb, rfl⟩ | hp
  · exact hnone
  · exact hsome b (h.entry hb)
  · exact h.entry hp

theorem Plain.setSequence {n : Node} (h : Plain n) {l : List Node} (hl : ∀ c ∈ l, Plain c) :
    Plain (n.setSequence l) :=
  .mk h.errc_eq (fun _ hp ↦ h.entry hp) hl

/-- A call leaves a plain node plain. -/
def KeepsPlain (s s' : Loading) : Prop := Plain s.node → Plain s'.node

instance : Std.Refl KeepsPlain := ⟨fun _ h ↦ h⟩

instance : IsTrans Loading KeepsPlain := ⟨fun _ _ _ h h' hs ↦ h' (h hs)⟩

theorem nextEvent_plain : Comp.Moves KeepsPlain nextEvent := nextEvent_moves fun _ _ h ↦ h

theorem eventDelete_plain (event : YamlEvent) :
    Comp.Moves KeepsPlain (yamlEventDelete event) := .modify fun _ h ↦ h

theorem scalarValue_plain (event : YamlEvent) : Comp.Moves KeepsPlain (scalarValue event) :=
  scalarValue_moves event fun _ h ↦ h

theorem assignNode_plain {g : Node → Node} (h : ∀ n, Plain n → Plain (g n)) :
    Comp.Moves KeepsPlain (assignNode g) := .modify fun s hs ↦ h s.node hs

theorem onEntry_plain {α : Type} (key : String) {c : Loader α} (hc : Comp.Moves KeepsPlain c) :
    Comp.Moves KeepsPlain (onEntry key c) := by
  refine .focus hc fun s t ht hs ↦ ?_
  have hentry : Plain ((s.node.mapping.lookup key).getD .fresh) := by
    cases hlook : s.node.mapping.lookup key with
    | none => exact plain_ofType .empty
    | some n => exact hs.entry (OrderedMap.mem_of_lookup hlook)
  exact hs.upsert key (ht hentry) fun _ _ ↦ ht hentry

theorem onBack_plain {α : Type} {c : Loader α} (hc : Comp.Moves KeepsPlain c) :
    Comp.Moves KeepsPlain (onBack c) := by
  refine .focus hc fun s t ht hs ↦ ?_
  have hback : Plain (s.node.sequence.getLast?.getD .fresh) := by
    cases hlast : s.node.sequence.getLast? with
    | none => exact plain_ofType .empty
    | some n => exact hs.element (List.mem_of_getLast? hlast)
  refine hs.setSequence fun d hd ↦ ?_
  rcases List.mem_append.mp hd with hd | hd
  · exact hs.element (List.dropLast_subset _ hd)
  · rw [List.mem_singleton.mp hd]
    exact ht hback

/-- The three functions of the recursion, by induction on the fuel. -/
theorem loader_plain : ∀ fuel : Nat,
    (∀ event, Comp.Moves KeepsPlain (loadNode fuel event)) ∧
      Comp.Moves KeepsPlain (loadMapping fuel) ∧ Comp.Moves KeepsPlain (loadSequence fuel)
  | 0 => ⟨fun _ _ h ↦ h, fun _ h ↦ h, fun _ h ↦ h⟩
  | fuel + 1 => by
    obtain ⟨hnode, hmap, hseq⟩ := loader_plain fuel
    refine ⟨fun event ↦ ?_, ?_, ?_⟩
    · rw [loadNode]
      split
      · exact .bind (assignNode_plain fun _ h ↦ h.setType _) fun _ ↦
          .bind (scalarValue_plain event) fun v ↦
          .bind (assignNode_plain fun _ h ↦ h.setScalar v) fun _ ↦ .pure _
      · exact .bind (assignNode_plain fun _ h ↦ h.setType _) fun _ ↦ hmap
      · exact .bind (assignNode_plain fun _ h ↦ h.setType _) fun _ ↦ hseq
      · exact .throw _
    · rw [loadMapping]
      refine .bind nextEvent_plain fun event ↦ ?_
      split
      · exact .bind (eventDelete_plain event) fun _ ↦ .pure _
      · refine .bind (scalarValue_plain event) fun key ↦ .bind (eventDelete_plain event) fun _ ↦
          .bind (.gets _) fun mapping ↦ ?_
        split
        · exact .throw _
        · exact .bind (assignNode_plain fun _ h ↦ h.upsert key (plain_ofType .empty) fun _ hc ↦ hc)
            fun _ ↦ .bind nextEvent_plain fun value ↦
            .bind (onEntry_plain key (hnode value)) fun _ ↦
            .bind (eventDelete_plain value) fun _ ↦ hmap
    · rw [loadSequence]
      refine .bind nextEvent_plain fun event ↦ ?_
      split
      · exact .bind (eventDelete_plain event) fun _ ↦ .pure _
      · refine .bind (assignNode_plain fun n h ↦ h.setSequence fun c hc ↦ ?_) fun _ ↦
          .bind (onBack_plain (hnode event)) fun result ↦ .bind (eventDelete_plain event) fun _ ↦ ?_
        · rcases List.mem_append.mp hc with hc | hc
          · exact h.element hc
          · rw [List.mem_singleton.mp hc]
            exact plain_ofType .empty
        · split
          · exact .pure _
          · exact hseq

theorem loadTopLoop_plain (fuel : Nat) : Comp.Moves KeepsPlain (loadTopLoop fuel) := by
  induction fuel with
  | zero => exact fun _ h ↦ h
  | succ fuel ih =>
    rw [loadTopLoop]
    refine .bind nextEvent_plain fun event ↦ ?_
    split
    · exact .bind (eventDelete_plain event) fun _ ↦ .pure _
    · split
      · exact .bind ((loader_plain fuel).1 event) fun _ ↦
          .bind (eventDelete_plain event) fun _ ↦ .pure _
      · exact .bind (eventDelete_plain event) fun _ ↦ ih

/-! ## There is one such node -/

theorem Node.eq_of_members {n n' : Node} (htype : n.type = n'.type) (hscalar : n.scalar = n'.scalar)
    (hsequence : n.sequence = n'.sequence) (hmapping : n.mapping = n'.mapping)
    (herrc : n.errc = n'.errc) : n = n' := by
  cases n
  cases n'
  simp only [Node.mk.injEq]
  exact ⟨htype, hscalar, hsequence, hmapping, herrc⟩

mutual

/-- **A plain node that is the document is its node.** -/
theorem node_of_represents : ∀ (t : Tree) {n : Node}, Represents n t → Plain n → n = t.node
  | .scalar v, n, h, hp => by
    rw [Represents] at h
    rw [Tree.node]
    exact n.eq_of_members h.1 h.2.1 h.2.2.1 h.2.2.2 hp.errc_eq
  | .alias, n, h, _ => by
    rw [Represents] at h
    exact h.elim
  | .sequence ts, n, h, hp => by
    rw [Represents] at h
    rw [Tree.node]
    exact n.eq_of_members h.1 h.2.1 (nodes_of_represents ts h.2.2.2 fun _ hc ↦ hp.element hc)
      h.2.2.1 hp.errc_eq
  | .mapping es, n, h, hp => by
    rw [Represents] at h
    obtain ⟨htype, hscalar, hsequence, hsorted, m, hperm, hm⟩ := h
    have hentries := entryNodes_of_represents es hm fun p hp' ↦ hp.entry (hperm.mem_iff.mp hp')
    have hnodup : (m.map Prod.fst).Nodup := 
      (hperm.map Prod.fst).nodup_iff.mpr (OrderedMap.Sorted.nodup hsorted)
    have hassign := OrderedMap.perm_assignAll hnodup (m := []) fun _ _ ↦ rfl
    rw [List.append_nil] at hassign
    rw [Tree.node, ← hentries]
    exact n.eq_of_members htype hscalar hsequence (OrderedMap.eq_of_perm hsorted
      (OrderedMap.sorted_assignAll OrderedMap.sorted_nil m) (hperm.symm.trans hassign.symm))
      hp.errc_eq

theorem nodes_of_represents : ∀ (ts : List Tree) {ns : List Node}, RepresentsAll ns ts →
    (∀ c ∈ ns, Plain c) → ns = Tree.nodes ts
  | [], [], _, _ => rfl
  | [], _ :: _, h, _ => h.elim
  | _ :: _, [], h, _ => h.elim
  | t :: ts, n :: ns, h, hp => by
    rw [RepresentsAll] at h
    rw [Tree.nodes, ← node_of_represents t h.1 (hp n List.mem_cons_self),
      ← nodes_of_represents ts h.2 fun c hc ↦ hp c (List.mem_cons_of_mem _ hc)]

theorem entryNodes_of_represents : ∀ (es : List (Tree × Tree)) {m : List (String × Node)},
    RepresentsEntries m es → (∀ p ∈ m, Plain p.2) → m = Tree.entryNodes es
  | [], [], _, _ => rfl
  | [], _ :: _, h, _ => h.elim
  | _ :: _, [], h, _ => h.elim
  | (kt, t) :: es, (k, n) :: m, h, hp => by
    rw [RepresentsEntries] at h
    obtain ⟨rfl, ht, hes⟩ := h
    rw [Tree.entryNodes, ← node_of_represents t ht (hp (k, n) List.mem_cons_self),
      ← entryNodes_of_represents es hes fun p hp' ↦ hp p (List.mem_cons_of_mem _ hp')]
    rfl

end

/-! ## Loading a document -/

/-- libyaml can be made ready, and delivers the document `t` in full. -/
def Load.Whole (load : Load) (t : Tree) : Prop := ∃ error, load.input? = some (t.stream, error)

/-- **Loading a document into a fresh node gives its node.** -/
theorem Load.run_node (load : Load) (t : Tree) (h : load.Whole t) (hroot : t.IsCollection)
    (hfault : t.fault = none) :
    ∃ s, load.run (start .fresh) = (.returned true, s) ∧ s.node = t.node := by
  obtain ⟨error, hinput⟩ := h
  obtain ⟨hkeys, hloadable⟩ := (fault_eq_none_iff t).mp hfault
  have hload : LoadsAs t [.documentEnd, .streamEnd]
      (loadTop (load.opened .fresh (t.stream, error))) := loadTop_whole hroot hkeys rfl rfl
  obtain ⟨s, hrun, hrep, -⟩ := hload.1 hloadable
  have hplain : Plain s.node := by
    have hmoves : Plain (loadTop (load.opened .fresh (t.stream, error))).2.node :=
      loadTopLoop_plain _ _ (plain_ofType .empty)
    rwa [hrun] at hmoves
  exact ⟨_, load.run_returned hinput hrun, node_of_represents t hrep hplain⟩

/-! ## The order of the entries -/

mutual

/-- The documents are the same but for the order of the entries of mappings, at every depth. -/
def Tree.Same : Tree → Tree → Prop
  | .scalar v, .scalar v' => v = v'
  | .alias, .alias => True
  | .sequence ts, .sequence ts' => Tree.SameAll ts ts'
  | .mapping es, .mapping es' => ∃ es'', es''.Perm es' ∧ Tree.SameEntries es es''
  | _, _ => False

/-- The elements are the same, one by one and in order. -/
def Tree.SameAll : List Tree → List Tree → Prop
  | [], [] => True
  | t :: ts, t' :: ts' => t.Same t' ∧ Tree.SameAll ts ts'
  | _, _ => False

/-- The entries are the same, one by one and in order. -/
def Tree.SameEntries : List (Tree × Tree) → List (Tree × Tree) → Prop
  | [], [] => True
  | (k, v) :: es, (k', v') :: es' => k = k' ∧ v.Same v' ∧ Tree.SameEntries es es'
  | _, _ => False

end

/-- The entries of a mapping without a fault have scalars as keys and no fault in their values. -/
def EntryReadable (e : Tree × Tree) : Prop := (∃ k, e.1 = .scalar k) ∧ e.2.fault = none

theorem entryReadable_of_fault {keys : List String} {es : List (Tree × Tree)}
    (h : Tree.faultEntries keys es = none) : ∀ e ∈ es, EntryReadable e := by
  induction es generalizing keys with
  | nil => exact fun e he ↦ absurd he List.not_mem_nil
  | cons e es ih =>
    obtain ⟨k, v⟩ := e
    cases k with
    | scalar k =>
      rw [Tree.faultEntries] at h
      split_ifs at h
      rw [Option.or_eq_none_iff] at h
      rw [List.forall_mem_cons]
      exact ⟨⟨⟨k, rfl⟩, h.1⟩, ih h.2⟩
    | _ => simp [Tree.faultEntries] at h

theorem entryNodes_eq_map (es : List (Tree × Tree)) :
    Tree.entryNodes es = es.map fun e ↦ (e.1.keyText, e.2.node) := by
  induction es with
  | nil => rfl
  | cons e es ih => rw [Tree.entryNodes, List.map_cons, ih]

/-- The entries of a document without a fault are those of its node, in another order. -/
theorem perm_assignAll_entryNodes {es : List (Tree × Tree)} (h : (Tree.mapping es).fault = none) :
    (OrderedMap.assignAll (Tree.entryNodes es) []).Perm (Tree.entryNodes es) := by
  obtain ⟨hkeys, hloadable⟩ := (fault_eq_none_iff _).mp h
  have hscalar : es.map Prod.fst
      = (es.map fun e ↦ e.1.keyText).map Tree.scalar := by
    rw [List.map_map]
    refine List.map_congr_left fun e he ↦ ?_
    obtain ⟨⟨k, hk⟩, -⟩ := entryReadable_of_fault h e he
    rw [Function.comp_apply, hk, Tree.keyText]
  have hnodup : ((Tree.entryNodes es).map Prod.fst).Nodup := by
    rw [entryNodes_eq_map, List.map_map]
    exact (hscalar ▸ (loadable_mapping.mp hloadable).2.2.1).of_map Tree.scalar
  have hperm := OrderedMap.perm_assignAll hnodup (m := []) fun _ _ ↦ rfl
  rwa [List.append_nil] at hperm

/-- The entries of a mapping that is in key order already stay where they are. -/
theorem node_of_sorted {es : List (Tree × Tree)}
    (h : (es.map fun e ↦ e.1.keyText).Pairwise (· < ·)) :
    (Tree.mapping es).node = (Node.ofType .mapping).setMapping (Tree.entryNodes es) := by
  have hsorted : OrderedMap.Sorted (Tree.entryNodes es) := by
    rw [entryNodes_eq_map]
    exact List.pairwise_map.mpr (List.pairwise_map.mp h)
  have hperm := OrderedMap.perm_assignAll hsorted.nodup (m := []) fun _ _ ↦ rfl
  rw [List.append_nil] at hperm
  rw [Tree.node,
    OrderedMap.eq_of_perm (OrderedMap.sorted_assignAll OrderedMap.sorted_nil _) hsorted hperm]

/-- A list with the images of another one in any order has them in the order of some permutation. -/
theorem exists_perm_of_map_perm {α β : Type} {f : α → β} {l l' : List α}
    (h : (l.map f).Perm (l'.map f)) : ∃ l'' : List α, l''.Perm l' ∧ l''.map f = l.map f := by
  have himage : ∀ (m : List β) (l : List α), List.Forall₂ (fun b a ↦ b = f a) m l ↔ m = l.map f :=
    fun m l ↦ by rw [← List.forall₂_eq_eq_eq, List.forall₂_map_right_iff]
  obtain ⟨l'', hmap, hperm⟩ := List.perm_comp_forall₂ h ((himage _ l').mpr rfl)
  exact ⟨l'', hperm, ((himage _ l'').mp hmap).symm⟩

/-- Mappings without a fault have the same node if and only if their entries have the same nodes,
in some order. -/
theorem mapping_node_inj {es es' : List (Tree × Tree)} (h : (Tree.mapping es).fault = none)
    (h' : (Tree.mapping es').fault = none) :
    (Tree.mapping es).node = (Tree.mapping es').node ↔
      ∃ es'', es''.Perm es' ∧ Tree.entryNodes es = Tree.entryNodes es'' := by
  have hperm := perm_assignAll_entryNodes h
  have hperm' := perm_assignAll_entryNodes h'
  constructor
  · intro heq
    have hmapping : OrderedMap.assignAll (Tree.entryNodes es) []
        = OrderedMap.assignAll (Tree.entryNodes es') [] := by
      rw [Tree.node, Tree.node] at heq
      exact congrArg Node.mapping heq
    have hentries : (Tree.entryNodes es).Perm (Tree.entryNodes es') :=
      hperm.symm.trans (hmapping ▸ hperm')
    rw [entryNodes_eq_map, entryNodes_eq_map] at hentries
    obtain ⟨es'', hes'', hmap⟩ := exists_perm_of_map_perm hentries
    refine ⟨es'', hes'', ?_⟩
    rw [entryNodes_eq_map, entryNodes_eq_map, hmap]
  · rintro ⟨es'', hes'', heq⟩
    have hentries : (Tree.entryNodes es).Perm (Tree.entryNodes es') := by
      rw [heq, entryNodes_eq_map, entryNodes_eq_map]
      exact hes''.map _
    rw [Tree.node, Tree.node, OrderedMap.eq_of_perm
      (OrderedMap.sorted_assignAll OrderedMap.sorted_nil _)
      (OrderedMap.sorted_assignAll OrderedMap.sorted_nil _)
      (hperm.trans (hentries.trans hperm'.symm))]

theorem node_type_eq_scalar {t : Tree} : t.node.type = .scalar ↔ ∃ v, t = .scalar v := by
  cases t <;> simp [Tree.node, Node.ofType, Node.setScalar, Node.setSequence, Node.setMapping,
    Node.fresh]

theorem node_type_eq_sequence {t : Tree} : t.node.type = .sequence ↔ ∃ ts, t = .sequence ts := by
  cases t <;> simp [Tree.node, Node.ofType, Node.setScalar, Node.setSequence, Node.setMapping,
    Node.fresh]

theorem node_type_eq_mapping {t : Tree} : t.node.type = .mapping ↔ ∃ es, t = .mapping es := by
  cases t <;> simp [Tree.node, Node.ofType, Node.setScalar, Node.setSequence, Node.setMapping,
    Node.fresh]

mutual

/-- Documents without a fault have the same node if and only if they are the same. -/
theorem same_iff_node : ∀ (t : Tree) {t' : Tree}, t.fault = none → t'.fault = none →
    (t.Same t' ↔ t.node = t'.node)
  | .scalar v, t', _, _ => by
    constructor
    · intro h
      cases t' with
      | scalar v' => rw [show v = v' from h]
      | _ => exact h.elim
    · intro h
      have htype : t'.node.type = .scalar := h ▸ node_type_eq_scalar.mpr ⟨v, rfl⟩
      obtain ⟨v', rfl⟩ := node_type_eq_scalar.mp htype
      exact congrArg Node.scalar h
  | .alias, _, h, _ => by simp [Tree.fault] at h
  | .sequence ts, t', hts, ht' => by
    rw [Tree.fault] at hts
    constructor
    · intro h
      cases t' with
      | sequence ts' =>
        rw [Tree.node, Tree.node, (sameAll_iff_nodes ts hts ht').mp h]
      | _ => exact h.elim
    · intro h
      have htype : t'.node.type = .sequence := h ▸ node_type_eq_sequence.mpr ⟨ts, rfl⟩
      obtain ⟨ts', rfl⟩ := node_type_eq_sequence.mp htype
      exact (sameAll_iff_nodes ts hts ht').mpr (congrArg Node.sequence h)
  | .mapping es, t', hes, ht' => by
    constructor
    · intro h
      cases t' with
      | mapping es' =>
        obtain ⟨es'', hperm, hsame⟩ := h
        refine (mapping_node_inj hes ht').mpr ⟨es'', hperm, ?_⟩
        exact (sameEntries_iff_nodes es (entryReadable_of_fault hes) fun e he ↦
          entryReadable_of_fault ht' e (hperm.mem_iff.mp he)).mp hsame
      | _ => exact h.elim
    · intro h
      have htype : t'.node.type = .mapping := h ▸ node_type_eq_mapping.mpr ⟨es, rfl⟩
      obtain ⟨es', rfl⟩ := node_type_eq_mapping.mp htype
      obtain ⟨es'', hperm, heq⟩ := (mapping_node_inj hes ht').mp h
      refine ⟨es'', hperm, ?_⟩
      exact (sameEntries_iff_nodes es (entryReadable_of_fault hes) fun e he ↦
        entryReadable_of_fault ht' e (hperm.mem_iff.mp he)).mpr heq

theorem sameAll_iff_nodes : ∀ (ts : List Tree) {ts' : List Tree}, Tree.faultAll ts = none →
    Tree.faultAll ts' = none → (Tree.SameAll ts ts' ↔ Tree.nodes ts = Tree.nodes ts')
  | [], [], _, _ => ⟨fun _ ↦ rfl, fun _ ↦ trivial⟩
  | [], _ :: _, _, _ => ⟨False.elim, fun h ↦ (by simp [Tree.nodes] at h)⟩
  | _ :: _, [], _, _ => ⟨False.elim, fun h ↦ (by simp [Tree.nodes] at h)⟩
  | t :: ts, t' :: ts', h, h' => by
    rw [Tree.faultAll, Option.or_eq_none_iff] at h h'
    rw [Tree.SameAll, Tree.nodes, Tree.nodes, List.cons.injEq, same_iff_node t h.1 h'.1,
      sameAll_iff_nodes ts h.2 h'.2]

theorem sameEntries_iff_nodes : ∀ (es : List (Tree × Tree)) {es' : List (Tree × Tree)},
    (∀ e ∈ es, EntryReadable e) → (∀ e ∈ es', EntryReadable e) →
    (Tree.SameEntries es es' ↔ Tree.entryNodes es = Tree.entryNodes es')
  | [], [], _, _ => ⟨fun _ ↦ rfl, fun _ ↦ trivial⟩
  | [], _ :: _, _, _ => ⟨False.elim, fun h ↦ (by simp [Tree.entryNodes] at h)⟩
  | _ :: _, [], _, _ => ⟨False.elim, fun h ↦ (by simp [Tree.entryNodes] at h)⟩
  | (k, v) :: es, (k', v') :: es', h, h' => by
    obtain ⟨⟨⟨key, rfl⟩, hv⟩, hes⟩ := List.forall_mem_cons.mp h
    obtain ⟨⟨⟨key', rfl⟩, hv'⟩, hes'⟩ := List.forall_mem_cons.mp h'
    rw [Tree.SameEntries, Tree.entryNodes, Tree.entryNodes, List.cons.injEq, Prod.mk.injEq,
      same_iff_node v hv hv', sameEntries_iff_nodes es hes hes', Tree.scalar.injEq, and_assoc]
    rfl

end

/-- A mapping has no fault if its keys are distinct scalars that are not among `keys`, and its
values have none. -/
theorem faultEntries_of_readable {keys : List String} {es : List (Tree × Tree)}
    (h : ∀ e ∈ es, EntryReadable e) (hnodup : (es.map Prod.fst).Nodup)
    (hkeys : ∀ k ∈ keys, Tree.scalar k ∉ es.map Prod.fst) : Tree.faultEntries keys es = none := by
  induction es generalizing keys with
  | nil => rfl
  | cons e es ih =>
    obtain ⟨k, v⟩ := e
    obtain ⟨⟨⟨key, rfl⟩, hv⟩, hes⟩ := List.forall_mem_cons.mp h
    rw [List.map_cons, List.nodup_cons] at hnodup
    rw [Tree.faultEntries, if_neg fun hk ↦ hkeys key hk List.mem_cons_self, Option.or_eq_none_iff]
    refine ⟨hv, ih hes hnodup.2 fun k hk hmem ↦ ?_⟩
    rcases List.mem_cons.mp hk with rfl | hk
    · exact hnodup.1 hmem
    · exact hkeys k hk (List.mem_cons_of_mem _ hmem)

theorem Tree.Same.isCollection {t t' : Tree} (h : t.Same t') (ht' : t'.IsCollection) :
    t.IsCollection := by
  cases t <;> cases t' <;> trivial

mutual

/-- A document that is the same as one without a fault has none. -/
theorem fault_of_same : ∀ (t : Tree) {t' : Tree}, t.Same t' → t'.fault = none → t.fault = none
  | .scalar _, _, _, _ => rfl
  | .alias, .alias, _, h' => h'
  | .alias, .scalar _, h, _ | .alias, .sequence _, h, _ | .alias, .mapping _, h, _ => h.elim
  | .sequence ts, .sequence ts', h, h' => faultAll_of_same ts h h'
  | .sequence _, .scalar _, h, _ | .sequence _, .alias, h, _ | .sequence _, .mapping _, h, _ =>
    h.elim
  | .mapping es, .mapping es', h, h' => by
    obtain ⟨es'', hperm, hsame⟩ := h
    obtain ⟨hkeys, hentries⟩ := entries_of_same es hsame fun e he ↦
      entryReadable_of_fault h' e (hperm.mem_iff.mp he)
    have hnodup := (loadable_mapping.mp ((fault_eq_none_iff _).mp h').2).2.2.1
    refine faultEntries_of_readable hentries ?_ (by simp)
    rw [hkeys]
    exact (hperm.map Prod.fst).nodup_iff.mpr hnodup
  | .mapping _, .scalar _, h, _ | .mapping _, .alias, h, _ | .mapping _, .sequence _, h, _ =>
    h.elim

theorem faultAll_of_same : ∀ (ts : List Tree) {ts' : List Tree}, Tree.SameAll ts ts' →
    Tree.faultAll ts' = none → Tree.faultAll ts = none
  | [], _, _, _ => rfl
  | _ :: _, [], h, _ => h.elim
  | t :: ts, t' :: ts', h, h' => by
    rw [Tree.faultAll, Option.or_eq_none_iff] at h' ⊢
    exact ⟨fault_of_same t h.1 h'.1, faultAll_of_same ts h.2 h'.2⟩

theorem entries_of_same : ∀ (es : List (Tree × Tree)) {es' : List (Tree × Tree)},
    Tree.SameEntries es es' → (∀ e ∈ es', EntryReadable e) →
    es.map Prod.fst = es'.map Prod.fst ∧ ∀ e ∈ es, EntryReadable e
  | [], [], _, _ => ⟨rfl, fun e he ↦ absurd he List.not_mem_nil⟩
  | [], _ :: _, h, _ => h.elim
  | _ :: _, [], h, _ => h.elim
  | (k, v) :: es, (k', v') :: es', h, h' => by
    rw [Tree.SameEntries] at h
    obtain ⟨rfl, hv, hes⟩ := h
    obtain ⟨⟨hk, hv'⟩, hes'⟩ := List.forall_mem_cons.mp h'
    obtain ⟨hkeys, hentries⟩ := entries_of_same es hes hes'
    refine ⟨by rw [List.map_cons, List.map_cons, hkeys], ?_⟩
    exact List.forall_mem_cons.mpr ⟨⟨hk, fault_of_same v hv hv'⟩, hentries⟩

end

/-- **What a node remembers of its document.**  Two documents that can be loaded are loaded, from a
text or from a file, and they are loaded as the same node if and only if they are the same up to the
order of the entries of their mappings, at every depth. -/
theorem load_same_node_iff (load load' : Load) (t t' : Tree) (h : load.Whole t)
    (h' : load'.Whole t') (hroot : t.IsCollection) (hroot' : t'.IsCollection)
    (hfault : t.fault = none) (hfault' : t'.fault = none) :
    ∃ s s', load.run (Load.start .fresh) = (.returned true, s) ∧
      load'.run (Load.start .fresh) = (.returned true, s') ∧ (s.node = s'.node ↔ t.Same t') := by
  obtain ⟨s, hrun, hnode⟩ := load.run_node t h hroot hfault
  obtain ⟨s', hrun', hnode'⟩ := load'.run_node t' h' hroot' hfault'
  refine ⟨s, s', hrun, hrun', ?_⟩
  rw [hnode, hnode']
  exact (same_iff_node t hfault hfault').symm

/-- The document of `sampleText`, with the entries in another order. -/
def reorderedTree : Tree :=
  .mapping [(.scalar "a", .scalar "b"), (.scalar "z", .sequence [.scalar "x", .scalar "y"])]

/-- A file with that document. -/
def reorderedFile : Load := .file (fun _ ↦ .stream reorderedTree.stream 0) "xa.yaml"

theorem load_same_node_sample :
    (sampleText.run (Load.start .fresh)).2.node
      = (reorderedFile.run (Load.start .fresh)).2.node := by
  obtain ⟨s, s', hrun, hrun', hiff⟩ := load_same_node_iff sampleText reorderedFile sampleTree
    reorderedTree ⟨0, rfl⟩ ⟨0, rfl⟩ trivial trivial rfl rfl
  rw [hrun, hrun']
  refine hiff.mpr ⟨_, .swap _ _ _, ?_⟩
  simp [Tree.SameEntries, Tree.Same, Tree.SameAll]

end Yaml
end XaMain
