import XaMain.Yaml.Node

/-!
# YAML documents

What a stream of events stands for, independently of how it is loaded.  A `Tree` is the node graph
of one document, with any node as a mapping key and with aliases, as the YAML grammar has it;
`Tree.events` is the stretch of events that libyaml delivers for it, and `Represents n t` says that
the node `n` is the tree `t`, with every mapping as the set of its entries.
-/

set_option autoImplicit false

namespace XaMain
namespace Yaml

/-- A node of a document. -/
inductive Tree where
  | scalar (value : String)
  | alias
  | sequence (items : List Tree)
  | mapping (entries : List (Tree × Tree))

namespace Tree

mutual

/-- The events of a node, its start and end events included. -/
def events : Tree → List EventData
  | .scalar v => [.scalar v]
  | .alias => [.alias]
  | .sequence ts => .sequenceStart :: (eventsAll ts ++ [.sequenceEnd])
  | .mapping es => .mappingStart :: (eventsEntries es ++ [.mappingEnd])

/-- The events of the elements of a sequence. -/
def eventsAll : List Tree → List EventData
  | [] => []
  | t :: ts => t.events ++ eventsAll ts

/-- The events of the entries of a mapping, keys and values in turn. -/
def eventsEntries : List (Tree × Tree) → List EventData
  | [] => []
  | (k, v) :: es => k.events ++ (v.events ++ eventsEntries es)

end

/-- A mapping or a sequence. -/
def IsCollection : Tree → Prop
  | .scalar _ | .alias => False
  | .sequence _ | .mapping _ => True

mutual

/-- At every depth, the keys of a mapping are scalars. -/
def ScalarKeys : Tree → Prop
  | .scalar _ | .alias => True
  | .sequence ts => ScalarKeysAll ts
  | .mapping es => ScalarKeysEntries es

/-- `ScalarKeys` of every element. -/
def ScalarKeysAll : List Tree → Prop
  | [] => True
  | t :: ts => t.ScalarKeys ∧ ScalarKeysAll ts

/-- Every key is a scalar, and `ScalarKeys` of every value. -/
def ScalarKeysEntries : List (Tree × Tree) → Prop
  | [] => True
  | (k, v) :: es => (∃ s, k = .scalar s) ∧ v.ScalarKeys ∧ ScalarKeysEntries es

end

mutual

/-- At every depth, no two keys of a mapping are equal. -/
def DistinctKeys : Tree → Prop
  | .scalar _ | .alias => True
  | .sequence ts => DistinctKeysAll ts
  | .mapping es => (es.map Prod.fst).Nodup ∧ DistinctKeysEntries es

/-- `DistinctKeys` of every element. -/
def DistinctKeysAll : List Tree → Prop
  | [] => True
  | t :: ts => t.DistinctKeys ∧ DistinctKeysAll ts

/-- `DistinctKeys` of every key and value. -/
def DistinctKeysEntries : List (Tree × Tree) → Prop
  | [] => True
  | (k, v) :: es => k.DistinctKeys ∧ v.DistinctKeys ∧ DistinctKeysEntries es

end

/-- The events of a stream with one document. -/
def stream (t : Tree) : List EventData :=
  [.streamStart, .documentStart] ++ t.events ++ [.documentEnd, .streamEnd]

/-- Every node has a first event. -/
theorem events_eq_cons (t : Tree) : ∃ d ds, t.events = d :: ds := by
  cases t <;> simp [events]

/-- The first event of a node is not the end of a sequence. -/
theorem head_ne_sequenceEnd (t : Tree) {d : EventData} {ds : List EventData}
    (h : t.events = d :: ds) : d ≠ .sequenceEnd := by
  rintro rfl
  cases t <;> simp [events] at h

end Tree

/-! ## What a node stands for -/

mutual

/-- The node `n` is the tree `t`: its type says which kind, and it holds what the tree holds and
nothing else.  A mapping is in key order, whatever the order of the entries in the document. -/
def Represents : Node → Tree → Prop
  | n, .scalar v => n.type = .scalar ∧ n.scalar = v ∧ n.sequence = [] ∧ n.mapping = []
  | _, .alias => False
  | n, .sequence ts =>
    n.type = .sequence ∧ n.scalar = "" ∧ n.mapping = [] ∧ RepresentsAll n.sequence ts
  | n, .mapping es =>
    n.type = .mapping ∧ n.scalar = "" ∧ n.sequence = [] ∧ OrderedMap.Sorted n.mapping ∧
      ∃ m, m.Perm n.mapping ∧ RepresentsEntries m es

/-- The nodes are the trees, one by one and in order. -/
def RepresentsAll : List Node → List Tree → Prop
  | [], [] => True
  | n :: ns, t :: ts => Represents n t ∧ RepresentsAll ns ts
  | _, _ => False

/-- The entries are the entries of the document, one by one and in its order. -/
def RepresentsEntries : List (String × Node) → List (Tree × Tree) → Prop
  | [], [] => True
  | (k, n) :: m, (kt, t) :: es => kt = .scalar k ∧ Represents n t ∧ RepresentsEntries m es
  | _, _ => False

end

end Yaml
end XaMain
