import XaMain.Yaml.Node

/-!
# The YAML loader

`load_node`, `load_mapping` and `load_sequence` of `xa::yaml::node` are mutually recursive over one
event stream, and each builds the node it was called on in place.  They are modelled as calls over
`Loading`: the node under construction, what libyaml will still deliver, and the calls made on
resources so far.  A node nested in a mapping or a sequence is loaded by the same functions, run by
`Comp.focus` over that part of the node; so what a failed load leaves behind is in the state too.

The recursion is bounded by fuel.  Every turn of a loop consumes an event and makes at most one
call of `load_node`, so `load_top` runs with two units of fuel for each event and one more, and
`loadTop_ne_exhausted` in `Yaml/Stream.lean` says that this is enough.
-/

set_option autoImplicit false

namespace XaMain
namespace Yaml

/-! ## The state of a load -/

/-- A call that acquires, uses or releases a resource. -/
inductive YamlCall where
  /-- `fopen` opened the file -/
  | fopen
  /-- `fclose` -/
  | fclose
  /-- `yaml_parser_initialize` succeeded -/
  | parserInitialize
  /-- `yaml_parser_delete` -/
  | parserDelete
  /-- `yaml_parser_parse` delivered the event with this handle -/
  | parse (handle : Nat)
  /-- the payload of the event was read -/
  | read (handle : Nat)
  /-- `yaml_event_delete` -/
  | eventDelete (handle : Nat)
  deriving DecidableEq

/-- The node that is being loaded, the parser, and the calls made so far. -/
structure Loading where
  /-- `*this` -/
  node : Node
  /-- The events the parser will still deliver before it fails. -/
  events : List EventData
  /-- `parser->error` once it has failed. -/
  error : Nat := 0
  /-- How many events the parser has delivered. -/
  obtained : Nat := 0
  /-- The calls on resources, in order. -/
  calls : List YamlCall := []

/-- A call of the loader. -/
abbrev Loader := Comp Loading Exception

namespace Loading

/-- The same load, with one more call made. -/
def log (s : Loading) (c : YamlCall) : Loading := { s with calls := s.calls ++ [c] }

/-- The same load, with the next event taken out and `ds` left. -/
def pop (s : Loading) (ds : List EventData) : Loading :=
  { s with events := ds, obtained := s.obtained + 1, calls := s.calls ++ [.parse s.obtained] }

/-- The same load, with the node changed. -/
def setNode (s : Loading) (n : Node) : Loading := { s with node := n }

@[simp] theorem log_node (s : Loading) (c : YamlCall) : (s.log c).node = s.node := rfl

@[simp] theorem pop_node (s : Loading) (ds : List EventData) : (s.pop ds).node = s.node := rfl

@[simp] theorem pop_events (s : Loading) (ds : List EventData) : (s.pop ds).events = ds := rfl

@[simp] theorem setNode_node (s : Loading) (n : Node) : (s.setNode n).node = n := rfl

@[simp] theorem setNode_events (s : Loading) (n : Node) : (s.setNode n).events = s.events := rfl

end Loading

/-! ## The calls of libyaml -/

/-- `yaml_parser_parse`: the next event, or `none` for the return value 0. -/
def yamlParserParse : Loader (Option YamlEvent) := fun s ↦
  match s.events with
  | [] => (.returned none, s)
  | d :: ds => (.returned (some ⟨s.obtained, d⟩), s.pop ds)

/-- The call of `yaml_parser_parse` as every loop of the loader makes it, with the exception that
is thrown when it fails. -/
def nextEvent : Loader YamlEvent := do
  match ← yamlParserParse with
  | some event => return event
  | none =>
    let error ← Comp.gets (·.error)
    Comp.throw (yamlParseFail ("Parser error " ++ toString error))

/-- `yaml_event_delete` -/
def yamlEventDelete (event : YamlEvent) : Loader Unit :=
  Comp.modify (·.log (.eventDelete event.handle))

/-- `event.data.scalar.value`.  The payload is a union, and reading the scalar out of an event that
is not one is undefined. -/
def scalarValue (event : YamlEvent) : Loader String := do
  Comp.modify (·.log (.read event.handle))
  match event.data with
  | .scalar value => return value
  | _ => Comp.undefined

/-! ## The loader -/

/-- An assignment to members of `*this`. -/
def assignNode (g : Node → Node) : Loader Unit := Comp.modify fun s ↦ s.setNode (g s.node)

/-- Run a load on the element of the mapping that has this key. -/
def onEntry {α : Type} (key : String) : Loader α → Loader α :=
  Comp.focus (fun s ↦ s.setNode ((s.node.mapping.lookup key).getD .fresh))
    (fun t s ↦ t.setNode (s.node.setMapping (OrderedMap.assign key t.node s.node.mapping)))

/-- Run a load on the last element of the sequence. -/
def onBack {α : Type} : Loader α → Loader α :=
  Comp.focus (fun s ↦ s.setNode (s.node.sequence.getLast?.getD .fresh))
    (fun t s ↦ t.setNode (s.node.setSequence (s.node.sequence.dropLast ++ [t.node])))

mutual

/-- `node::load_node` -/
def loadNode : Nat → YamlEvent → Loader Bool
  | 0, _ => Comp.exhausted
  | fuel + 1, event =>
    match event.data with
    | .scalar _ => do
      assignNode (·.setType .scalar)
      let value ← scalarValue event
      assignNode (·.setScalar value)
      return true
    | .mappingStart => do
      assignNode (·.setType .mapping)
      loadMapping fuel
    | .sequenceStart => do
      assignNode (·.setType .sequence)
      loadSequence fuel
    | d => Comp.throw (yamlParseFail ("Unexpected node type " ++ toString d.type))

/-- `node::load_mapping`, one turn of its loop a step of the recursion.  The value of `load_node`
is dropped, as in the source. -/
def loadMapping : Nat → Loader Bool
  | 0 => Comp.exhausted
  | fuel + 1 => do
    let event ← nextEvent
    if event.data = .mappingEnd then
      yamlEventDelete event
      return true
    else
      let key ← scalarValue event
      yamlEventDelete event
      let mapping ← Comp.gets (·.node.mapping)
      if (mapping.lookup key).isSome then
        Comp.throw (yamlParseFail ("Duplicated key " ++ key))
      else
        assignNode fun n ↦ n.setMapping (OrderedMap.emplace key (.ofType .empty) n.mapping)
        let event ← nextEvent
        let _ ← onEntry key (loadNode fuel event)
        yamlEventDelete event
        loadMapping fuel

/-- `node::load_sequence`, one turn of its loop a step of the recursion. -/
def loadSequence : Nat → Loader Bool
  | 0 => Comp.exhausted
  | fuel + 1 => do
    let event ← nextEvent
    if event.data = .sequenceEnd then
      yamlEventDelete event
      return true
    else
      assignNode fun n ↦ n.setSequence (n.sequence ++ [.ofType .empty])
      let result ← onBack (loadNode fuel event)
      yamlEventDelete event
      if !result then
        return false
      else
        loadSequence fuel

end

/-- The loop of `node::load_top`. -/
def loadTopLoop : Nat → Loader Bool
  | 0 => Comp.exhausted
  | fuel + 1 => do
    let event ← nextEvent
    if event.data = .streamEnd then
      yamlEventDelete event
      return true
    else if event.data = .sequenceStart ∨ event.data = .mappingStart then
      let result ← loadNode fuel event
      yamlEventDelete event
      return result
    else
      yamlEventDelete event
      loadTopLoop fuel

/-- `node::load_top` -/
def loadTop : Loader Bool := fun s ↦ loadTopLoop (2 * s.events.length + 1) s

/-! ## One turn of a loop

What each function does with the next event, with the calls it makes left out of sight in the state
they lead to. -/

theorem nextEvent_nil {s : Loading} (h : s.events = []) :
    nextEvent s = (.threw (yamlParseFail ("Parser error " ++ toString s.error)), s) := by
  have hp : yamlParserParse s = (.returned none, s) := by rw [yamlParserParse, h]
  rw [nextEvent, Comp.bind_returned hp]
  rfl

theorem nextEvent_cons {s : Loading} {d : EventData} {ds : List EventData}
    (h : s.events = d :: ds) : nextEvent s = (.returned ⟨s.obtained, d⟩, s.pop ds) := by
  have hp : yamlParserParse s = (.returned (some ⟨s.obtained, d⟩), s.pop ds) := by
    rw [yamlParserParse, h]
  rw [nextEvent, Comp.bind_returned hp]
  rfl

@[simp] theorem assignNode_apply (g : Node → Node) (s : Loading) :
    assignNode g s = (.returned (), s.setNode (g s.node)) := rfl

@[simp] theorem yamlEventDelete_apply (event : YamlEvent) (s : Loading) :
    yamlEventDelete event s = (.returned (), s.log (.eventDelete event.handle)) := rfl

theorem scalarValue_scalar (h : Nat) (v : String) (s : Loading) :
    scalarValue ⟨h, .scalar v⟩ s = (.returned v, s.log (.read h)) := rfl

/-- Loading a new element is loading a fresh node, which then stands at the end. -/
theorem onBack_new {α : Type} (c : Loader α) (s : Loading) (n : Node) :
    onBack c (s.setNode (n.setSequence (n.sequence ++ [.ofType .empty])))
      = ((c (s.setNode .fresh)).1,
        (c (s.setNode .fresh)).2.setNode
          (n.setSequence (n.sequence ++ [(c (s.setNode .fresh)).2.node]))) := by
  have hview : (s.setNode (n.setSequence (n.sequence ++ [.ofType .empty]))).setNode
      ((n.sequence ++ [Node.ofType .empty]).getLast?.getD .fresh) = s.setNode .fresh := by
    rw [List.getLast?_concat]
    rfl
  rw [onBack, Comp.focus_apply, Loading.setNode_node, Node.setSequence_sequence, hview,
    List.dropLast_concat, Node.setSequence_setSequence]

/-- Loading the value of a new key is loading a fresh node, which then stands under that key. -/
theorem onEntry_new {α : Type} (c : Loader α) (s : Loading) {n : Node}
    (hn : OrderedMap.Sorted n.mapping) {key : String} (hkey : n.mapping.lookup key = none) :
    onEntry key c
        (s.setNode (n.setMapping (OrderedMap.emplace key (.ofType .empty) n.mapping)))
      = ((c (s.setNode .fresh)).1,
        (c (s.setNode .fresh)).2.setNode
          (n.setMapping (OrderedMap.assign key (c (s.setNode .fresh)).2.node n.mapping))) := by
  have hview : (s.setNode
      (n.setMapping (OrderedMap.emplace key (.ofType .empty) n.mapping))).setNode
      (((OrderedMap.emplace key (Node.ofType .empty) n.mapping).lookup key).getD .fresh)
        = s.setNode .fresh := by
    rw [OrderedMap.emplace, OrderedMap.lookup_upsert_self hn, hkey]
    rfl
  rw [onEntry, Comp.focus_apply, Loading.setNode_node, Node.setMapping_mapping, hview,
    OrderedMap.assign, OrderedMap.emplace, OrderedMap.upsert_upsert, Node.setMapping_setMapping]
  rfl

end Yaml
end XaMain
