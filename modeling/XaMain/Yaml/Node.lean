import XaMain.Exception
import XaMain.Lib.Comp
import XaMain.Lib.OrderedMap
import Mathlib.Data.String.Basic

/-!
# YAML nodes and libyaml's events

The data that `xa::yaml::node` is loaded into and the events it is loaded from.

A `Node` has the members of the class: the tag `type`, and a scalar, a sequence and a mapping that
are all there whatever the tag says.  `std::map` keeps its entries in key order, so `mapping` is a
list written only through `OrderedMap`.

libyaml is an event source.  Of an event the loader reads its type and, for a scalar, its value;
`EventData` is that tagged union.
-/

set_option autoImplicit false

namespace XaMain
namespace Yaml

/-- `xa::yaml::yaml_parse_fail` -/
def yamlParseFail (s : String) : Exception := ⟨[.yamlParseFail], s, none⟩

/-- `xa::yaml::type_mismatch` -/
def typeMismatch (s : String) : Exception := ⟨[.typeMismatch], s, none⟩

@[simp] theorem yamlParseFail_isA (s : String) : (yamlParseFail s).isA .yamlParseFail = true := rfl

/-! ## Nodes -/

/-- `errc::errc_t` -/
inductive Errc where
  | success
  | fileNotFound
  | yamlParserInitializeFail
  | typeMismatch
  | invalidArgument
  | notSupported
  | unknownExcept
  deriving DecidableEq

/-- `error_code`, with the values its constructor gives. -/
structure ErrorCode where
  /-- `val_` -/
  val : Errc := .success
  /-- `message_` -/
  message : String := "success"
  deriving DecidableEq

/-- `node::node_type` -/
inductive NodeType where
  | empty
  | scalar
  | sequence
  | mapping
  deriving DecidableEq

/-- The number an enumerator has, which is what a message prints. -/
def NodeType.code : NodeType → Nat
  | .empty => 0
  | .scalar => 1
  | .sequence => 2
  | .mapping => 3

/-- `xa::yaml::node` -/
structure Node where
  /-- What the node has been loaded as. -/
  type : NodeType
  /-- The text of a scalar. -/
  scalar : String
  /-- The elements of a sequence. -/
  sequence : List Node
  /-- The entries of a mapping, in ascending key order. -/
  mapping : List (String × Node)
  /-- `errc_`, set by `load_file_with_fmap`. -/
  errc : ErrorCode

/-- `node(t)`: a node of the given type with nothing in it. -/
def Node.ofType (t : NodeType) : Node := ⟨t, "", [], [], {}⟩

/-- `node()` -/
def Node.fresh : Node := .ofType .empty

section Members

variable (n : Node)

/-- `n` with another `type`. -/
def Node.setType (t : NodeType) : Node := { n with type := t }

/-- `n` with another `scalar`. -/
def Node.setScalar (v : String) : Node := { n with scalar := v }

/-- `n` with another `sequence`. -/
def Node.setSequence (l : List Node) : Node := { n with sequence := l }

/-- `n` with another `mapping`. -/
def Node.setMapping (m : List (String × Node)) : Node := { n with mapping := m }

/-- `n` with another `errc_`. -/
def Node.setErrc (e : ErrorCode) : Node := { n with errc := e }

@[simp] theorem Node.setSequence_sequence (l : List Node) : (n.setSequence l).sequence = l := rfl

@[simp] theorem Node.setMapping_mapping (m : List (String × Node)) :
    (n.setMapping m).mapping = m := rfl

@[simp] theorem Node.setMapping_setMapping (m m' : List (String × Node)) :
    (n.setMapping m).setMapping m' = n.setMapping m' := rfl

@[simp] theorem Node.setSequence_setSequence (l l' : List Node) :
    (n.setSequence l).setSequence l' = n.setSequence l' := rfl

@[simp] theorem Node.setMapping_self : n.setMapping n.mapping = n := by cases n; rfl

@[simp] theorem Node.setSequence_self : n.setSequence n.sequence = n := by cases n; rfl

end Members

/-- `as_scalar` -/
def Node.asScalar (n : Node) : Except Exception String :=
  if n.type ≠ .scalar then .error (Yaml.typeMismatch "Not a scalar node") else .ok n.scalar

/-- `as_mapping` -/
def Node.asMapping (n : Node) : Except Exception (List (String × Node)) :=
  if n.type ≠ .mapping then .error (Yaml.typeMismatch "Not a mapping node") else .ok n.mapping

/-- `as_string` -/
def Node.asString (n : Node) : Except Exception String := n.asScalar

/-- `as_integer`, which converts the `int` that `std::stoi` returns. -/
def Node.asInteger (n : Node) : Except Exception UInt32 := do
  return UInt32.ofInt (← stoi (← n.asScalar))

/-- `as_boolean` -/
def Node.asBoolean (n : Node) : Except Exception Bool := do
  return (← n.asScalar) == "true"

/-! ## Events -/

/-- What an event carries: its type, and the payload if it is a scalar. -/
inductive EventData where
  | streamStart
  | streamEnd
  | documentStart
  | documentEnd
  | alias
  | scalar (value : String)
  | sequenceStart
  | sequenceEnd
  | mappingStart
  | mappingEnd
  deriving DecidableEq

/-- `event.type`, the number of the enumerator in `yaml_event_type_t`. -/
def EventData.type : EventData → Nat
  | .streamStart => 1
  | .streamEnd => 2
  | .documentStart => 3
  | .documentEnd => 4
  | .alias => 5
  | .scalar _ => 6
  | .sequenceStart => 7
  | .sequenceEnd => 8
  | .mappingStart => 9
  | .mappingEnd => 10

/-- A `yaml_event_t` filled by `yaml_parser_parse`.  Every event that was obtained has to be
deleted, so each has a handle of its own. -/
structure YamlEvent where
  /-- How many events were obtained before this one. -/
  handle : Nat
  /-- The event itself. -/
  data : EventData

end Yaml
end XaMain
