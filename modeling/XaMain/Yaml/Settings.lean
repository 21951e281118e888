import XaMain.Yaml.Loader

/-!
# Configuration files

`load_string`, `load_file`, `load_file_with_fmap` and `load_settings` of `xa::yaml::node`: a text or
a file is loaded into the node, and the entries of the sections of a file are handed one by one to
the handler of the section.

A handler is any function of the key and of the value, which it gets by reference and may change,
over an environment `σ` of its own.  The table of handlers is a `std::map` of `std::function`s, so a
section may have no entry in it or an empty one, and `parsers[mkey]` adds an empty one where there
was none.  `Dispatch.trace` records the calls of handlers that were made, each with its result.
-/

set_option autoImplicit false

namespace XaMain
namespace Yaml

/-! ## Loading a text or a file -/

/-- What becomes of a text. -/
inductive TextState where
  /-- `yaml_parser_initialize` fails. -/
  | noParser
  /-- libyaml delivers these events of it and then fails with `error`. -/
  | stream (events : List EventData) (error : Nat)

/-- What becomes of a file name. -/
inductive FileState where
  /-- `fopen` fails, with this `strerror(errno)`. -/
  | missing (reason : String)
  /-- The file is there, and `yaml_parser_initialize` fails. -/
  | noParser
  /-- The file is there, and libyaml delivers these events of it and then fails with `error`. -/
  | stream (events : List EventData) (error : Nat)

/-- A call on a resource. -/
def resourceCall (c : YamlCall) : Loader Unit := Comp.modify (·.log c)

/-- `node::load_string` -/
def loadString (texts : String → TextState) (text : String) : Loader Bool :=
  match texts text with
  | .noParser => Comp.throw (yamlParseFail "Can't initialize YAML parser")
  | .stream events error => do
    resourceCall .parserInitialize
    Comp.modify fun s ↦ { s with events := events, error := error }
    let result ← loadTop
    resourceCall .parserDelete
    return result

/-- `node::load_file` -/
def loadFile (files : String → FileState) (filename : String) : Loader Bool :=
  match files filename with
  | .missing reason =>
    Comp.throw (yamlParseFail ("Can't open config " ++ filename ++ ": " ++ reason))
  | .noParser => do
    resourceCall .fopen
    resourceCall .fclose
    Comp.throw (yamlParseFail "Can't initialize YAML parser")
  | .stream events error => do
    resourceCall .fopen
    resourceCall .parserInitialize
    Comp.modify fun s ↦ { s with events := events, error := error }
    let result ← loadTop
    resourceCall .parserDelete
    resourceCall .fclose
    return result

/-! ## Handlers -/

section Dispatch

variable {σ : Type}

/-- A handler that has been given a value: `fn_body` is an `Option` of these, `none` being the empty
`std::function`. -/
abbrev Handler (σ : Type) := String → Node → σ → Except Exception Bool × Node × σ

/-- `std::map<std::string, fn_body>` -/
abbrev Parsers (σ : Type) := OrderedMap String (Option (Handler σ))

/-- The handler of a section, if it has one that can be called. -/
def Parsers.handler (parsers : Parsers σ) (mkey : String) : Option (Handler σ) :=
  (parsers.find? mkey).join

/-- A call of a handler: of which section, and with which arguments. -/
structure Call where
  /-- The section. -/
  mkey : String
  /-- The first argument. -/
  key : String
  /-- The second argument, as it was passed. -/
  value : Node

/-- A call that was made, with what the handler did. -/
structure Invocation extends Call where
  /-- The value it returned, or what it threw. -/
  result : Except Exception Bool

/-- What the calls of handlers read and change. -/
structure Dispatch (σ : Type) where
  /-- The table. -/
  parsers : Parsers σ
  /-- The environment of the handlers. -/
  env : σ
  /-- The calls made so far. -/
  trace : List Invocation := []

/-- `parsers[mkey](key, value)`, over the value and the table. -/
def callParser (mkey key : String) : Comp (Node × Dispatch σ) Exception Bool := fun (value, s) ↦
  let parsers : Parsers σ := s.parsers.insertNew mkey none
  match parsers.handler mkey with
  | none => (.threw badFunctionCall, value, { s with parsers := parsers })
  | some f =>
    let (result, value', env) := f key value s.env
    (.ofExcept result, value',
      { parsers := parsers, env := env, trace := s.trace ++ [⟨⟨mkey, key, value⟩, result⟩] })

/-- What is thrown when a handler returns `false`. -/
def parserFailed (mkey key : String) (value : Node) : Exception :=
  yamlParseFail ("parser failed : mkey " ++ mkey ++ ", key " ++ key
    ++ " with node type " ++ toString value.type.code)

/-- The call, and the exception that is thrown when the handler refuses the value. -/
def runParser (mkey key : String) : Comp (Node × Dispatch σ) Exception Unit := do
  if !(← callParser mkey key) then
    let value ← Comp.gets Prod.fst
    Comp.throw (parserFailed mkey key value)

/-- The body of the inner loop: one entry of a section that is a mapping. -/
def dispatchEntry (mkey key : String) : Comp (Node × Dispatch σ) Exception Unit := do
  let type ← Comp.gets fun s ↦ s.1.type
  if type = .empty then
    return ()
  else
    runParser mkey key

/-- Run a loop over the mapping of the node. -/
def onMapping (loop : List (String × Node) → Dispatch σ →
    Outcome Exception Unit × List (String × Node) × Dispatch σ) :
    Comp (Node × Dispatch σ) Exception Unit := fun s ↦
  let r := loop s.1.mapping s.2
  (r.1, s.1.setMapping r.2.1, r.2.2)

/-- The body of the outer loop: one section of the file. -/
def dispatchSection (mkey : String) : Comp (Node × Dispatch σ) Exception Unit := do
  let type ← Comp.gets fun s ↦ s.1.type
  match type with
  | .empty => Comp.throw (yamlParseFail ("Value is empty on " ++ mkey))
  | .scalar => return ()
  | .sequence => runParser mkey mkey
  | .mapping => onMapping (Comp.forEntries (dispatchEntry mkey))

/-! ## Settings -/

/-- Run a load on the node. -/
def onLoading {α : Type} : Loader α → Comp (Loading × Dispatch σ) Exception α :=
  Comp.focus (fun s ↦ s.1) (fun t s ↦ (t, s.2))

/-- Run calls of handlers on the node. -/
def onNode {α : Type} :
    Comp (Node × Dispatch σ) Exception α → Comp (Loading × Dispatch σ) Exception α :=
  Comp.focus (fun s ↦ (s.1.node, s.2)) (fun t s ↦ (s.1.setNode t.1, t.2))

/-- `errc_.val_ = val; errc_.message_ = message;` -/
def setErrc (val : Errc) (message : String) : Comp (Loading × Dispatch σ) Exception Unit :=
  Comp.modify fun s ↦ (s.1.setNode (s.1.node.setErrc ⟨val, message⟩), s.2)

/-- The catch clauses of `load_file_with_fmap`. -/
def catchClauses (e : Exception) : Comp (Loading × Dispatch σ) Exception Bool := do
  if e.isA .yamlParseFail then
    setErrc .yamlParserInitializeFail e.what
    return false
  else if e.isA .typeMismatch then
    setErrc .typeMismatch ("Type mismatch. => " ++ e.what)
    return false
  else if e.isA .invalidArgument then
    setErrc .invalidArgument ("There is error when change string to number. => " ++ e.what)
    return false
  else if e.isA .badFunctionCall then
    setErrc .notSupported ("There is no parser function by key. => " ++ e.what)
    return false
  else
    setErrc .unknownExcept "Unkonwn excpetion occured, please check your code."
    return false

/-- `node::load_file_with_fmap` -/
def loadFileWithFmap (files : String → FileState) (filename : String) :
    Comp (Loading × Dispatch σ) Exception Bool :=
  Comp.tryCatch
    (do
      let _ ← onLoading (loadFile files filename)
      let node ← Comp.gets fun s ↦ s.1.node
      let _ ← Comp.ofExcept node.asMapping
      onNode (onMapping (Comp.forEntries dispatchSection))
      setErrc .success "success"
      return true)
    catchClauses

/-- `node::load_settings` -/
def loadSettings (files : String → FileState) (filename : String) :
    Comp (Loading × Dispatch σ) Exception Bool := do
  let result ← loadFileWithFmap files filename
  let errc ← Comp.gets fun s ↦ s.1.node.errc
  if errc.val = .yamlParserInitializeFail then
    return false
  else
    return result

end Dispatch

end Yaml
end XaMain
