import XaMain.Yaml.Settings
import XaMain.Yaml.LoadStream

/-!
# Loads

`load_string` and `load_file` do the same around `load_top`: they open what they need and make
libyaml ready, and once `load_top` has returned they close it again.  A `Load` is a call of either,
and `Load.run_returned` and `Load.run_stopped` say what it does in terms of `load_top`.
-/

set_option autoImplicit false

namespace XaMain
namespace Yaml

/-- A call of `load_string` or of `load_file`. -/
inductive Load where
  | string (texts : String → TextState) (text : String)
  | file (files : String → FileState) (filename : String)

namespace Load

/-- The call. -/
def run : Load → Loader Bool
  | .string texts text => loadString texts text
  | .file files filename => loadFile files filename

/-- What libyaml delivers, with the error it then fails with, if it can be made ready. -/
def input? : Load → Option (List EventData × Nat)
  | .string texts text =>
    match texts text with
    | .noParser => none
    | .stream events error => some (events, error)
  | .file files filename =>
    match files filename with
    | .missing _ | .noParser => none
    | .stream events error => some (events, error)

/-- The calls before `load_top`. -/
def opening : Load → List YamlCall
  | .string _ _ => [.parserInitialize]
  | .file _ _ => [.fopen, .parserInitialize]

/-- The calls after `load_top`. -/
def closing : Load → List YamlCall
  | .string _ _ => [.parserDelete]
  | .file _ _ => [.parserDelete, .fclose]

/-- A load into the node `n`, before anything is done. -/
def start (n : Node) : Loading := { node := n, events := [] }

/-- A load into the node `n` when `load_top` is called. -/
def opened (load : Load) (n : Node) (input : List EventData × Nat) : Loading :=
  { node := n, events := input.1, error := input.2, calls := load.opening }

variable {load : Load} {n : Node} {input : List EventData × Nat} {s : Loading}

/-- `load_top` returns, and what was opened is closed. -/
theorem run_returned (h : load.input? = some input) {b : Bool}
    (hr : loadTop (load.opened n input) = (.returned b, s)) :
    load.run (start n) = (.returned b, { s with calls := s.calls ++ load.closing }) := by
  cases load with
  | string texts text =>
    cases ht : texts text with
    | noParser => simp [input?, ht] at h
    | stream events error =>
      obtain rfl : (events, error) = input := by simpa [input?, ht] using h
      simp only [run, loadString, ht]
      exact (Comp.bind_returned hr _).trans rfl
  | file files filename =>
    cases hf : files filename with
    | stream events error =>
      obtain rfl : (events, error) = input := by simpa [input?, hf] using h
      simp only [run, loadFile, hf]
      refine (Comp.bind_returned hr _).trans ?_
      show (Outcome.returned b, { s with calls := (s.calls ++ [_]) ++ [_] }) = _
      rw [List.append_assoc]
      rfl
    | _ => simp [input?, hf] at h

/-- `load_top` does not return, and nothing is closed. -/
theorem run_stopped (h : load.input? = some input) {o : Outcome Exception Bool}
    (ho : ∀ b, o ≠ .returned b) (hr : loadTop (load.opened n input) = (o, s)) :
    load.run (start n) = (o, s) := by
  cases load with
  | string texts text =>
    cases ht : texts text with
    | noParser => simp [input?, ht] at h
    | stream events error =>
      obtain rfl : (events, error) = input := by simpa [input?, ht] using h
      simp only [run, loadString, ht]
      exact Comp.bind_stopped hr ho _
  | file files filename =>
    cases hf : files filename with
    | stream events error =>
      obtain rfl : (events, error) = input := by simpa [input?, hf] using h
      simp only [run, loadFile, hf]
      exact Comp.bind_stopped hr ho _
    | _ => simp [input?, hf] at h

/-- libyaml cannot be made ready: what was opened is closed at once. -/
theorem run_unopened (h : load.input? = none) (n : Node) :
    ∃ text calls, load.run (start n) =
        (.threw (yamlParseFail text), { start n with calls := calls }) ∧
      (calls = [] ∨ calls = [.fopen, .fclose]) := by
  cases load with
  | string texts text =>
    cases ht : texts text with
    | noParser =>
      simp only [run, loadString, ht]
      exact ⟨_, [], rfl, Or.inl rfl⟩
    | stream events error => simp [input?, ht] at h
  | file files filename =>
    cases hf : files filename with
    | missing reason =>
      simp only [run, loadFile, hf]
      exact ⟨_, [], rfl, Or.inl rfl⟩
    | noParser =>
      simp only [run, loadFile, hf]
      exact ⟨_, [.fopen, .fclose], rfl, Or.inr rfl⟩
    | stream events error => simp [input?, hf] at h

/-- The call ends as `load_top` does, and with the same node. -/
theorem run_loadTop (h : load.input? = some input) :
    (load.run (start n)).1 = (loadTop (load.opened n input)).1 ∧
      (load.run (start n)).2.node = (loadTop (load.opened n input)).2.node := by
  rcases hr : loadTop (load.opened n input) with ⟨o, s⟩
  cases o with
  | returned b => rw [load.run_returned h hr]; exact ⟨rfl, rfl⟩
  | _ => rw [load.run_stopped h (by simp) hr]; exact ⟨rfl, rfl⟩

/-- A load of the documents `ts`, of which libyaml delivers the first `k` events. -/
def Delivers (load : Load) (ts : List Tree) (k : Nat) : Prop :=
  ∀ input, load.input? = some input → input.1 = (Tree.streamOf ts).take k

/-- `load_top` on the first events of a stream: if they are enough it does what the verdict says,
and if they are not it throws. -/
theorem loadTop_delivered {ts : List Tree} {k : Nat} (hn : OrderedMap.Sorted n.mapping)
    (hload : load.Delivers ts k) (h : load.input? = some input) :
    (examined (n.mapping.map Prod.fst) ts).length ≤ k ∧
        (verdict (n.mapping.map Prod.fst) ts).Describes n (loadTop (load.opened n input)) ∨
      k < (examined (n.mapping.map Prod.fst) ts).length ∧
        ∃ text, (loadTop (load.opened n input)).1 = .threw (yamlParseFail text) := by
  have hkeys := hasKeys_map n.mapping
  have hevents : (load.opened n input).events = (Tree.streamOf ts).take k := hload input h
  rcases Nat.lt_or_ge k (examined (n.mapping.map Prod.fst) ts).length with hk | hk
  · obtain ⟨e, he, -⟩ := loadTop_short hk hn hkeys hevents
    obtain ⟨text, rfl⟩ := loadTop_throws _ e he
    exact Or.inr ⟨hk, text, he⟩
  · obtain ⟨rest, hrest⟩ :=
      List.prefix_take_iff.mpr ⟨examined_isPrefix (n.mapping.map Prod.fst) ts, hk⟩
    exact Or.inl ⟨hk, (loadTop_examined rest hn hkeys (hevents.trans hrest.symm)).1⟩

end Load

/-- The text `z: [x, y]`, `a: b`. -/
def sampleText : Load := .string (fun _ ↦ .stream (Tree.streamOf [sampleTree]) 0) "z: [x, y]\na: b"

theorem sampleText_delivers : sampleText.Delivers [sampleTree] 15 := by
  rintro input ⟨⟩
  rfl

end Yaml
end XaMain
