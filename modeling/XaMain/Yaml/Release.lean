import XaMain.Lib.Protocol
import XaMain.Yaml.Load

/-!
# What a load releases

A load acquires a file, a parser and one event after the other.  The rules are `resourceProtocol`:
the file and the parser are opened once and closed once, an event is obtained from a parser that is
live, and it is read and deleted while it is held.  Everything is released if no call broke a rule
and nothing is left.

The releasing calls stand at the ends of the functions that acquire.  So a load that returns has
released everything (`loader_tidy`), and a load that throws has left the parser behind, because
`load_top` never deletes it (`loadTop_sameParser`).  `load_releases_iff` says for which streams
that happens.
-/

set_option autoImplicit false

namespace XaMain
namespace Yaml

/-! ## The rules -/

/-- The life of a thing that is opened once and closed once. -/
inductive Lifetime where
  | unborn
  | live
  | gone
  deriving DecidableEq

/-- The resources of a load. -/
structure Resources where
  /-- The `FILE`. -/
  file : Lifetime
  /-- The `yaml_parser_t`. -/
  parser : Lifetime
  /-- How many events were obtained. -/
  obtained : Nat
  /-- The events that are to be deleted. -/
  held : List Nat
  deriving DecidableEq

/-- The resources after a call, if the call is allowed. -/
def Resources.step (r : Resources) : YamlCall → Option Resources
  | .fopen => if r.file = .unborn then some { r with file := .live } else none
  | .fclose => if r.file = .live then some { r with file := .gone } else none
  | .parserInitialize => if r.parser = .unborn then some { r with parser := .live } else none
  | .parserDelete => if r.parser = .live then some { r with parser := .gone } else none
  | .parse h =>
    if r.parser = .live ∧ h = r.obtained then
      some { r with obtained := r.obtained + 1, held := h :: r.held }
    else none
  | .read h => if h ∈ r.held then some r else none
  | .eventDelete h => if h ∈ r.held then some { r with held := r.held.erase h } else none

/-- The protocol of the resources. -/
def resourceProtocol : Protocol Resources YamlCall := ⟨⟨.unborn, .unborn, 0, []⟩, Resources.step⟩

/-- No call broke a rule, and what was acquired is released. -/
def Released (calls : List YamlCall) : Prop :=
  ∃ r, resourceProtocol.run calls = some r ∧ r.file ≠ .live ∧ r.parser ≠ .live ∧ r.held = []

theorem run_concat {calls : List YamlCall} {r r' : Resources} {c : YamlCall}
    (h : resourceProtocol.run calls = some r) (hc : r.step c = some r') :
    resourceProtocol.run (calls ++ [c]) = some r' := by
  rw [Protocol.run_append, h]
  exact hc

/-! ## The calls of the loader -/

/-- The calls so far are allowed, and they have led to `r`, but for the number of events. -/
def Tidy (r : Resources) (s : Loading) : Prop :=
  resourceProtocol.run s.calls = some { r with obtained := s.obtained }

/-- The resources with one more event to be deleted. -/
def Resources.hold (r : Resources) (h : Nat) : Resources := { r with held := h :: r.held }

section Tidy

variable {r : Resources}

theorem nextEvent_tidy (hr : r.parser = .live) :
    Comp.Triple True (Tidy r) nextEvent fun event ↦ Tidy (r.hold event.handle) := by
  intro s hs
  cases h : s.events with
  | nil => rw [nextEvent_nil h]; trivial
  | cons d ds =>
    rw [nextEvent_cons h]
    exact run_concat hs (if_pos ⟨hr, rfl⟩)

theorem eventDelete_tidy (event : YamlEvent) :
    Comp.Triple True (Tidy (r.hold event.handle)) (yamlEventDelete event) fun _ ↦ Tidy r := by
  have herase : (event.handle :: r.held).erase event.handle = r.held :=
    List.erase_cons_head ..
  refine .modify fun s hs ↦ run_concat hs ?_
  show (if event.handle ∈ event.handle :: r.held then
    some { r with obtained := s.obtained, held := (event.handle :: r.held).erase event.handle }
    else none) = some { r with obtained := s.obtained }
  rw [if_pos List.mem_cons_self, herase]

/-- The payload is read of an event that is held. -/
theorem scalarValue_tidy (event : YamlEvent) (h : event.handle ∈ r.held) :
    Comp.Triple True (Tidy r) (scalarValue event) fun _ ↦ Tidy r := by
  rw [scalarValue]
  refine .bind (Q := fun _ ↦ Tidy r) (.modify fun s hs ↦ run_concat hs (if_pos h)) fun _ ↦ ?_
  split
  · exact .pure fun _ hs ↦ hs
  · exact .undefined

theorem assignNode_tidy (g : Node → Node) :
    Comp.Triple True (Tidy r) (assignNode g) fun _ ↦ Tidy r := .modify fun _ hs ↦ hs

theorem onEntry_tidy {α : Type} {c : Loader α} (h : Comp.Triple True (Tidy r) c fun _ ↦ Tidy r)
    (key : String) : Comp.Triple True (Tidy r) (onEntry key c) fun _ ↦ Tidy r :=
  .focus (R := fun _ _ ↦ Tidy r) (fun _ hs ↦ h.pre fun _ ht ↦ ht ▸ hs) fun _ _ _ _ ht ↦ ht

theorem onBack_tidy {α : Type} {c : Loader α} (h : Comp.Triple True (Tidy r) c fun _ ↦ Tidy r) :
    Comp.Triple True (Tidy r) (onBack c) fun _ ↦ Tidy r :=
  .focus (R := fun _ _ ↦ Tidy r) (fun _ hs ↦ h.pre fun _ ht ↦ ht ▸ hs) fun _ _ _ _ ht ↦ ht

end Tidy

/-- **A call of the loader that returns** has deleted the events it obtained, and no other. -/
theorem loader_tidy : ∀ (fuel : Nat) {r : Resources}, r.parser = .live →
    (∀ event : YamlEvent, event.handle ∈ r.held →
      Comp.Triple True (Tidy r) (loadNode fuel event) fun _ ↦ Tidy r) ∧
    Comp.Triple True (Tidy r) (loadMapping fuel) (fun _ ↦ Tidy r) ∧
    Comp.Triple True (Tidy r) (loadSequence fuel) (fun _ ↦ Tidy r)
  | 0, r, _ => by
    refine ⟨fun event _ ↦ ?_, ?_, ?_⟩
    · rw [loadNode]; exact .exhausted fun _ _ ↦ trivial
    · rw [loadMapping]; exact .exhausted fun _ _ ↦ trivial
    · rw [loadSequence]; exact .exhausted fun _ _ ↦ trivial
  | fuel + 1, r, hr => by
    obtain ⟨hnode, hmap, hseq⟩ := loader_tidy fuel hr
    have hload : ∀ event : YamlEvent, Comp.Triple True (Tidy (r.hold event.handle))
        (loadNode fuel event) fun _ ↦ Tidy (r.hold event.handle) := fun event ↦
      (loader_tidy fuel (r := r.hold event.handle) hr).1 event List.mem_cons_self
    refine ⟨fun event hevent ↦ ?_, ?_, ?_⟩
    · rw [loadNode]
      split
      · exact .bind (assignNode_tidy _) fun _ ↦ .bind (scalarValue_tidy event hevent) fun _ ↦
          .bind (assignNode_tidy _) fun _ ↦ .pure fun _ hs ↦ hs
      · exact .bind (assignNode_tidy _) fun _ ↦ hmap
      · exact .bind (assignNode_tidy _) fun _ ↦ hseq
      · exact .throw _
    · rw [loadMapping]
      refine .bind (nextEvent_tidy hr) fun event ↦ ?_
      split
      · exact .bind (eventDelete_tidy event) fun _ ↦ .pure fun _ hs ↦ hs
      · refine .bind (scalarValue_tidy event List.mem_cons_self) fun key ↦
          .bind (eventDelete_tidy event) fun _ ↦
          .bind (Q := fun _ ↦ Tidy r) (.gets fun _ hs ↦ hs) fun mapping ↦ ?_
        split
        · exact .throw _
        · exact .bind (assignNode_tidy _) fun _ ↦ .bind (nextEvent_tidy hr) fun value ↦
            .bind (onEntry_tidy (hload value) key) fun _ ↦ .bind (eventDelete_tidy value) fun _ ↦
              hmap
    · rw [loadSequence]
      refine .bind (nextEvent_tidy hr) fun event ↦ ?_
      split
      · exact .bind (eventDelete_tidy event) fun _ ↦ .pure fun _ hs ↦ hs
      · refine .bind (assignNode_tidy _) fun _ ↦ .bind (onBack_tidy (hload event)) fun result ↦
          .bind (eventDelete_tidy event) fun _ ↦ ?_
        split
        · exact .pure fun _ hs ↦ hs
        · exact hseq

theorem loadTopLoop_tidy (fuel : Nat) {r : Resources} (hr : r.parser = .live) :
    Comp.Triple True (Tidy r) (loadTopLoop fuel) fun _ ↦ Tidy r := by
  induction fuel with
  | zero => rw [loadTopLoop]; exact .exhausted fun _ _ ↦ trivial
  | succ fuel ih =>
    rw [loadTopLoop]
    refine .bind (nextEvent_tidy hr) fun event ↦ ?_
    split
    · exact .bind (eventDelete_tidy event) fun _ ↦ .pure fun _ hs ↦ hs
    · split
      · exact .bind ((loader_tidy fuel (r := r.hold event.handle) hr).1 event List.mem_cons_self)
          fun _ ↦ .bind (eventDelete_tidy event) fun _ ↦ .pure fun _ hs ↦ hs
      · exact .bind (eventDelete_tidy event) fun _ ↦ ih

theorem loadTop_tidy {r : Resources} (hr : r.parser = .live) {s s' : Loading} {b : Bool}
    (hs : Tidy r s) (h : loadTop s = (.returned b, s')) : Tidy r s' :=
  (loadTopLoop_tidy (2 * s.events.length + 1) hr).returned hs h

/-! ## The parser -/

/-- The calls that leave the parser as it is. -/
def KeepsParser (c : YamlCall) : Prop := c ≠ .parserDelete

/-- The calls made from one state to the other leave the parser as it is. -/
def SameParser (s s' : Loading) : Prop := Appends KeepsParser s.calls s'.calls

theorem SameParser.refl (s : Loading) : SameParser s s := Std.Refl.refl s.calls

instance : Std.Refl SameParser := ⟨SameParser.refl⟩

instance : IsTrans Loading SameParser :=
  ⟨fun _ _ _ h h' ↦ IsTrans.trans (r := Appends KeepsParser) _ _ _ h h'⟩

theorem sameParser_log (s : Loading) {c : YamlCall} (hc : KeepsParser c) : SameParser s (s.log c) :=
  Appends.concat s.calls hc

theorem sameParser_closed : LoaderClosed fun c ↦ Comp.Moves SameParser c where
  pure := .pure
  bind := .bind
  throw _ := .throw _
  exhausted := .refl
  nextEvent := nextEvent_moves fun s _ ↦ Appends.concat s.calls (by simp [KeepsParser])
  scalarValue event := scalarValue_moves event fun s ↦ sameParser_log s (by simp [KeepsParser])
  eventDelete _ := fun s ↦ sameParser_log s (by simp [KeepsParser])
  mapping := .gets _
  assignNode _ := fun s ↦ .refl s
  onEntry _ _ h := fun s ↦ h (s.setNode _)
  onBack h := fun s ↦ h (s.setNode _)

/-- **`load_top` never deletes the parser.** -/
theorem loadTop_sameParser : Comp.Moves SameParser loadTop :=
  fun s ↦ sameParser_closed.loadTopLoop (2 * s.events.length + 1) s

theorem step_parserLive (r : Resources) (c : YamlCall) (r' : Resources) (hc : KeepsParser c)
    (hstep : r.step c = some r') (hr : r.parser = .live) : r'.parser = .live := by
  cases c with
  | parserDelete => exact absurd rfl hc
  | parserInitialize =>
    simp only [Resources.step] at hstep
    obtain ⟨-, heq⟩ := Option.ite_none_right_eq_some.mp hstep
    rw [← Option.some.inj heq]
  | _ =>
    simp only [Resources.step] at hstep
    obtain ⟨-, heq⟩ := Option.ite_none_right_eq_some.mp hstep
    rw [← Option.some.inj heq]
    exact hr

/-- A parser that is live and not deleted is not released. -/
theorem not_released_of_sameParser {s s' : Loading} {r : Resources}
    (hs : resourceProtocol.run s.calls = some r) (hr : r.parser = .live) (h : SameParser s s') :
    ¬ Released s'.calls := by
  rintro ⟨r', hr', -, hparser, -⟩
  exact hparser (Appends.invariant (P := resourceProtocol) (I := fun r ↦ r.parser = .live)
    step_parserLive h hs hr' hr)

/-! ## When everything is released -/

/-- The load ends, by returning or by an exception, and everything is released. -/
def Releases (load : Load) (n : Node) : Prop :=
  ∃ s, ((∃ b, load.run (Load.start n) = (.returned b, s)) ∨
    ∃ e, load.run (Load.start n) = (.threw e, s)) ∧ Released s.calls

/-- The resources when `load_top` is called. -/
def Load.acquired : Load → Resources
  | .string _ _ => ⟨.unborn, .live, 0, []⟩
  | .file _ _ => ⟨.live, .live, 0, []⟩

theorem run_opening (load : Load) :
    resourceProtocol.run load.opening = some load.acquired := by
  cases load <;> rfl

theorem acquired_parserLive (load : Load) : load.acquired.parser = .live := by cases load <;> rfl

theorem opened_tidy (load : Load) (n : Node) (input : List EventData × Nat) :
    Tidy load.acquired (load.opened n input) := by cases load <;> rfl

theorem released_closing (load : Load) {calls : List YamlCall} {k : Nat}
    (h : resourceProtocol.run calls = some { load.acquired with obtained := k }) :
    Released (calls ++ load.closing) := by
  cases load with
  | string texts text =>
    refine ⟨⟨.unborn, .gone, k, []⟩, ?_, by simp, by simp, rfl⟩
    rw [Protocol.run_append, h]
    rfl
  | file files filename =>
    refine ⟨⟨.gone, .gone, k, []⟩, ?_, by simp, by simp, rfl⟩
    rw [Protocol.run_append, h]
    rfl

section Releases

variable {load : Load} {n : Node} {input : List EventData × Nat}

theorem releases_of_returned (h : load.input? = some input) {b : Bool}
    (hr : (loadTop (load.opened n input)).1 = .returned b) : Releases load n := by
  have hrun : loadTop (load.opened n input) =
      (.returned b, (loadTop (load.opened n input)).2) := Prod.ext hr rfl
  have htidy : Tidy load.acquired (loadTop (load.opened n input)).2 :=
    loadTop_tidy (acquired_parserLive load) (opened_tidy load n input) hrun
  exact ⟨_, Or.inl ⟨b, load.run_returned h hrun⟩, released_closing load htidy⟩

theorem not_releases_of_stopped (h : load.input? = some input)
    (hr : ∀ b, (loadTop (load.opened n input)).1 ≠ .returned b) : ¬ Releases load n := by
  have hrun : load.run (Load.start n) = loadTop (load.opened n input) := load.run_stopped h hr rfl
  have hleft := not_released_of_sameParser (run_opening load) (acquired_parserLive load)
    (loadTop_sameParser (load.opened n input))
  rintro ⟨s, ⟨b, hs⟩ | ⟨e, hs⟩, hreleased⟩
  · rw [hrun] at hs
    exact hleft ((Prod.mk.inj hs).2 ▸ hreleased)
  · rw [hrun] at hs
    exact hleft ((Prod.mk.inj hs).2 ▸ hreleased)

theorem releases_of_unopened (h : load.input? = none) : Releases load n := by
  obtain ⟨text, calls, hrun, rfl | rfl⟩ := load.run_unopened h n
  · exact ⟨_, Or.inr ⟨_, hrun⟩, ⟨.unborn, .unborn, 0, []⟩, rfl, by simp, by simp, rfl⟩
  · exact ⟨_, Or.inr ⟨_, hrun⟩, ⟨.gone, .unborn, 0, []⟩, rfl, by simp, by simp, rfl⟩

end Releases

/-- **When a load releases what it acquires**: when nothing could be acquired, or when `load_top`
finds no fault in the stream and no event of it missing. -/
theorem load_releases_iff (load : Load) (n : Node) (hn : OrderedMap.Sorted n.mapping)
    (ts : List Tree) (k : Nat) (hload : load.Delivers ts k) :
    Releases load n ↔ load.input? = none ∨
      (∀ f, verdict (n.mapping.map Prod.fst) ts ≠ .fault f) ∧
        (examined (n.mapping.map Prod.fst) ts).length ≤ k := by
  cases h : load.input? with
  | none => exact iff_of_true (releases_of_unopened h) (Or.inl rfl)
  | some input =>
    simp only [reduceCtorEq, false_or]
    rcases load.loadTop_delivered hn hload h with ⟨hk, hv⟩ | ⟨hk, text, he⟩
    · cases hverdict : verdict (n.mapping.map Prod.fst) ts with
      | fault f =>
        rw [hverdict] at hv
        refine iff_of_false (not_releases_of_stopped h fun b ↦ ?_) fun hgood ↦ hgood.1 f rfl
        exact Eq.symm hv ▸ f.outcome_ne_returned b
      | _ =>
        rw [hverdict] at hv
        exact iff_of_true (releases_of_returned h hv.1) ⟨fun f ↦ by simp, hk⟩
    · refine iff_of_false (not_releases_of_stopped h fun b ↦ ?_) fun hgood ↦ ?_
      · rw [he]
        simp
      · exact absurd hgood.2 (Nat.not_le.mpr hk)

/-- The file holds the document `[*a]`. -/
def aliasFile : Load := .file (fun _ ↦ .stream (Tree.streamOf [.sequence [.alias]]) 0) "xa.yaml"

/-- A file with an alias: no event of the sequence, nor the parser, nor the file is released. -/
theorem not_releases_alias :
    (aliasFile.run (Load.start .fresh)).2.calls = [.fopen, .parserInitialize, .parse 0,
        .eventDelete 0, .parse 1, .eventDelete 1, .parse 2, .parse 3] ∧
      ¬ ∀ (load : Load) (n : Node) (ts : List Tree) (k : Nat), OrderedMap.Sorted n.mapping →
        load.Delivers ts k → Releases load n := by
  have hcalls : (aliasFile.run (Load.start .fresh)).2.calls = [.fopen, .parserInitialize, .parse 0,
      .eventDelete 0, .parse 1, .eventDelete 1, .parse 2, .parse 3] := rfl
  refine ⟨hcalls, fun h ↦ ?_⟩
  have hload : aliasFile.Delivers [.sequence [.alias]] 8 := by
    rintro input ⟨⟩
    rfl
  obtain ⟨s, hrun, r, hr, hfile, -⟩ :=
    h aliasFile .fresh [.sequence [.alias]] 8 OrderedMap.sorted_nil hload
  have hs : (aliasFile.run (Load.start .fresh)).2 = s := by
    rcases hrun with ⟨b, hb⟩ | ⟨e, he⟩
    · rw [hb]
    · rw [he]
  rw [← hs, hcalls] at hr
  exact hfile (congrArg Resources.file (Option.some.inj hr.symm))

theorem load_releases_sample : Releases sampleText .fresh := by
  refine (load_releases_iff sampleText .fresh OrderedMap.sorted_nil [sampleTree] 15
    sampleText_delivers).mpr (Or.inr ?_)
  simp [verdict, sampleTree, Tree.IsCollection, Tree.faultIn, Tree.faultEntries, Tree.fault,
    Tree.faultAll, Node.fresh, Node.ofType, examined, examinedFrom, Tree.examined, Tree.events,
    Tree.eventsAll, Tree.eventsEntries]

end Yaml
end XaMain
