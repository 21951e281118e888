import XaMain.Yaml.Settings
import XaMain.Yaml.Stream

/-!
# Which handlers are called

The settings of a program are a document whose root is a mapping, and its tree says which calls of
handlers it asks for: `Node.calls`, in key order of the sections and then of their entries.  `Runs`
is what making these calls one after the other comes to, for any table of handlers: a log of the
calls that were made, and how the series ended.

## What is here

* `Runs`, with what can be read off it: the calls made are an initial part of those asked for
  (`Runs.made`), all but the last returned `true` (`Runs.accepted`), and it says of the last one, or
  of the one that was not made, why the series ended (`Runs.ending`).
* `forEntries_makes` and `dispatchSection_makes` — the two loops of `load_file_with_fmap` run the
  calls of the tree.
* `loadSettings_dispatch` — the calls `load_settings` makes, its result and its error code, for
  every file and every table.
-/

set_option autoImplicit false

namespace XaMain
namespace Yaml

/-! ## The calls a document asks for -/

/-- The calls for one section. -/
def sectionCalls : String × Node → List Call
  | (mkey, value) =>
    match value.type with
    | .sequence => [⟨mkey, mkey, value⟩]
    | .mapping => value.mapping.map fun entry ↦ ⟨mkey, entry.1, entry.2⟩
    | _ => []

/-- The calls for a document: none unless its root is a mapping. -/
def Node.calls (n : Node) : List Call :=
  if n.type = .mapping then n.mapping.flatMap sectionCalls else []

/-- The order of the calls: by section, and by key within a section. -/
def Call.Before (c d : Call) : Prop := c.mkey < d.mkey ∨ c.mkey = d.mkey ∧ c.key < d.key

theorem mkey_of_mem_sectionCalls {mkey : String} {value : Node} {c : Call}
    (h : c ∈ sectionCalls (mkey, value)) : c.mkey = mkey := by
  rw [sectionCalls] at h
  split at h
  · rw [List.mem_singleton.mp h]
  · obtain ⟨entry, _, rfl⟩ := List.mem_map.mp h
    rfl
  · exact absurd h List.not_mem_nil

theorem sectionCalls_ordered {mkey : String} {value : Node}
    (h : OrderedMap.Sorted value.mapping) : (sectionCalls (mkey, value)).Pairwise Call.Before := by
  rw [sectionCalls]
  split
  · exact List.pairwise_singleton _ _
  · rw [List.pairwise_map]
    exact h.imp fun hlt ↦ Or.inr ⟨rfl, hlt⟩
  · exact List.Pairwise.nil

/-- The calls of a loaded document are in strictly ascending order, so no two are the same. -/
theorem Loaded.calls_ordered {n : Node} (h : Loaded n) : n.calls.Pairwise Call.Before := by
  rw [Node.calls]
  split
  · rw [List.pairwise_flatMap]
    refine ⟨fun p hp ↦ sectionCalls_ordered (h.entry hp).sorted, ?_⟩
    refine h.sorted.imp fun {p q} hlt c hc d hd ↦ Or.inl ?_
    rw [mkey_of_mem_sectionCalls hc, mkey_of_mem_sectionCalls hd]
    exact hlt
  · exact List.Pairwise.nil

/-! ## Making them -/

section Runs

variable {σ : Type} {table : String → Option (Handler σ)} {calls calls' : List Call}
variable {env env' env'' : σ} {log log' : List Invocation} {o o' : Outcome Exception Unit}

/-- **A series of calls of handlers**, each over the environment the one before left, up to the
first that is refused, that throws, or that finds no handler. -/
inductive Runs (table : String → Option (Handler σ)) :
    List Call → σ → List Invocation → Outcome Exception Unit → σ → Prop where
  | done (env : σ) : Runs table [] env [] (.returned ()) env
  | accepted {c : Call} {calls : List Call} {f : Handler σ} {value : Node} {env env' env'' : σ}
      {log : List Invocation} {o : Outcome Exception Unit} (hf : table c.mkey = some f)
      (hr : f c.key c.value env = (.ok true, value, env'))
      (rest : Runs table calls env' log o env'') :
      Runs table (c :: calls) env (⟨c, .ok true⟩ :: log) o env''
  | refused {c : Call} {f : Handler σ} {value : Node} {env env' : σ} (calls : List Call)
      (hf : table c.mkey = some f) (hr : f c.key c.value env = (.ok false, value, env')) :
      Runs table (c :: calls) env [⟨c, .ok false⟩] (.threw (parserFailed c.mkey c.key value)) env'
  | raised {c : Call} {f : Handler σ} {value : Node} {env env' : σ} {e : Exception}
      (calls : List Call) (hf : table c.mkey = some f)
      (hr : f c.key c.value env = (.error e, value, env')) :
      Runs table (c :: calls) env [⟨c, .error e⟩] (.threw e) env'
  | missing {c : Call} (calls : List Call) (env : σ) (hf : table c.mkey = none) :
      Runs table (c :: calls) env [] (.threw badFunctionCall) env

/-- A series that came to its end goes on with the next one. -/
theorem Runs.append (h : Runs table calls env log (.returned ()) env')
    (h' : Runs table calls' env' log' o env'') :
    Runs table (calls ++ calls') env (log ++ log') o env'' := by
  generalize ho : Outcome.returned () = o₀ at h
  induction h with
  | done env => exact h'
  | accepted hf hr _ ih => exact .accepted hf hr (ih h' ho)
  | refused => simp at ho
  | raised => simp at ho
  | missing => simp at ho

/-- A series that broke off makes none of the calls after it. -/
theorem Runs.stopped (h : Runs table calls env log o env') (ho : o ≠ .returned ())
    (calls' : List Call) : Runs table (calls ++ calls') env log o env' := by
  induction h with
  | done env => exact absurd rfl ho
  | accepted hf hr _ ih => exact .accepted hf hr (ih ho)
  | refused _ hf hr => exact .refused _ hf hr
  | raised _ hf hr => exact .raised _ hf hr
  | missing _ env hf => exact .missing _ env hf

/-- The calls that are made are an initial part of the calls. -/
theorem Runs.made (h : Runs table calls env log o env') :
    log.map Invocation.toCall <+: calls := by
  induction h with
  | done => exact List.nil_prefix
  | accepted _ _ _ ih => exact List.cons_prefix_cons.mpr ⟨rfl, ih⟩
  | refused => exact List.cons_prefix_cons.mpr ⟨rfl, List.nil_prefix⟩
  | raised => exact List.cons_prefix_cons.mpr ⟨rfl, List.nil_prefix⟩
  | missing => exact List.nil_prefix

/-- Every call that is made but the last returned `true`. -/
theorem Runs.accepted_before (h : Runs table calls env log o env') :
    ∀ i ∈ log.dropLast, i.result = .ok true := by
  induction h with
  | @accepted c _ _ _ _ _ _ log _ _ _ _ ih =>
    intro i hi
    cases log with
    | nil => simp at hi
    | cons j log =>
      rcases List.mem_cons.mp (List.dropLast_cons_cons ▸ hi) with rfl | hi
      · rfl
      · exact ih i hi
  | _ => intro i hi; simp at hi

/-- **How a series ends.**  Either all its calls were made and returned `true`, or it throws what
its last call threw, or what a refusal throws, or it throws as the next call has no handler. -/
inductive Ending (table : String → Option (Handler σ)) (calls : List Call) (log : List Invocation) :
    Outcome Exception Unit → Prop where
  | all (hmade : log.map Invocation.toCall = calls) (hok : ∀ i ∈ log, i.result = .ok true) :
      Ending table calls log (.returned ())
  | refused {i : Invocation} (value : Node) (hlast : log.getLast? = some i)
      (hi : i.result = .ok false) :
      Ending table calls log (.threw (parserFailed i.mkey i.key value))
  | raised {i : Invocation} {e : Exception} (hlast : log.getLast? = some i)
      (hi : i.result = .error e) : Ending table calls log (.threw e)
  | missing {c : Call} (hok : ∀ i ∈ log, i.result = .ok true) (hnext : calls[log.length]? = some c)
      (hc : table c.mkey = none) : Ending table calls log (.threw badFunctionCall)

theorem Runs.ending (h : Runs table calls env log o env') : Ending table calls log o := by
  induction h with
  | done => exact .all rfl (by simp)
  | @accepted c _ _ _ _ _ _ log _ _ _ _ ih =>
    have hcons : ∀ {i : Invocation}, log.getLast? = some i →
        ((⟨c, .ok true⟩ : Invocation) :: log).getLast? = some i := by
      intro i hi
      rw [List.getLast?_cons, hi]
      rfl
    cases ih with
    | all hmade hok => exact .all (by rw [List.map_cons, hmade]) (by simpa using hok)
    | refused value hlast hi => exact .refused value (hcons hlast) hi
    | raised hlast hi => exact .raised (hcons hlast) hi
    | missing hok hnext hc => exact .missing (by simpa using hok) (by simpa using hnext) hc
  | @refused c _ value => exact @Ending.refused _ _ _ _ ⟨c, .ok false⟩ value rfl rfl
  | @raised c => exact @Ending.raised _ _ _ _ ⟨c, _⟩ _ rfl rfl
  | missing _ _ hf => exact .missing (by simp) rfl hf

end Runs

/-! ## The loops make them -/

section Makes

variable {σ : Type} {table : String → Option (Handler σ)} {calls calls' : List Call}
variable {d d' d'' : Dispatch σ} {o : Outcome Exception Unit}

/-- From `d` to `d'` the calls `calls` of the handlers of `table` were made, and ended with `o`. -/
def Makes (table : String → Option (Handler σ)) (calls : List Call) (o : Outcome Exception Unit)
    (d d' : Dispatch σ) : Prop :=
  d'.parsers.handler = table ∧
    ∃ log, Runs table calls d.env log o d'.env ∧ d'.trace = d.trace ++ log

theorem Makes.none (d : Dispatch σ) : Makes d.parsers.handler [] (.returned ()) d d :=
  ⟨rfl, [], .done _, (List.append_nil _).symm⟩

theorem Makes.append (h : Makes table calls (.returned ()) d d')
    (h' : Makes table calls' o d' d'') :
    Makes table (calls ++ calls') o d d'' := by
  obtain ⟨-, log, hrun, htrace⟩ := h
  obtain ⟨htable, log', hrun', htrace'⟩ := h'
  exact ⟨htable, log ++ log', hrun.append hrun', by rw [htrace', htrace, List.append_assoc]⟩

theorem Makes.stopped (h : Makes table calls o d d') (ho : o ≠ .returned ()) (calls' : List Call) :
    Makes table (calls ++ calls') o d d' := by
  obtain ⟨htable, log, hrun, htrace⟩ := h
  exact ⟨htable, log, hrun.stopped ho calls', htrace⟩

/-- The empty entry that `parsers[mkey]` may add is no handler that could be called. -/
theorem handler_insertNew (parsers : Parsers σ) (mkey : String) :
    Parsers.handler (parsers.insertNew mkey none) = parsers.handler := by
  funext k
  by_cases hk : k = mkey
  · subst hk
    rw [Parsers.handler, Parsers.handler, OrderedMap.find?_insertNew_self]
    cases parsers.find? k <;> rfl
  · rw [Parsers.handler, Parsers.handler, OrderedMap.find?_insertNew_ne _ hk]

theorem runParser_makes (mkey key : String) (value : Node) (d : Dispatch σ) :
    Makes d.parsers.handler [⟨mkey, key, value⟩] (runParser mkey key (value, d)).1 d
      (runParser mkey key (value, d)).2.2 := by
  have hkeep := handler_insertNew d.parsers mkey
  cases hf : d.parsers.handler mkey with
  | none =>
    have hcall : callParser mkey key (value, d) = (.threw badFunctionCall, value,
        { d with parsers := d.parsers.insertNew mkey none }) := by
      simp only [callParser, hkeep, hf]
    rw [runParser, Comp.bind_threw hcall]
    exact ⟨hkeep, [], .missing _ _ hf, (List.append_nil _).symm⟩
  | some f =>
    rcases hr : f key value d.env with ⟨result, value', env⟩
    have hcall : callParser mkey key (value, d) = (.ofExcept result, value',
        { parsers := d.parsers.insertNew mkey none, env := env,
          trace := d.trace ++ [⟨⟨mkey, key, value⟩, result⟩] }) := by
      simp only [callParser, hkeep, hf, hr]
    rcases result with e | _ | _
    · rw [runParser, Comp.bind_threw hcall]
      exact ⟨hkeep, _, .raised _ hf hr, rfl⟩
    · rw [runParser, Comp.bind_returned hcall]
      exact ⟨hkeep, _, .refused _ hf hr, rfl⟩
    · rw [runParser, Comp.bind_returned hcall]
      exact ⟨hkeep, _, .accepted hf hr (.done _), rfl⟩

/-- A loop whose turns make the calls `asked p` of their entries `p` makes all of them in order. -/
theorem forEntries_makes {body : String → Comp (Node × Dispatch σ) Exception Unit}
    (asked : String × Node → List Call) {m : List (String × Node)}
    (hbody : ∀ p ∈ m, ∀ d : Dispatch σ,
      Makes d.parsers.handler (asked p) (body p.1 (p.2, d)).1 d (body p.1 (p.2, d)).2.2)
    (d : Dispatch σ) :
    Makes d.parsers.handler (m.flatMap asked) (Comp.forEntries body m d).1 d
      (Comp.forEntries body m d).2.2 := by
  induction m generalizing d with
  | nil => exact Makes.none d
  | cons p m ih =>
    obtain ⟨k, v⟩ := p
    have hturn := hbody (k, v) List.mem_cons_self d
    have hrest := ih fun q hq ↦ hbody q (List.mem_cons_of_mem _ hq)
    rcases hb : body k (v, d) with ⟨o, v', d'⟩
    rw [hb] at hturn
    rw [List.flatMap_cons]
    by_cases ho : o = .returned ()
    · subst ho
      rw [Comp.forEntries_returned hb]
      refine hturn.append ?_
      rw [← hturn.1]
      exact hrest d'
    · rw [Comp.forEntries_stopped hb ho]
      exact hturn.stopped ho _

theorem dispatchEntry_makes (mkey key : String) {value : Node} (h : Loaded value)
    (d : Dispatch σ) :
    Makes d.parsers.handler [⟨mkey, key, value⟩] (dispatchEntry mkey key (value, d)).1 d
      (dispatchEntry mkey key (value, d)).2.2 := by
  have hrun : dispatchEntry mkey key (value, d) = runParser mkey key (value, d) := by
    rw [dispatchEntry, Comp.bind_returned (Comp.gets_apply _ _), if_neg h.type_ne]
  rw [hrun]
  exact runParser_makes mkey key value d

/-- **The calls for a section are made** by its turn of the outer loop. -/
theorem dispatchSection_makes (mkey : String) {value : Node} (h : Loaded value)
    (d : Dispatch σ) :
    Makes d.parsers.handler (sectionCalls (mkey, value)) (dispatchSection mkey (value, d)).1 d
      (dispatchSection mkey (value, d)).2.2 := by
  rw [dispatchSection, Comp.bind_returned (Comp.gets_apply _ _), sectionCalls]
  cases htype : value.type with
  | empty => exact absurd htype h.type_ne
  | scalar => exact Makes.none d
  | sequence => exact runParser_makes mkey mkey value d
  | mapping =>
    have hloop := forEntries_makes (fun entry ↦ [⟨mkey, entry.1, entry.2⟩])
      (fun p hp d ↦ dispatchEntry_makes mkey p.1 (h.entry hp) d) d
    rw [← List.map_eq_flatMap] at hloop
    exact hloop

end Makes

/-! ## Loading the file -/

section LoadFile

/-- A load of a fresh node does not run out of fuel, and what it leaves is nothing, or a tree with a
type at every node. -/
theorem loadTop_loads :
    Comp.Triple False (Loading.Has (· = .fresh)) loadTop
      fun _ ↦ Loading.Has fun n ↦ n = .fresh ∨ Loaded n := by
  intro s hs
  have hfuel := loadTop_ne_exhausted s
  rcases hr : loadTop s with ⟨_ | _ | _ | _, s'⟩ <;> rw [hr] at hfuel
  case returned b => exact loadTop_loaded hs hr
  case exhausted => exact absurd rfl hfuel
  all_goals trivial

theorem loadFile_loads (files : String → FileState) (filename : String) :
    Comp.Triple False (Loading.Has (· = .fresh)) (loadFile files filename)
      fun _ ↦ Loading.Has fun n ↦ n = .fresh ∨ Loaded n := by
  rw [loadFile]
  split
  · exact .throw _
  · exact .bind (Q := fun _ _ ↦ True) (.modify fun _ _ ↦ trivial) fun _ ↦
      .bind (Q := fun _ _ ↦ True) (.modify fun _ _ ↦ trivial) fun _ ↦ .throw _
  · exact .bind (Q := fun _ ↦ Loading.Has (· = .fresh)) (.modify fun _ hs ↦ hs) fun _ ↦
      .bind (Q := fun _ ↦ Loading.Has (· = .fresh)) (.modify fun _ hs ↦ hs) fun _ ↦
      .bind (Q := fun _ ↦ Loading.Has (· = .fresh)) (.modify fun _ hs ↦ hs) fun _ ↦
      .bind loadTop_loads fun _ ↦
      .bind (Q := fun _ ↦ Loading.Has _) (.modify fun _ hs ↦ hs) fun _ ↦
      .bind (Q := fun _ ↦ Loading.Has _) (.modify fun _ hs ↦ hs) fun _ ↦ .pure fun _ hs ↦ hs

theorem loadFile_onlyThrows (files : String → FileState) (filename : String) :
    Comp.OnlyThrows (fun e ↦ e.isA .yamlParseFail = true) (loadFile files filename) := by
  rw [loadFile]
  split
  · exact .throw rfl
  · exact .bind (.modify _) fun _ ↦ .bind (.modify _) fun _ ↦ .throw rfl
  · exact .bind (.modify _) fun _ ↦ .bind (.modify _) fun _ ↦ .bind (.modify _) fun _ ↦
      .bind loadTop_onlyThrows fun _ ↦ .bind (.modify _) fun _ ↦ .bind (.modify _) fun _ ↦ .pure _

end LoadFile

/-! ## Settings -/

section Settings

variable {σ : Type} {files : String → FileState} {filename : String}
variable {s : Loading} {d : Dispatch σ}

/-- The code an exception is reported with: the clauses are tried in this order. -/
def errcOf (e : Exception) : Errc :=
  if e.isA .yamlParseFail then .yamlParserInitializeFail
  else if e.isA .typeMismatch then .typeMismatch
  else if e.isA .invalidArgument then .invalidArgument
  else if e.isA .badFunctionCall then .notSupported
  else .unknownExcept

theorem errcOf_ne_success (e : Exception) : errcOf e ≠ .success := by
  rw [errcOf]
  split_ifs <;> decide

theorem catchClauses_apply (e : Exception) (p : Loading × Dispatch σ) :
    ∃ message, catchClauses e p
      = (.returned false, p.1.setNode (p.1.node.setErrc ⟨errcOf e, message⟩), p.2) := by
  rw [catchClauses, errcOf]
  split_ifs <;> exact ⟨_, rfl⟩

/-- A file that is not loaded is reported, and no handler is called. -/
theorem loadFileWithFmap_threw {s' : Loading} {e : Exception}
    (h : loadFile files filename s = (.threw e, s')) (d : Dispatch σ) :
    loadFileWithFmap files filename (s, d) = catchClauses e (s', d) := by
  rw [loadFileWithFmap]
  refine Comp.tryCatch_threw (Comp.bind_threw ?_ _) _
  rw [onLoading, Comp.focus_apply, h]

section Returned

variable {s' : Loading} {ok : Bool} (h : loadFile files filename s = (.returned ok, s'))
include h

theorem loadFileWithFmap_notMapping (hn : s'.node.type ≠ .mapping) (d : Dispatch σ) :
    loadFileWithFmap files filename (s, d)
      = catchClauses (typeMismatch "Not a mapping node") (s', d) := by
  rw [loadFileWithFmap]
  refine Comp.tryCatch_threw ?_ _
  have hload : onLoading (loadFile files filename) (s, d) = (.returned ok, (s', d)) := by
    rw [onLoading, Comp.focus_apply, h]
  rw [Comp.bind_returned hload, Comp.bind_returned (Comp.gets_apply _ _), Node.asMapping, if_pos hn]
  exact Comp.bind_threw rfl _

variable {m : List (String × Node)} {d d' : Dispatch σ}

theorem loadFileWithFmap_mapping (hn : s'.node.type = .mapping)
    (hloop : Comp.forEntries dispatchSection s'.node.mapping d = (.returned (), m, d')) :
    loadFileWithFmap files filename (s, d) = (.returned true,
      s'.setNode ((s'.node.setMapping m).setErrc ⟨.success, "success"⟩), d') := by
  rw [loadFileWithFmap]
  refine Comp.tryCatch_returned ?_ _
  have hload : onLoading (loadFile files filename) (s, d) = (.returned ok, (s', d)) := by
    rw [onLoading, Comp.focus_apply, h]
  have hnode : onNode (onMapping (Comp.forEntries dispatchSection)) (s', d)
      = (.returned (), (s'.setNode (s'.node.setMapping m), d')) := by
    rw [onNode, Comp.focus_apply, onMapping, hloop]
  rw [Comp.bind_returned hload, Comp.bind_returned (Comp.gets_apply _ _), Node.asMapping,
    if_neg (not_not_intro hn), Comp.bind_returned (Comp.ofExcept_apply _ _),
    Comp.bind_returned hnode]
  rfl

theorem loadFileWithFmap_mapping_threw {e : Exception} (hn : s'.node.type = .mapping)
    (hloop : Comp.forEntries dispatchSection s'.node.mapping d = (.threw e, m, d')) :
    loadFileWithFmap files filename (s, d)
      = catchClauses e (s'.setNode (s'.node.setMapping m), d') := by
  rw [loadFileWithFmap]
  refine Comp.tryCatch_threw ?_ _
  have hload : onLoading (loadFile files filename) (s, d) = (.returned ok, (s', d)) := by
    rw [onLoading, Comp.focus_apply, h]
  have hnode : onNode (onMapping (Comp.forEntries dispatchSection)) (s', d)
      = (.threw e, (s'.setNode (s'.node.setMapping m), d')) := by
    rw [onNode, Comp.focus_apply, onMapping, hloop]
  rw [Comp.bind_returned hload, Comp.bind_returned (Comp.gets_apply _ _), Node.asMapping,
    if_neg (not_not_intro hn), Comp.bind_returned (Comp.ofExcept_apply _ _),
    Comp.bind_threw hnode]

end Returned

/-- `load_settings` only asks again what `load_file_with_fmap` has answered. -/
theorem loadSettings_eq {p p' : Loading × Dispatch σ} {b : Bool}
    (h : loadFileWithFmap files filename p = (.returned b, p'))
    (hb : p'.1.node.errc.val = .yamlParserInitializeFail → b = false) :
    loadSettings files filename p = (.returned b, p') := by
  rw [loadSettings, Comp.bind_returned h, Comp.bind_returned (Comp.gets_apply _ _)]
  by_cases he : p'.1.node.errc.val = .yamlParserInitializeFail
  · rw [if_pos he, hb he]
    rfl
  · rw [if_neg he]
    rfl

/-- A file whose root is a mapping: the calls of the tree are made, and the result and the error
code tell how they ended. -/
theorem loadSettings_mapping {s' : Loading} {ok : Bool}
    (h : loadFile files filename s = (.returned ok, s')) (htree : Loaded s'.node)
    (hn : s'.node.type = .mapping) (d : Dispatch σ) :
    ∃ o log b final, loadSettings files filename (s, d) = (.returned b, final) ∧
      Runs d.parsers.handler s'.node.calls d.env log o final.2.env ∧
      final.2.trace = d.trace ++ log ∧
      (o = .returned () → b = true ∧ final.1.node.errc.val = .success) ∧
      (∀ e, o = .threw e → b = false ∧ final.1.node.errc.val = errcOf e) := by
  obtain ⟨-, log, hrun, htrace⟩ := forEntries_makes sectionCalls
    (fun p hp d ↦ dispatchSection_makes p.1 (htree.entry hp) d) d
  rcases hloop : Comp.forEntries dispatchSection s'.node.mapping d with ⟨o, m, final⟩
  have hcalls : s'.node.calls = s'.node.mapping.flatMap sectionCalls := if_pos hn
  rw [hloop, ← hcalls] at hrun
  rw [hloop] at htrace
  rcases o with u | e | _ | _
  · exact ⟨_, log, true, _, loadSettings_eq (loadFileWithFmap_mapping h hn hloop)
      (fun h ↦ by cases h), hrun, htrace, fun _ ↦ ⟨rfl, rfl⟩, fun e he ↦ by simp at he⟩
  · obtain ⟨message, hcatch⟩ := catchClauses_apply e (s'.setNode (s'.node.setMapping m), final)
    rw [← loadFileWithFmap_mapping_threw h hn hloop] at hcatch
    refine ⟨_, log, false, _, loadSettings_eq hcatch fun _ ↦ rfl, hrun, htrace,
      fun h ↦ by simp at h, fun e' he ↦ ?_⟩
    rw [← Outcome.threw.inj he]
    exact ⟨rfl, rfl⟩
  all_goals cases hrun.ending

/-- `load_settings` returns `true` only if the file loads, its root is a mapping, and the calls of
its tree were all made. -/
theorem loadSettings_returned_true {d : Dispatch σ} {final : Loading × Dispatch σ}
    (h : loadSettings files filename ({ node := .fresh, events := [] }, d)
      = (.returned true, final)) :
    ∃ ok loaded log, loadFile files filename { node := .fresh, events := [] }
        = (.returned ok, loaded) ∧
      Loaded loaded.node ∧ loaded.node.type = .mapping ∧
      Runs d.parsers.handler loaded.node.calls d.env log (.returned ()) final.2.env := by
  have hloads := loadFile_loads files filename { node := .fresh, events := [] } rfl
  -- what the catch clauses answer is `false`
  have hcaught : ∀ {e s'}, loadFileWithFmap files filename ({ node := .fresh, events := [] }, d)
      = catchClauses e (s', d) → False := by
    intro e s' hcatch
    obtain ⟨message, happly⟩ := catchClauses_apply e (s', d)
    rw [loadSettings_eq (hcatch.trans happly) fun _ ↦ rfl] at h
    simp at h
  rcases hload : loadFile files filename { node := .fresh, events := [] }
    with ⟨ok | e | _ | _, loaded⟩ <;> rw [hload] at hloads
  case exhausted => exact hloads.elim
  case threw => exact (hcaught (loadFileWithFmap_threw hload d)).elim
  case undefined =>
    rw [loadSettings, loadFileWithFmap, Comp.bind_apply, Comp.tryCatch_apply, Comp.bind_apply,
      onLoading, Comp.focus_apply, hload] at h
    simp at h
  case returned =>
    by_cases hn : loaded.node.type = .mapping
    · have htree : Loaded loaded.node := hloads.resolve_left fun hfresh ↦ by
        rw [hfresh] at hn
        exact absurd hn (by decide)
      obtain ⟨o, log, b, final', hsettings, hrun, -, -, hthrew⟩ :=
        loadSettings_mapping hload htree hn d
      rw [hsettings, Prod.mk.injEq, Outcome.returned.injEq] at h
      obtain ⟨rfl, rfl⟩ := h
      rcases o with u | e | _ | _
      · exact ⟨ok, loaded, log, rfl, htree, hn, hrun⟩
      · exact absurd (hthrew e rfl).1 (by decide)
      all_goals cases hrun.ending
    · exact (hcaught (loadFileWithFmap_notMapping hload hn d)).elim

/-- The error code of a failure whose last call was the last one of `log`. -/
def failureErrc (log : List Invocation) : Errc :=
  match log.getLast? with
  | some ⟨_, .ok false⟩ => .yamlParserInitializeFail
  | some ⟨_, .error e⟩ => errcOf e
  | _ => .notSupported

/-- The code of what a series of calls throws is told by its log. -/
theorem Ending.errcOf {table : String → Option (Handler σ)} {calls : List Call}
    {log : List Invocation} {e : Exception} (h : Ending table calls log (.threw e)) :
    errcOf e = failureErrc log := by
  rw [failureErrc]
  cases h with
  | @refused i value hlast hi =>
    obtain ⟨c, result⟩ := i
    rw [hlast, show result = .ok false from hi]
    rfl
  | @raised i _ hlast hi =>
    obtain ⟨c, result⟩ := i
    rw [hlast, show result = .error e from hi]
  | missing hok _ _ =>
    rcases hlast : log.getLast? with _ | ⟨c, result⟩
    · rfl
    · have hresult := hok _ (List.mem_of_getLast? hlast)
      rw [show result = .ok true from hresult]
      rfl

/-- A series whose calls all returned `true` was made to its end, or its next call has no
handler. -/
theorem Ending.stopped {table : String → Option (Handler σ)} {calls : List Call}
    {log : List Invocation} {o : Outcome Exception Unit} (h : Ending table calls log o)
    (hok : ∀ i ∈ log, i.result = .ok true) :
    log.map Invocation.toCall = calls ∨ ∃ c, calls[log.length]? = some c ∧ table c.mkey = none := by
  cases h with
  | all hmade _ => exact Or.inl hmade
  | refused value hlast hi =>
    have := hok _ (List.mem_of_getLast? hlast)
    simp [hi] at this
  | raised hlast hi =>
    have := hok _ (List.mem_of_getLast? hlast)
    simp [hi] at this
  | missing _ hnext hc => exact Or.inr ⟨_, hnext, hc⟩

/-- A series that throws was not made to its end. -/
theorem Ending.not_all {table : String → Option (Handler σ)} {calls : List Call}
    {log : List Invocation} {e : Exception} (h : Ending table calls log (.threw e)) :
    ¬ (log.map Invocation.toCall = calls ∧ ∀ i ∈ log, i.result = .ok true) := by
  rintro ⟨hmade, hok⟩
  cases h with
  | refused value hlast hi =>
    have := hok _ (List.mem_of_getLast? hlast)
    simp [hi] at this
  | raised hlast hi =>
    have := hok _ (List.mem_of_getLast? hlast)
    simp [hi] at this
  | missing _ hnext _ =>
    rw [← hmade] at hnext
    simp at hnext

/-- **What `load_settings` owes a document** `n`, over the table `table`: `b` is its result, `errc`
the error code it leaves, and `final.trace` the calls of handlers it has made. -/
structure Dispatched (table : String → Option (Handler σ)) (n : Node) (env : σ) (b : Bool)
    (errc : Errc) (final : Dispatch σ) : Prop where
  /-- The calls the document asks for are in ascending order of their sections and keys. -/
  ordered : n.calls.Pairwise Call.Before
  /-- Every call that was made was a call of the handler of its section. -/
  ran : ∃ o, Runs table n.calls env final.trace o final.env
  /-- The calls that were made are the first ones. -/
  made : final.trace.map Invocation.toCall <+: n.calls
  /-- None was made after one that did not return `true`. -/
  accepted : ∀ i ∈ final.trace.dropLast, i.result = .ok true
  /-- If all that were made returned `true`, then either there were no more or the next one has no
  handler. -/
  stopped : (∀ i ∈ final.trace, i.result = .ok true) →
    final.trace.map Invocation.toCall = n.calls ∨
      ∃ c, n.calls[final.trace.length]? = some c ∧ table c.mkey = none
  /-- It returns `true` if the root is a mapping and all the calls were made and returned `true`. -/
  true_iff : b = true ↔ n.type = .mapping ∧ final.trace.map Invocation.toCall = n.calls ∧
    ∀ i ∈ final.trace, i.result = .ok true
  /-- It returns `true` if it leaves the code for success. -/
  success_iff : b = true ↔ errc = .success
  /-- Otherwise the code tells why. -/
  errc_of_false : b = false →
    errc = if n.type = .mapping then failureErrc final.trace else .typeMismatch

/-- A document whose root is not a mapping. -/
theorem dispatched_notMapping {n : Node} (h : n.type ≠ .mapping) {parsers : Parsers σ} {env : σ} :
    Dispatched parsers.handler n env false .typeMismatch { parsers := parsers, env := env } := by
  have hcalls : n.calls = [] := if_neg h
  refine ⟨?_, ⟨.returned (), ?_⟩, ?_, ?_, ?_, ?_, ?_, ?_⟩
  · rw [hcalls]; exact List.Pairwise.nil
  · rw [hcalls]; exact .done env
  · exact List.nil_prefix
  · simp
  · intro _; exact Or.inl hcalls.symm
  · simp [h]
  · decide
  · intro _; rw [if_neg h]

/-- A document whose root is a mapping, whose calls were made. -/
theorem dispatched_mapping {table : String → Option (Handler σ)} {n : Node} (hn : Loaded n)
    (htype : n.type = .mapping) {env : σ} {final : Dispatch σ} {o : Outcome Exception Unit}
    (hrun : Runs table n.calls env final.trace o final.env) {b : Bool} {errc : Errc}
    (hreturned : o = .returned () → b = true ∧ errc = .success)
    (hthrew : ∀ e, o = .threw e → b = false ∧ errc = errcOf e) :
    Dispatched table n env b errc final := by
  have hend := hrun.ending
  refine ⟨hn.calls_ordered, ⟨o, hrun⟩, hrun.made, hrun.accepted_before, hend.stopped, ?_, ?_, ?_⟩
  all_goals rcases o with u | e | _ | _
  case refine_1.returned =>
    obtain ⟨hmade, hok⟩ := by cases hend with | all hmade hok => exact And.intro hmade hok
    exact ⟨fun _ ↦ ⟨htype, hmade, hok⟩, fun _ ↦ (hreturned rfl).1⟩
  case refine_1.threw =>
    have hb : b ≠ true := by rw [(hthrew e rfl).1]; decide
    exact ⟨fun h ↦ absurd h hb, fun h ↦ absurd h.2 hend.not_all⟩
  case refine_2.returned =>
    exact ⟨fun _ ↦ (hreturned rfl).2, fun _ ↦ (hreturned rfl).1⟩
  case refine_2.threw =>
    obtain ⟨hb, he⟩ := hthrew e rfl
    rw [hb, he]
    exact ⟨fun h ↦ by simp at h, fun h ↦ absurd h (errcOf_ne_success e)⟩
  case refine_3.returned =>
    intro hb
    rw [(hreturned rfl).1] at hb
    simp at hb
  case refine_3.threw =>
    intro _
    rw [if_pos htype, (hthrew e rfl).2, hend.errcOf]
  all_goals cases hend

/-- **Configuration dispatch is exact, ordered and stops at the first failure, and the error code
tells why.**  `load_settings` on a new node makes calls of handlers as `Dispatched` says if the file
loads, and none at all if it does not.  The one thing it may do besides is reading a mapping key
that is not a scalar, which the language gives no meaning to. -/
theorem loadSettings_dispatch (files : String → FileState) (filename : String)
    (parsers : Parsers σ) (env : σ) :
    match loadFile files filename { node := .fresh, events := [] },
      loadSettings files filename
        ({ node := .fresh, events := [] }, { parsers := parsers, env := env }) with
    | (.returned _, loaded), (result, final) => ∃ b, result = .returned b ∧
        Dispatched parsers.handler loaded.node env b final.1.node.errc.val final.2
    | (.threw _, _), (result, final) => result = .returned false ∧
        final.1.node.errc.val = .yamlParserInitializeFail ∧ final.2.trace = []
    | (.undefined, _), _ => True
    | (.exhausted, _), _ => False := by
  have hloads := loadFile_loads files filename { node := .fresh, events := [] } rfl
  have hthrows := loadFile_onlyThrows files filename { node := .fresh, events := [] }
  rcases hload : loadFile files filename { node := .fresh, events := [] }
    with ⟨ok | e | _ | _, loaded⟩ <;> rw [hload] at hloads hthrows
  case undefined => trivial
  case exhausted => exact hloads
  case threw =>
    obtain ⟨message, hcatch⟩ := catchClauses_apply e
      (loaded, ({ parsers := parsers, env := env } : Dispatch σ))
    rw [← loadFileWithFmap_threw hload] at hcatch
    rw [loadSettings_eq hcatch fun _ ↦ rfl]
    refine ⟨rfl, ?_, rfl⟩
    exact if_pos (hthrows e rfl)
  case returned =>
    by_cases hn : loaded.node.type = .mapping
    · have htree : Loaded loaded.node := hloads.resolve_left fun hfresh ↦ by
        rw [hfresh] at hn
        exact absurd hn (by decide)
      obtain ⟨o, log, b, final, hsettings, hrun, htrace, hreturned, hthrew⟩ :=
        loadSettings_mapping hload htree hn ({ parsers := parsers, env := env } : Dispatch σ)
      rw [List.nil_append] at htrace
      rw [← htrace] at hrun
      rw [hsettings]
      exact ⟨b, rfl, dispatched_mapping htree hn hrun hreturned hthrew⟩
    · obtain ⟨message, hcatch⟩ := catchClauses_apply (typeMismatch "Not a mapping node")
        (loaded, ({ parsers := parsers, env := env } : Dispatch σ))
      rw [← loadFileWithFmap_notMapping hload hn] at hcatch
      rw [loadSettings_eq hcatch fun _ ↦ rfl]
      exact ⟨false, rfl, dispatched_notMapping hn⟩

end Settings

end Yaml
end XaMain
