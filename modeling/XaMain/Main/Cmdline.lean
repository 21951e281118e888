import XaMain.Main.Options
import XaMain.Yaml.Dispatch
import XaMain.Yaml.Document

/-!
# The command line

The options of the program, as the macros of `cmdline.hpp` parse them for `options::parse_cmdline`:
a loop over what `getopt_long` returns, and after it the load of the file that was named last.  The
level of the debug messages is counted up by the loop, and raised by the handler of `debug.level` if
the file asks for more.

`makeCliParser_precedence` says what the level is in the end, in whatever order the options are
given.  The settings from the database are loaded after that, in `Main/SettingsLoader.lean`.
-/

set_option autoImplicit false

namespace XaMain
namespace Options

open Yaml

/-! ## The macros -/

/-- What `getopt_long` returns, with `optarg`. -/
inductive Opt where
  /-- `-c FILE` -/
  | config (optarg : String)
  /-- `-D` -/
  | debug
  /-- `-H` -/
  | help
  /-- Anything else. -/
  | other
  deriving DecidableEq

/-- What keeps the parser from going on. -/
inductive Stop where
  /-- `::exit` -/
  | exit (status : Nat)
  /-- An exception that is not caught. -/
  | uncaught (e : Exception)

/-- A step of the parser. -/
inductive CmdlineStep where
  /-- `debug_level++` -/
  | counted
  /-- The call of `parse_config`. -/
  | loaded (filename : String)

/-- The state of the parser. -/
structure Cmdline where
  /-- `config_filename` -/
  configFilename : Option String := none
  /-- The table of `parse_config`, and the settings. -/
  config : Dispatch Settings
  /-- The steps made so far. -/
  steps : List CmdlineStep := []

/-- The state the parser starts in, with the settings as they are then. -/
def Cmdline.start (s : Settings) : Cmdline := { config := { parsers := yamlSettings, env := s } }

/-- `options::debug_level` -/
def Cmdline.debugLevel (s : Cmdline) : UInt32 := s.config.env.debugLevel

/-- The cases of `START_PARSER` and `END_PARSER`. -/
def parseOption : Opt → Comp Cmdline Stop Unit
  | .config optarg => Comp.modify fun s ↦ { s with configFilename := some optarg }
  | .debug => Comp.modify fun s ↦ { s with
      config := { s.config with env := { s.config.env with
        debugLevel := s.config.env.debugLevel + 1 } }
      steps := s.steps ++ [.counted] }
  | .help => Comp.throw (.exit 0)
  | .other => Comp.throw (.exit 1)

/-- The loop of `PARSER_BEGIN`. -/
def parseOptions : List Opt → Comp Cmdline Stop Unit
  | [] => pure ()
  | c :: opts => do
    parseOption c
    parseOptions opts

/-- The call of `parse_config`. -/
def loadConfig (files : String → FileState) (filename : String) : Comp Cmdline Stop Bool := do
  Comp.modify fun s ↦ { s with steps := s.steps ++ [.loaded filename] }
  Comp.focus (·.config) (fun d s ↦ { s with config := d })
    (Comp.mapError Stop.uncaught (parseConfig files filename))

/-- `MAKE_CLI_PARSER`, with the file loaded by `PARSER_END`. -/
def makeCliParser (files : String → FileState) (opts : List Opt) : Comp Cmdline Stop Unit := do
  parseOptions opts
  match ← Comp.gets (·.configFilename) with
  | none => return ()
  | some filename =>
    if !(← loadConfig files filename) then
      Comp.throw (.exit 1)
    else
      return ()

/-! ## The loop -/

/-- The file an option names. -/
def Opt.file? : Opt → Option String
  | .config filename => some filename
  | _ => none

/-- The files that are named, in order. -/
def configs (opts : List Opt) : List String := opts.filterMap Opt.file?

/-- An option that does not end the program. -/
def Opt.Continues (o : Opt) : Prop := o = .debug ∨ ∃ filename, o = .config filename

/-- The state after the loop: the file that is named last, and the level counted up. -/
def Cmdline.after (opts : List Opt) (s : Cmdline) : Cmdline where
  configFilename := (configs opts).getLast?.or s.configFilename
  config := { s.config with env := { s.config.env with
    debugLevel := s.config.env.debugLevel + .ofNat (opts.count .debug) } }
  steps := s.steps ++ List.replicate (opts.count .debug) .counted

theorem configs_append (opts opts' : List Opt) :
    configs (opts ++ opts') = configs opts ++ configs opts' := List.filterMap_append

theorem Cmdline.after_append (opts opts' : List Opt) (s : Cmdline) :
    s.after (opts ++ opts') = (s.after opts).after opts' := by
  simp only [Cmdline.after, configs_append, List.getLast?_append, Option.or_assoc,
    List.count_append, UInt32.ofNat_add, UInt32.add_assoc, List.replicate_add, List.append_assoc]

theorem parseOption_run {o : Opt} (h : o.Continues) (s : Cmdline) :
    parseOption o s = (.returned (), s.after [o]) := by
  rcases h with rfl | ⟨filename, rfl⟩
  · simp [parseOption, Cmdline.after, configs, Opt.file?]
  · simp [parseOption, Cmdline.after, configs, Opt.file?]

/-- The loop counts, and keeps the last file. -/
theorem parseOptions_run {opts : List Opt} (h : ∀ o ∈ opts, o.Continues) (s : Cmdline) :
    parseOptions opts s = (.returned (), s.after opts) := by
  induction opts generalizing s with
  | nil => simp [parseOptions, Cmdline.after, configs]
  | cons o opts ih =>
    rw [parseOptions, Comp.bind_returned (parseOption_run (h o List.mem_cons_self) s),
      ih fun o ho ↦ h o (List.mem_cons_of_mem _ ho), ← Cmdline.after_append, List.singleton_append]

/-- The status an option ends the program with, if it does. -/
def Opt.stop? : Opt → Option Nat
  | .help => some 0
  | .other => some 1
  | _ => none

theorem stop_eq_none_iff {o : Opt} : o.stop? = none ↔ o.Continues := by
  cases o <;> simp [Opt.stop?, Opt.Continues]

theorem continues_iff {opts : List Opt} :
    opts.findSome? Opt.stop? = none ↔ ∀ o ∈ opts, o.Continues := by
  rw [List.findSome?_eq_none_iff]
  exact forall₂_congr fun o _ ↦ stop_eq_none_iff

/-- The first option that ends the program decides how. -/
theorem parseOptions_stop {opts : List Opt} {status : Nat}
    (h : opts.findSome? Opt.stop? = some status) (s : Cmdline) :
    ∃ s', parseOptions opts s = (.threw (.exit status), s') := by
  induction opts generalizing s with
  | nil => simp at h
  | cons o opts ih =>
    rw [parseOptions]
    cases o with
    | config filename =>
      rw [Comp.bind_returned (parseOption_run (Or.inr ⟨filename, rfl⟩) s)]
      exact ih h _
    | debug =>
      rw [Comp.bind_returned (parseOption_run (Or.inl rfl) s)]
      exact ih h _
    | help =>
      obtain rfl : 0 = status := Option.some.inj h
      exact ⟨s, Comp.bind_threw rfl _⟩
    | other =>
      obtain rfl : 1 = status := Option.some.inj h
      exact ⟨s, Comp.bind_threw rfl _⟩

theorem parseOptions_stopped {opts : List Opt} (h : ¬ ∀ o ∈ opts, o.Continues) (s : Cmdline) :
    ∃ status s', parseOptions opts s = (.threw (.exit status), s') := by
  obtain ⟨status, hstatus⟩ := Option.ne_none_iff_exists'.mp (mt continues_iff.mp h)
  exact ⟨status, parseOptions_stop hstatus s⟩

/-! ## The level in the configuration file -/

/-- Does the handler of `debug.level` get this call? -/
def IsLevelCall (c : Call) : Prop := c.mkey = "debug" ∧ c.key = "level"

/-- `v` is the value of `debug.level` in the file with the root `n`. -/
def IsLevel (n v : Node) : Prop :=
  ∃ d, ("debug", d) ∈ n.mapping ∧ d.type = .mapping ∧ ("level", v) ∈ d.mapping

/-- No two calls in order are both for `debug.level`. -/
theorem not_isLevelCall_of_before {c d : Call} (h : c.Before d) (hc : IsLevelCall c) :
    ¬ IsLevelCall d := by
  intro hd
  rcases h with hlt | ⟨-, hlt⟩
  · rw [hc.1, hd.1] at hlt
    exact lt_irrefl _ hlt
  · rw [hc.2, hd.2] at hlt
    exact lt_irrefl _ hlt

theorem mem_calls_iff {n v : Node} (hn : n.type = .mapping) :
    ⟨"debug", "level", v⟩ ∈ n.calls ↔ IsLevel n v := by
  rw [Node.calls, if_pos hn, List.mem_flatMap]
  constructor
  · rintro ⟨⟨mkey, d⟩, hd, hc⟩
    obtain rfl : "debug" = mkey := mkey_of_mem_sectionCalls hc
    rw [sectionCalls] at hc
    split at hc
    · simp at hc
    · rename_i htype
      obtain ⟨⟨key, w⟩, hentry, heq⟩ := List.mem_map.mp hc
      simp only [Call.mk.injEq, true_and] at heq
      obtain ⟨rfl, rfl⟩ := heq
      exact ⟨d, hd, htype, hentry⟩
    · exact absurd hc List.not_mem_nil
  · rintro ⟨d, hd, htype, hv⟩
    refine ⟨("debug", d), hd, ?_⟩
    simp only [sectionCalls, htype]
    exact List.mem_map.mpr ⟨("level", v), hv, rfl⟩

/-- The level, raised to `val`. -/
def raised (level val : UInt32) : UInt32 := if val > level then val else level

theorem toNat_raised (level val : UInt32) :
    (raised level val).toNat = max level.toNat val.toNat := by
  rw [raised]
  split_ifs with h
  · exact (Nat.max_eq_right (Nat.le_of_lt (UInt32.lt_iff_toNat_lt.mp h))).symm
  · exact (Nat.max_eq_left (Nat.le_of_not_lt fun hlt ↦ h (UInt32.lt_iff_toNat_lt.mpr hlt))).symm

section Handlers

variable {α : Type} {read : Except Exception α} {next : α → Bool × Settings} {value value' : Node}
variable {key : String} {s s' : Settings} {result : Except Exception Bool}

/-- A handler that does not set the level leaves it. -/
theorem reading_debugLevel (hnext : ∀ a, (next a).2.debugLevel = s.debugLevel) :
    (reading read next value s).2.2.debugLevel = s.debugLevel := by
  cases read with
  | error e => rfl
  | ok a => exact hnext a

theorem controlHandler_debugLevel :
    (controlHandler key value s).2.2.debugLevel = s.debugLevel := by
  rw [controlHandler]
  split_ifs
  · exact reading_debugLevel fun _ ↦ rfl
  · exact reading_debugLevel fun _ ↦ rfl
  · exact reading_debugLevel fun _ ↦ rfl
  · exact reading_debugLevel fun _ ↦ rfl
  · rfl

theorem pathsHandler_debugLevel : (pathsHandler key value s).2.2.debugLevel = s.debugLevel := by
  rw [pathsHandler]
  split_ifs
  · exact reading_debugLevel fun _ ↦ rfl
  · rfl

theorem settingsHandler_debugLevel :
    (settingsHandler key value s).2.2.debugLevel = s.debugLevel := by
  rw [settingsHandler]
  split_ifs
  · exact reading_debugLevel fun _ ↦ rfl
  · exact reading_debugLevel fun _ ↦ rfl
  · rfl

theorem debugHandler_debugLevel (hkey : key ≠ "level") :
    (debugHandler key value s).2.2.debugLevel = s.debugLevel := by
  rw [debugHandler, if_neg hkey]

/-- The handler of `debug.level` raises the level, if it accepts the value. -/
theorem debugHandler_level (h : debugHandler "level" value s = (.ok true, value', s')) :
    ∃ val, value.asInteger = .ok val ∧ s'.debugLevel = raised s.debugLevel val := by
  rw [debugHandler, if_pos rfl] at h
  cases hread : value.asInteger with
  | error e =>
    rw [hread, reading] at h
    simp at h
  | ok val =>
    rw [hread, reading] at h
    simp only [Prod.mk.injEq, true_and] at h
    refine ⟨val, rfl, ?_⟩
    rw [← h.2, raised]
    split_ifs <;> rfl

end Handlers

/-! ## The run of the handlers -/

theorem yamlSettings_handler {mkey : String} {f : Handler Settings}
    (h : yamlSettings.handler mkey = some f) :
    mkey = "control" ∧ f = controlHandler ∨ mkey = "debug" ∧ f = debugHandler ∨
      mkey = "paths" ∧ f = pathsHandler ∨ mkey = "settings" ∧ f = settingsHandler := by
  rw [Parsers.handler, OrderedMap.find?, yamlSettings] at h
  by_cases h1 : mkey = "control"
  · subst h1
    exact Or.inl ⟨rfl, (Option.some.inj h).symm⟩
  by_cases h2 : mkey = "debug"
  · subst h2
    exact Or.inr (Or.inl ⟨rfl, (Option.some.inj h).symm⟩)
  by_cases h3 : mkey = "paths"
  · subst h3
    exact Or.inr (Or.inr (Or.inl ⟨rfl, (Option.some.inj h).symm⟩))
  by_cases h4 : mkey = "settings"
  · subst h4
    exact Or.inr (Or.inr (Or.inr ⟨rfl, (Option.some.inj h).symm⟩))
  · rw [OrderedMap.lookup_cons_ne h1, OrderedMap.lookup_cons_ne h2, OrderedMap.lookup_cons_ne h3,
      OrderedMap.lookup_cons_ne h4] at h
    simp at h

/-- An accepted call leaves the level, unless it is that of `debug.level`. -/
theorem debugLevel_of_accepted {c : Call} {f : Handler Settings} {s s' : Settings} {value : Node}
    (hf : yamlSettings.handler c.mkey = some f) (hr : f c.key c.value s = (.ok true, value, s')) :
    (¬ IsLevelCall c → s'.debugLevel = s.debugLevel) ∧
      (IsLevelCall c → ∃ val, c.value.asInteger = .ok val ∧
        s'.debugLevel = raised s.debugLevel val) := by
  have hs' : s' = (f c.key c.value s).2.2 := by rw [hr]
  have hother (hm : c.mkey ≠ "debug") (h : s'.debugLevel = s.debugLevel) :
      (¬ IsLevelCall c → s'.debugLevel = s.debugLevel) ∧
        (IsLevelCall c → ∃ val, c.value.asInteger = .ok val ∧
          s'.debugLevel = raised s.debugLevel val) :=
    ⟨fun _ ↦ h, fun hc ↦ absurd hc.1 hm⟩
  rcases yamlSettings_handler hf with ⟨hm, rfl⟩ | ⟨hm, rfl⟩ | ⟨hm, rfl⟩ | ⟨hm, rfl⟩
  · exact hother (by rw [hm]; decide) (by rw [hs', controlHandler_debugLevel])
  · refine ⟨fun h ↦ ?_, fun h ↦ ?_⟩
    · rw [hs', debugHandler_debugLevel fun hkey ↦ h ⟨hm, hkey⟩]
    · rw [h.2] at hr
      exact debugHandler_level hr
  · exact hother (by rw [hm]; decide) (by rw [hs', pathsHandler_debugLevel])
  · exact hother (by rw [hm]; decide) (by rw [hs', settingsHandler_debugLevel])

section Runs

variable {calls : List Call} {s s' : Settings} {log : List Invocation}

/-- Without a call for `debug.level` the level stays as it is. -/
theorem runs_debugLevel_absent
    (h : Runs yamlSettings.handler calls s log (.returned ()) s')
    (hcalls : ∀ c ∈ calls, ¬ IsLevelCall c) : s'.debugLevel = s.debugLevel := by
  generalize ho : Outcome.returned () = o at h
  induction h with
  | done => rfl
  | accepted hf hr _ ih =>
    rw [ih (fun c hc ↦ hcalls c (List.mem_cons_of_mem _ hc)) ho]
    exact (debugLevel_of_accepted hf hr).1 (hcalls _ List.mem_cons_self)
  | _ => simp at ho

/-- There is one such call at most, and it raises the level. -/
theorem runs_debugLevel_given
    (h : Runs yamlSettings.handler calls s log (.returned ()) s')
    (hordered : calls.Pairwise Call.Before) {c : Call} (hc : c ∈ calls) (hlevel : IsLevelCall c) :
    ∃ val, c.value.asInteger = .ok val ∧ s'.debugLevel = raised s.debugLevel val := by
  generalize ho : Outcome.returned () = o at h
  induction h with
  | done => exact absurd hc List.not_mem_nil
  | @accepted d calls f value env env' env'' log o hf hr rest ih =>
    rw [List.pairwise_cons] at hordered
    rcases List.mem_cons.mp hc with rfl | hmem
    · obtain ⟨val, hread, hraised⟩ := (debugLevel_of_accepted hf hr).2 hlevel
      refine ⟨val, hread, ?_⟩
      rw [← hraised]
      rw [← ho] at rest
      exact runs_debugLevel_absent rest fun d hd ↦
        not_isLevelCall_of_before (hordered.1 d hd) hlevel
    · have hd : ¬ IsLevelCall d := fun hd ↦ not_isLevelCall_of_before (hordered.1 c hmem) hd hlevel
      rw [← (debugLevel_of_accepted hf hr).1 hd]
      exact ih hordered.2 hmem ho
  | _ => simp at ho

end Runs

/-! ## The whole parser -/

/-- A numeral is read as what it denotes. -/
theorem toNat_of_numeral {v : Node} {val : UInt32} (htype : v.type = .scalar)
    (hnum : Decimal.Numeral v.scalar.toList) (hlt : Decimal.value v.scalar.toList < 2 ^ 31)
    (h : v.asInteger = .ok val) : val.toNat = Decimal.value v.scalar.toList := by
  rw [v.asInteger_scalar htype, stoi, Decimal.stoi_numeral hnum hlt] at h
  rw [← Except.ok.inj h, toNat_ofInt hlt]

/-- What the load of a file leaves of the level, if `parse_config` returns `true`. -/
theorem parseConfig_debugLevel {files : String → FileState} {filename : String}
    {d d' : Dispatch Settings} (hd : d.parsers = yamlSettings)
    (h : parseConfig files filename d = (.returned true, d')) :
    ∃ ok loaded, loadFile files filename { node := .fresh, events := [] }
        = (.returned ok, loaded) ∧
      ((∀ v, ¬ IsLevel loaded.node v) → d'.env.debugLevel = d.env.debugLevel) ∧
      ∀ v, IsLevel loaded.node v → ∃ val, v.asInteger = .ok val ∧
        d'.env.debugLevel = raised d.env.debugLevel val := by
  rw [parseConfig, Comp.focus_apply, Prod.mk.injEq] at h
  obtain ⟨ok, loaded, log, hload, htree, hn, hrun⟩ :=
    loadSettings_returned_true (Prod.ext h.1 rfl)
  rw [h.2, hd] at hrun
  refine ⟨ok, loaded, hload, fun hnone ↦ ?_, fun v hv ↦ ?_⟩
  · refine runs_debugLevel_absent hrun fun c hc hlevel ↦ ?_
    obtain ⟨mkey, key, v⟩ := c
    obtain ⟨rfl, rfl⟩ : mkey = "debug" ∧ key = "level" := hlevel
    exact hnone v ((mem_calls_iff hn).mp hc)
  · exact runs_debugLevel_given hrun htree.calls_ordered ((mem_calls_iff hn).mpr hv) ⟨rfl, rfl⟩

/-- The level that the options count up to. -/
def counted (opts : List Opt) (s : Settings) : UInt32 := s.debugLevel + .ofNat (opts.count .debug)

/-- **What the parser has done when it goes on**, for the options `opts` and the settings `s` it
started with. -/
structure Precedes (files : String → FileState) (opts : List Opt) (s : Settings) (final : Cmdline) :
    Prop where
  /-- All `-D` were counted, and then the last file was loaded, if there is one, and no other. -/
  steps : final.steps = List.replicate (opts.count .debug) .counted
    ++ (configs opts).getLast?.toList.map .loaded
  /-- The count is exact as long as it fits in an `unsigned`, as it does from 0 with fewer than
  `2^32` options. -/
  exact_count : s.debugLevel.toNat + opts.count .debug < 2 ^ 32 →
    (counted opts s).toNat = s.debugLevel.toNat + opts.count .debug
  /-- Without a file the level is the one that was counted. -/
  noFile : configs opts = [] → final.debugLevel = counted opts s
  /-- The last file was read … -/
  file : ∀ filename, (configs opts).getLast? = some filename → ∃ ok loaded,
    loadFile files filename { node := .fresh, events := [] } = (.returned ok, loaded) ∧
      -- … and leaves the level, if it says nothing of it,
      ((∀ v, ¬ IsLevel loaded.node v) → final.debugLevel = counted opts s) ∧
      -- or raises it to its own.
      ∀ v, IsLevel loaded.node v → v.type = .scalar → Decimal.Numeral v.scalar.toList →
        Decimal.value v.scalar.toList < 2 ^ 31 →
        final.debugLevel.toNat = max (counted opts s).toNat (Decimal.value v.scalar.toList)

theorem counted_toNat {opts : List Opt} {s : Settings}
    (h : s.debugLevel.toNat + opts.count .debug < 2 ^ 32) :
    (counted opts s).toNat = s.debugLevel.toNat + opts.count .debug := by
  rw [counted, UInt32.toNat_add, UInt32.toNat_ofNat']
  omega

/-- The state after the loop decides how the parser goes on. -/
theorem makeCliParser_congr {files : String → FileState} {opts opts' : List Opt} {s : Cmdline}
    (h : ∀ o ∈ opts, o.Continues) (h' : ∀ o ∈ opts', o.Continues)
    (hs : s.after opts = s.after opts') :
    makeCliParser files opts s = makeCliParser files opts' s := by
  rw [makeCliParser, makeCliParser, Comp.bind_returned (parseOptions_run h s),
    Comp.bind_returned (parseOptions_run h' s), hs]

theorem continues_of_returned {files : String → FileState} {opts : List Opt} {s final : Cmdline}
    (h : makeCliParser files opts s = (.returned (), final)) : ∀ o ∈ opts, o.Continues := by
  by_contra hstop
  obtain ⟨status, s', hrun⟩ := parseOptions_stopped hstop s
  rw [makeCliParser, Comp.bind_threw hrun] at h
  simp at h

theorem loadConfig_apply (files : String → FileState) (filename : String) (s : Cmdline) :
    loadConfig files filename s = ((parseConfig files filename s.config).1.mapError .uncaught,
      { s with config := (parseConfig files filename s.config).2
               steps := s.steps ++ [.loaded filename] }) := rfl

/-- If a file is named the parser goes on only when it is accepted. -/
theorem config_of_returned {files : String → FileState} {opts : List Opt} {s final : Cmdline}
    {filename : String} (h : makeCliParser files opts s = (.returned (), final))
    (hname : (s.after opts).configFilename = some filename) :
    ∃ d', parseConfig files filename (s.after opts).config = (.returned true, d') ∧
      final = { s.after opts with
        config := d', steps := (s.after opts).steps ++ [.loaded filename] } := by
  rw [makeCliParser, Comp.bind_returned (parseOptions_run (continues_of_returned h) _),
    Comp.bind_returned (Comp.gets_apply _ _), hname] at h
  simp only [Comp.bind_apply, loadConfig_apply] at h
  rcases hparse : parseConfig files filename (s.after opts).config with ⟨(_ | _) | e | _ | _, d'⟩
  all_goals rw [hparse] at h
  case returned.true =>
    refine ⟨d', rfl, ?_⟩
    exact (Prod.mk.inj h).2.symm
  all_goals simp [Outcome.mapError] at h

/-- If none is named it goes on with what it has counted. -/
theorem final_of_returned {files : String → FileState} {opts : List Opt} {s final : Cmdline}
    (h : makeCliParser files opts s = (.returned (), final))
    (hname : (s.after opts).configFilename = none) : final = s.after opts := by
  rw [makeCliParser, Comp.bind_returned (parseOptions_run (continues_of_returned h) _),
    Comp.bind_returned (Comp.gets_apply _ _), hname] at h
  exact (Prod.mk.inj h).2.symm

theorem precedes_of_returned {files : String → FileState} {opts : List Opt} {s : Settings}
    {final : Cmdline} (h : makeCliParser files opts (.start s) = (.returned (), final)) :
    Precedes files opts s final := by
  have hname : ((Cmdline.start s).after opts).configFilename = (configs opts).getLast? :=
    Option.or_none
  cases hlast : (configs opts).getLast? with
  | none =>
    rw [hlast] at hname
    have hfinal := final_of_returned h hname
    refine ⟨?_, counted_toNat, fun _ ↦ by rw [hfinal]; rfl, fun filename hf ↦ ?_⟩
    · rw [hfinal, hlast, Option.toList_none, List.map_nil, List.append_nil]
      rfl
    · rw [hlast] at hf
      simp at hf
  | some filename =>
    rw [hlast] at hname
    obtain ⟨d', hparse, hfinal⟩ := config_of_returned h hname
    obtain ⟨ok, loaded, hload, habsent, hgiven⟩ := parseConfig_debugLevel rfl hparse
    have hlevel : final.debugLevel = d'.env.debugLevel := by rw [hfinal]; rfl
    refine ⟨?_, counted_toNat, fun hnil ↦ ?_, fun name hf ↦ ?_⟩
    · rw [hfinal, hlast]
      rfl
    · rw [hnil] at hlast
      simp at hlast
    · rw [hlast, Option.some.injEq] at hf
      subst hf
      refine ⟨ok, loaded, hload, fun hnone ↦ ?_, fun v hv htype hnum hlt ↦ ?_⟩
      · rw [hlevel, habsent hnone]
        rfl
      · obtain ⟨val, hread, hraised⟩ := hgiven v hv
        rw [hlevel, hraised, toNat_raised, toNat_of_numeral htype hnum hlt hread]
        rfl

/-- **The command line takes precedence over `debug.level`, in whatever order the options are
given.**  If the parser goes on, the last file was loaded after all `-D` had been counted, and the
level is the larger one of the count and of what the file says.  Other orders of the options, with
the files named in the same order, lead to the same state. -/
theorem makeCliParser_precedence (files : String → FileState) (opts : List Opt) (s : Settings)
    (final : Cmdline) (h : makeCliParser files opts (.start s) = (.returned (), final)) :
    Precedes files opts s final ∧
      ∀ opts', opts'.Perm opts → configs opts' = configs opts →
        makeCliParser files opts' (.start s) = (.returned (), final) := by
  refine ⟨precedes_of_returned h, fun opts' hperm hconfigs ↦ ?_⟩
  have hcontinues := continues_of_returned h
  rw [← h]
  refine makeCliParser_congr (fun o ho ↦ hcontinues o (hperm.mem_iff.mp ho)) hcontinues ?_
  rw [Cmdline.after, Cmdline.after, hconfigs, hperm.count_eq]

/-- Each file holds the document `debug: {level: 3}`. -/
def levelFiles : String → FileState := fun _ ↦ .stream
  (Tree.mapping [(.scalar "debug", .mapping [(.scalar "level", .scalar "3")])]).stream 0

/-- `-c a -D -c b -D` -/
def levelOpts : List Opt := [.config "a", .debug, .config "b", .debug]

/-- The file raises the level to 3, and it would if the options were `-D -D -c a -c b`. -/
theorem makeCliParser_precedence_sample :
    let final := (makeCliParser levelFiles levelOpts (.start {})).2
    final.debugLevel = 3 ∧ Precedes levelFiles levelOpts {} final ∧
      makeCliParser levelFiles [.debug, .debug, .config "a", .config "b"] (.start {})
        = (.returned (), final) := by
  obtain ⟨hpre, hsame⟩ := makeCliParser_precedence levelFiles levelOpts {} _ rfl
  exact ⟨rfl, hpre, hsame _ (by decide) rfl⟩

end Options
end XaMain
