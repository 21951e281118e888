import XaMain.Main.Argv
import XaMain.Main.Retries
import XaMain.Main.RoundTrip
import XaMain.Main.Threads

/-!
# The program

`main` calls `capture_init`, which parses the command line, loads the configuration file and then
the settings from the database, and `capture_main_loop`, which is in `Main/Threads.lean`.

* `captureInit_ends` — how the start can end, for all options, files and answers of the database, as
  long as the load of the file that is named last is defined.  The database decides nothing, but
  that a port in its URI may end the program.
* `program_serves` — from the words of the command line and the text of the configuration file to
  what the clients of the server see, in every run.

What the program logs is left out.
-/

set_option autoImplicit false

namespace XaMain
namespace Main

open Rpc Options Mariadb Yaml

/-! ## The start -/

/-- What `capture_init` acts on. -/
structure World where
  cmdline : Cmdline
  /-- The calls of the database client. -/
  db : Trace

/-- The start of the program, with the settings as they are then. -/
def World.start (s : Settings) : World := ⟨.start s, []⟩

/-- The static members of `options`. -/
def World.settings (w : World) : Settings := w.cmdline.config.env

section Functions

variable (env : Environment) (files : String → FileState) (opts : List Opt)

/-- The end of `options::parse_cmdline`: the settings are loaded from the database. -/
def loadDatabase (settings : Settings) : Comp World Stop Bool := do
  if settings.settingsEnabled then
    -- the result is not looked at
    let _ ← Comp.focus (·.db) (fun t w ↦ { w with db := t })
      (Comp.mapError Stop.uncaught (loadSettingsFromDatabase env dbSettings settings))
  return true

/-- `options::parse_cmdline`, with the options as `getopt_long` returns them. -/
def parseCmdline : Comp World Stop Bool := do
  Comp.focus (·.cmdline) (fun t w ↦ { w with cmdline := t }) (makeCliParser files opts)
  loadDatabase env (← Comp.gets World.settings)

/-- `capture_init` -/
def captureInit : Comp World Stop Unit := do
  if !(← parseCmdline env files opts) then
    Comp.throw (.exit 1)
  else
    return ()

end Functions

/-! ## The options -/

/-- The settings with the level counted up. -/
def withOptions (opts : List Opt) (s : Settings) : Settings :=
  { s with debugLevel := counted opts s }

/-- The settings the program goes on with: those of the file that is named last. -/
def started (files : String → FileState) (opts : List Opt) (s : Settings) : Settings :=
  match (configs opts).getLast? with
  | none => withOptions opts s
  | some filename => (fileMeaning files filename).2 • withOptions opts s

/-- The status the program exits with, if the options or the file end it. -/
def exitStatus (files : String → FileState) (opts : List Opt) : Option Nat :=
  match opts.findSome? Opt.stop? with
  | some status => some status
  | none =>
    match (configs opts).getLast? with
    | none => none
    | some filename => if fileAccepted files filename then none else some 1

section Cmdline

variable {files : String → FileState} {opts : List Opt} (s : Settings)

variable (opts) in
/-- The state after the loop over the options. -/
theorem start_after : ((Cmdline.start s).after opts).config.env = withOptions opts s ∧
    ((Cmdline.start s).after opts).config.parsers = yamlSettings ∧
    ((Cmdline.start s).after opts).configFilename = (configs opts).getLast? :=
  ⟨rfl, rfl, Option.or_none⟩

/-- A file is named, and the program goes on if it is accepted. -/
theorem makeCliParser_named (hopts : ∀ o ∈ opts, o.Continues) {filename : String}
    (hlast : (configs opts).getLast? = some filename) (hdefined : FileDefined files filename) :
    ∃ cmdline, makeCliParser files opts (.start s)
        = (if fileAccepted files filename then .returned () else .threw (.exit 1), cmdline) ∧
      cmdline.config.env = (fileMeaning files filename).2 • withOptions opts s := by
  obtain ⟨henv, htable, hname⟩ := start_after opts s
  obtain ⟨d', hparse, henv', -⟩ := parseConfig_apply files filename
    ((Cmdline.start s).after opts).config (by rw [htable])
  rw [fileMeaning_defined hdefined] at hparse
  refine ⟨{ (Cmdline.start s).after opts with
    config := d', steps := ((Cmdline.start s).after opts).steps ++ [.loaded filename] }, ?_, ?_⟩
  · rw [makeCliParser, Comp.bind_returned (parseOptions_run hopts _),
      Comp.bind_returned (Comp.gets_apply _ _), hname, hlast]
    simp only [Comp.bind_apply, loadConfig_apply, hparse]
    cases fileAccepted files filename <;> rfl
  · rw [henv', henv]

theorem makeCliParser_unnamed (hopts : ∀ o ∈ opts, o.Continues)
    (hlast : (configs opts).getLast? = none) :
    makeCliParser files opts (.start s) = (.returned (), (Cmdline.start s).after opts) := by
  obtain ⟨-, -, hname⟩ := start_after opts s
  rw [makeCliParser, Comp.bind_returned (parseOptions_run hopts _),
    Comp.bind_returned (Comp.gets_apply _ _), hname, hlast]
  rfl

variable (hdefined : ∀ filename, (configs opts).getLast? = some filename →
  FileDefined files filename)

include hdefined

/-- The parser of the command line ends the program, or returns with the settings to go on with. -/
theorem makeCliParser_ends :
    (∃ status cmdline, exitStatus files opts = some status ∧
      makeCliParser files opts (.start s) = (.threw (.exit status), cmdline)) ∨
    ∃ cmdline, exitStatus files opts = none ∧
      makeCliParser files opts (.start s) = (.returned (), cmdline) ∧
      cmdline.config.env = started files opts s := by
  cases hstop : opts.findSome? Opt.stop? with
  | some status =>
    obtain ⟨cmdline, hrun⟩ := parseOptions_stop hstop (.start s)
    refine Or.inl ⟨status, cmdline, by rw [exitStatus, hstop], ?_⟩
    rw [makeCliParser]
    exact Comp.bind_threw hrun _
  | none =>
    have hopts := continues_iff.mp hstop
    cases hlast : (configs opts).getLast? with
    | none =>
      refine Or.inr ⟨_, ?_, makeCliParser_unnamed s hopts hlast, ?_⟩
      · simp only [exitStatus, hstop, hlast]
      · rw [started, hlast]
        rfl
    | some filename =>
      obtain ⟨cmdline, hrun, henv⟩ := makeCliParser_named s hopts hlast (hdefined filename hlast)
      cases haccepted : fileAccepted files filename with
      | true =>
        rw [haccepted] at hrun
        refine Or.inr ⟨cmdline, ?_, hrun, ?_⟩
        · simp [exitStatus, hstop, hlast, haccepted]
        · rw [henv, started, hlast]
      | false =>
        rw [haccepted] at hrun
        refine Or.inl ⟨1, cmdline, ?_, hrun⟩
        simp [exitStatus, hstop, hlast, haccepted]

end Cmdline

/-! ## How the start ends -/

section Start

variable {env : Environment} {files : String → FileState} {opts : List Opt} {s : Settings}
  {cmdline : Cmdline}

/-- The command line is parsed before the database is connected to. -/
theorem focus_makeCliParser {o : Outcome Stop Unit}
    (h : makeCliParser files opts (.start s) = (o, cmdline)) :
    (Comp.focus (·.cmdline) (fun t w ↦ { w with cmdline := t }) (makeCliParser files opts) :
      Comp World Stop Unit) (.start s) = (o, ⟨cmdline, []⟩) := by
  rw [Comp.focus_apply, World.start, h]

/-- The options or the file end the program, and the database is not connected to. -/
theorem captureInit_exits {status : Nat}
    (h : makeCliParser files opts (.start s) = (.threw (.exit status), cmdline)) :
    captureInit env files opts (.start s) = (.threw (.exit status), ⟨cmdline, []⟩) := by
  have hparse : parseCmdline env files opts (.start s)
      = (.threw (.exit status), ⟨cmdline, []⟩) := Comp.bind_threw (focus_makeCliParser h) _
  exact Comp.bind_threw hparse _

theorem parseCmdline_returned (h : makeCliParser files opts (.start s) = (.returned (), cmdline)) :
    parseCmdline env files opts (.start s)
      = loadDatabase env cmdline.config.env ⟨cmdline, []⟩ := by
  rw [parseCmdline, Comp.bind_returned (focus_makeCliParser h),
    Comp.bind_returned (Comp.gets_apply _ _)]
  rfl

variable (env cmdline) in
/-- The load returns `true` whatever comes of it, unless the port in the URI ends the program. -/
theorem loadDatabase_ends (settings : Settings) : ∃ t, inits t ≤ 5 ∧
    (settings.settingsEnabled = false → t = []) ∧
    (loadDatabase env settings ⟨cmdline, []⟩ = (.returned true, ⟨cmdline, t⟩) ∨
      loadDatabase env settings ⟨cmdline, []⟩
          = (.threw (.uncaught (outOfRange "stoi")), ⟨cmdline, t⟩) ∧
        settings.settingsEnabled = true ∧ PortOverflows settings.settingsDatabaseUri) := by
  cases henabled : settings.settingsEnabled with
  | false =>
    refine ⟨[], Nat.zero_le _, fun _ ↦ rfl, Or.inl ?_⟩
    rw [loadDatabase, henabled]
    rfl
  | true =>
    have hload : loadSettingsFromDatabase env dbSettings settings []
        = attempts env dbSettings settings.settingsDatabaseUri 5 [] := by
      rw [loadSettingsFromDatabase, henabled]
      rfl
    have hrun : loadDatabase env settings ⟨cmdline, []⟩
        = (((loadSettingsFromDatabase env dbSettings settings []).1.mapError Stop.uncaught).map
            fun _ ↦ true, ⟨cmdline, (loadSettingsFromDatabase env dbSettings settings []).2⟩) := by
      rw [loadDatabase, henabled]
      show (Comp.focus _ _ _ >>= _ : Comp World Stop Bool) _ = _
      rw [Comp.bind_apply, Comp.focus_apply, Comp.mapError]
      rcases loadSettingsFromDatabase env dbSettings settings [] with ⟨_ | _ | _ | _, t⟩ <;> rfl
    have hattempted := attempted env dbSettings settings.settingsDatabaseUri 5 []
    rw [← hload] at hattempted
    rw [hrun]
    generalize loadSettingsFromDatabase env dbSettings settings [] = r at hattempted
    obtain ⟨o, t⟩ := r
    refine ⟨t, hattempted.inits_le.trans_eq (Nat.zero_add 5), by simp, ?_⟩
    cases hattempted with
    | failed | loaded => exact Or.inl rfl
    | threw _ _ hport _ => exact Or.inr ⟨rfl, rfl, hport⟩

variable (env s) in
/-- The start ends with a status, or gets to the database. -/
theorem captureInit_cases (hdefined : ∀ filename, (configs opts).getLast? = some filename →
      FileDefined files filename) :
    (∃ status w, exitStatus files opts = some status ∧
      captureInit env files opts (.start s) = (.threw (.exit status), w)) ∨
    exitStatus files opts = none ∧ ∃ w, w.settings = started files opts s ∧ inits w.db ≤ 5 ∧
      (w.settings.settingsEnabled = false → w.db = []) ∧
      (captureInit env files opts (.start s) = (.returned (), w) ∨
        captureInit env files opts (.start s) = (.threw (.uncaught (outOfRange "stoi")), w) ∧
          w.settings.settingsEnabled = true ∧ PortOverflows w.settings.settingsDatabaseUri) := by
  obtain ⟨status, cmdline, hstatus, hrun⟩ | ⟨cmdline, hstatus, hrun, henv⟩ :=
    makeCliParser_ends s hdefined
  · exact Or.inl ⟨status, _, hstatus, captureInit_exits hrun⟩
  · obtain ⟨t, hinits, hnone, hdb | ⟨hdb, hport⟩⟩ :=
      loadDatabase_ends env cmdline cmdline.config.env
    · refine Or.inr ⟨hstatus, ⟨cmdline, t⟩, henv, hinits, hnone, Or.inl ?_⟩
      rw [captureInit, Comp.bind_returned ((parseCmdline_returned hrun).trans hdb)]
      rfl
    · refine Or.inr ⟨hstatus, ⟨cmdline, t⟩, henv, hinits, hnone, Or.inr ⟨?_, hport⟩⟩
      rw [captureInit, Comp.bind_threw ((parseCmdline_returned hrun).trans hdb)]

end Start

section Render

variable {files : String → FileState} {opts : List Opt} {filename : String} {t : Tree}
  {s : Settings} (hfile : Holds files filename t) (hsame : t.Same (render s))
  (hlevel : s.debugLevel.toNat < 2 ^ 31)

include hfile hsame hlevel

/-- What a file that says the settings `s` means. -/
theorem fileMeaning_render : fileMeaning files filename = (.returned true, settingsPatch s) := by
  have haccepted : Accepted (render s).node :=
    ⟨render_type s, by rw [meaning_render s hlevel]⟩
  rw [fileMeaning_same hfile hsame trivial (render_fault s), decide_eq_true haccepted,
    meaning_render s hlevel]

theorem fileDefined_render : FileDefined files filename := by
  have hmeaning := fileMeaning_render hfile hsame hlevel
  intro hundefined
  rw [fileMeaning] at hmeaning
  rcases hload : loadFile files filename { node := .fresh, events := [] }
    with ⟨ok | e | _ | _, loaded⟩ <;> rw [hload] at hundefined hmeaning
  case undefined => simp at hmeaning
  all_goals simp at hundefined

variable (hlast : (configs opts).getLast? = some filename)

include hlast

/-- The program goes on with these settings, whatever the options did to the level. -/
theorem started_render (s₀ : Settings) : started files opts s₀
    = { s with debugLevel := raised (withOptions opts s₀).debugLevel s.debugLevel } := by
  rw [started, hlast]
  simp only [fileMeaning_render hfile hsame hlevel, settingsPatch_smul]

theorem exitStatus_render (hopts : opts.findSome? Opt.stop? = none) :
    exitStatus files opts = none := by
  have haccepted : fileAccepted files filename = true := by
    rw [fileAccepted, fileMeaning_render hfile hsame hlevel]
    rfl
  simp [exitStatus, hopts, hlast, haccepted]

end Render

/-- What the clients of the server see of the settings. -/
structure ServesAs (lib : HttpLib) (s : Settings) (st : State) : Prop where
  /-- The server listens where the settings say, if it is enabled. -/
  listening : ∀ a, st.listening = some a →
    s.controlEnabled = true ∧ a = (s.controlListenAddress, toString s.controlListenPort.toNat)
  enabled : st.served ≠ [] → s.controlEnabled = true
  /-- A call is answered with the reply to its body. -/
  calls : ∀ p ∈ st.served, p.1.IsCall → p.2.status = (reply (lib.parse p.1.body)).1 ∧
    p.2.content = lib.write (reply (lib.parse p.1.body)).2
  /-- A response has the headers for CORS that the settings say. -/
  cors : ∀ p ∈ st.served, ∀ name ∈ corsHeaders,
    headerValues name p.2.headers = corsValues s.controlAllowCors p.1 name

theorem captureMainLoop_servesAs {lib : HttpLib} (hstock : lib.PlainStock) {options : Settings}
    {l : List Event} {st : State} (h : (captureMainLoop lib options).run l = some st) :
    ServesAs lib options st := by
  have hplaced := placed h
  refine ⟨hplaced.listening, fun hne ↦ ?_, fun p hp hcall ↦ ?_, fun p hp name hname ↦ ?_⟩
  · obtain ⟨p, hp⟩ := List.exists_mem_of_ne_nil _ hne
    exact (hplaced.served p hp).1
  · have hrun : handle lib (rpc options.controlAllowCors) p.1 ⟨0, [], ""⟩ = _ :=
      handle_call_returned hcall (post_eq options.controlAllowCors (lib.parse p.1.body))
    rw [(hplaced.served p hp).2, respond, hrun]
    exact ⟨lib.status_stockReply _ _, lib.content_stockReply _ _⟩
  · obtain ⟨response, hrun⟩ := handle_rpc lib options.controlAllowCors p.1 ⟨0, [], ""⟩
    rw [(hplaced.served p hp).2, respond, hrun]
    exact handle_corsValues hstock hrun hname

/-- **From the command line and the configuration file to the clients.**  If the command line is an
accepted one, and the file that it names last says the settings `s`, in whatever order, then the
program starts, whatever the database answers; and in every run of its threads the server listens
where the file says, if at all, a call is answered with the reply to its body, and no response has a
header for CORS that the file does not allow. -/
theorem program_serves (lib : HttpLib) (hstock : lib.PlainStock) (env : Environment)
    (files : String → FileState) (posixlyCorrect : Bool) (args : List String) (opts : List Opt)
    (filename : String) (t : Tree) (s : Settings)
    (hargs : CommandLine posixlyCorrect (args.map String.toList) opts)
    (hlast : (configs opts).getLast? = some filename) (hfile : Holds files filename t)
    (hsame : t.Same (render s)) (hlevel : s.debugLevel.toNat < 2 ^ 31)
    (hport : ¬ (s.settingsEnabled = true ∧ PortOverflows s.settingsDatabaseUri)) :
    ∃ w, captureInit env files (cmdlineOpts posixlyCorrect args) (.start {}) = (.returned (), w) ∧
      ∀ l st, (captureMainLoop lib w.settings).run l = some st → ServesAs lib s st := by
  rw [cmdlineOpts_of_commandLine hargs]
  have hstatus := exitStatus_render hfile hsame hlevel hlast (continues_iff.mpr hargs.continues)
  have hstarted := started_render hfile hsame hlevel hlast {}
  obtain ⟨status, -, hexit, -⟩ | ⟨-, w, hsettings, -, -, hinit | ⟨-, hthrew⟩⟩ :=
    captureInit_cases env {} fun name (hname : (configs opts).getLast? = some name) ↦ by
      obtain rfl : filename = name := Option.some.inj (hlast.symm.trans hname)
      exact fileDefined_render hfile hsame hlevel
  · rw [hstatus] at hexit
    cases hexit
  · refine ⟨w, hinit, fun l st hrun ↦ ?_⟩
    rw [hsettings, hstarted] at hrun
    obtain ⟨hlistening, henabled, hcalls, hcors⟩ := captureMainLoop_servesAs hstock hrun
    exact ⟨hlistening, henabled, hcalls, hcors⟩
  · rw [hsettings, hstarted] at hthrew
    exact absurd hthrew hport

/-- `-D -c main.yaml`.  With `etc/main.yaml` no response has such a header. -/
theorem program_serves_mainYaml : ∃ w,
    captureInit serving (fun _ ↦ .stream mainYaml.stream 0)
      (cmdlineOpts false ["-D", "-c", "main.yaml"]) (.start {}) = (.returned (), w) ∧
    ∀ l st, (captureMainLoop plainLib w.settings).run l = some st →
      ServesAs plainLib mainSettings st :=
  program_serves plainLib plainLib_plainStock serving (fun _ ↦ .stream mainYaml.stream 0) false
    ["-D", "-c", "main.yaml"] [.debug, .config "main.yaml"] "main.yaml" mainYaml mainSettings
    (.debug one_ne_zero (.configWord 0 "main.yaml".toList .nil)) rfl ⟨0, rfl⟩ mainYaml_same
    (by decide) (by simp [mainSettings])

end Main
end XaMain
