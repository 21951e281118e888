import XaMain.Lib.LastWins
import XaMain.Main.Cmdline
import XaMain.Yaml.Denotation
import XaMain.Yaml.SharedTable
import Mathlib.Algebra.Group.Action.Defs

/-!
# What a configuration file means

A configuration file is a document, and the document says what becomes of the settings.  A `Patch`
is that: for each setting the value it is given, if it is given one, and for the level of the debug
messages the value it is raised to.  Patches are a monoid that acts on the settings, in which the
last value wins, so what a sequence of files does is the product of what each of them does.

* `callPatch` — what the file says with one entry, and `handler_patched`: the handlers do that.
* `meaning` — what the calls for a document say up to the first that is refused, and with what it
  is refused; `runs_meaning`: a run of the handlers does that.
* `parseConfig_meaning` — `parse_config` on every file whose load returns or throws, from any
  settings.
* `parseConfigs_settle` — what any sequence of such files leaves of the settings.
* `parseConfig_order` — the order of the entries in a document without a fault makes no difference.
-/

set_option autoImplicit false

namespace XaMain
namespace Options

open Yaml

/-! ## Patches -/

/-- What a file says of the settings. -/
@[ext]
structure Patch where
  pathPrefix : Option String := none
  /-- The level is raised to this. -/
  debugLevel : UInt32 := 0
  controlEnabled : Option Bool := none
  controlListenAddress : Option String := none
  controlListenPort : Option UInt16 := none
  controlAllowCors : Option Bool := none
  settingsEnabled : Option Bool := none
  settingsDatabaseUri : Option String := none
  deriving DecidableEq

namespace Patch

instance : One Patch := ⟨{}⟩

/-- `q * p` is the patch `p` and then `q`. -/
instance : Mul Patch where
  mul q p := {
    pathPrefix := q.pathPrefix.or p.pathPrefix
    debugLevel := raised p.debugLevel q.debugLevel
    controlEnabled := q.controlEnabled.or p.controlEnabled
    controlListenAddress := q.controlListenAddress.or p.controlListenAddress
    controlListenPort := q.controlListenPort.or p.controlListenPort
    controlAllowCors := q.controlAllowCors.or p.controlAllowCors
    settingsEnabled := q.settingsEnabled.or p.settingsEnabled
    settingsDatabaseUri := q.settingsDatabaseUri.or p.settingsDatabaseUri }

/-- The settings with the patch. -/
instance : SMul Patch Settings where
  smul p s := {
    pathPrefix := p.pathPrefix.getD s.pathPrefix
    debugLevel := raised s.debugLevel p.debugLevel
    controlEnabled := p.controlEnabled.getD s.controlEnabled
    controlListenAddress := p.controlListenAddress.getD s.controlListenAddress
    controlListenPort := p.controlListenPort.getD s.controlListenPort
    controlAllowCors := p.controlAllowCors.getD s.controlAllowCors
    settingsEnabled := p.settingsEnabled.getD s.settingsEnabled
    settingsDatabaseUri := p.settingsDatabaseUri.getD s.settingsDatabaseUri }

theorem one_eq : (1 : Patch) = {} := rfl

theorem mul_eq (q p : Patch) : q * p = {
    pathPrefix := q.pathPrefix.or p.pathPrefix
    debugLevel := raised p.debugLevel q.debugLevel
    controlEnabled := q.controlEnabled.or p.controlEnabled
    controlListenAddress := q.controlListenAddress.or p.controlListenAddress
    controlListenPort := q.controlListenPort.or p.controlListenPort
    controlAllowCors := q.controlAllowCors.or p.controlAllowCors
    settingsEnabled := q.settingsEnabled.or p.settingsEnabled
    settingsDatabaseUri := q.settingsDatabaseUri.or p.settingsDatabaseUri } := rfl

theorem smul_eq (p : Patch) (s : Settings) : p • s = {
    pathPrefix := p.pathPrefix.getD s.pathPrefix
    debugLevel := raised s.debugLevel p.debugLevel
    controlEnabled := p.controlEnabled.getD s.controlEnabled
    controlListenAddress := p.controlListenAddress.getD s.controlListenAddress
    controlListenPort := p.controlListenPort.getD s.controlListenPort
    controlAllowCors := p.controlAllowCors.getD s.controlAllowCors
    settingsEnabled := p.settingsEnabled.getD s.settingsEnabled
    settingsDatabaseUri := p.settingsDatabaseUri.getD s.settingsDatabaseUri } := rfl

end Patch

theorem raised_zero (level : UInt32) : raised level 0 = level := by
  refine UInt32.toNat.inj ?_
  rw [toNat_raised]
  exact Nat.max_zero _

theorem zero_raised (level : UInt32) : raised 0 level = level := by
  refine UInt32.toNat.inj ?_
  rw [toNat_raised]
  exact Nat.zero_max _

theorem raised_assoc (a b c : UInt32) : raised (raised a b) c = raised a (raised b c) := by
  refine UInt32.toNat.inj ?_
  simp only [toNat_raised, Nat.max_assoc]

/-- Raising the level to a value again makes no difference. -/
theorem raised_again (a b : UInt32) : raised a (raised b a) = raised b a := by
  refine UInt32.toNat.inj ?_
  simp only [toNat_raised]
  omega

theorem or_again {α : Type} (p q : Option α) : (p.or q).or p = p.or q := by
  cases p <;> cases q <;> rfl

instance : Monoid Patch where
  mul_assoc p q r := by
    simp only [Patch.mul_eq, Option.or_assoc, raised_assoc]
  one_mul p := by
    simp only [Patch.mul_eq, Patch.one_eq, Option.none_or, raised_zero]
  mul_one p := by
    simp only [Patch.mul_eq, Patch.one_eq, Option.or_none, zero_raised]

instance : MulAction Patch Settings where
  one_smul s := by
    simp only [Patch.smul_eq, Patch.one_eq, Option.getD_none, raised_zero]
  mul_smul q p s := by
    simp only [Patch.smul_eq, Patch.mul_eq, Option.getD_or, raised_assoc]

/-- **A file that is loaded again later need not have been loaded before.** -/
instance : LastWins Patch where
  mul_again p q := by
    simp only [Patch.mul_eq, or_again, raised_again]

/-! ## One entry -/

/-- A key that the program knows. -/
structure SettingKey where
  mkey : String
  key : String
  /-- How its value is read. -/
  read : Node → Except Exception Patch

/-- The sections that the program knows. -/
def settingSections : List String := ["control", "debug", "paths", "settings"]

/-- The keys that the program knows. -/
def settingKeys : List SettingKey := [
  ⟨"control", "enabled", fun v ↦ v.asBoolean.map fun b ↦ { controlEnabled := some b }⟩,
  ⟨"control", "listen-address", fun v ↦
    v.asString.map fun a ↦ { controlListenAddress := some a }⟩,
  ⟨"control", "listen-port", fun v ↦
    v.asInteger.map fun n ↦ { controlListenPort := some n.toUInt16 }⟩,
  ⟨"control", "allow-cors", fun v ↦ v.asBoolean.map fun b ↦ { controlAllowCors := some b }⟩,
  ⟨"debug", "level", fun v ↦ v.asInteger.map fun val ↦ { debugLevel := val }⟩,
  ⟨"paths", "prefix", fun v ↦ v.asString.map fun a ↦ { pathPrefix := some a }⟩,
  ⟨"settings", "enabled", fun v ↦ v.asBoolean.map fun b ↦ { settingsEnabled := some b }⟩,
  ⟨"settings", "database", fun v ↦
    v.asString.map fun a ↦ { settingsDatabaseUri := some a }⟩]

/-- What a file says with one of its entries.  A section that is not known is an error, and a key
that is not known says nothing. -/
def callPatch (c : Call) : Except Exception Patch :=
  if c.mkey ∈ settingSections then
    match settingKeys.find? fun k ↦ k.mkey = c.mkey ∧ k.key = c.key with
    | some k => k.read c.value
    | none => .ok 1
  else
    .error badFunctionCall

/-- What a handler does with a value, if the value says `r`. -/
def patched (r : Except Exception Patch) (value : Node) (s : Settings) :
    Except Exception Bool × Node × Settings :=
  match r with
  | .ok p => (.ok true, value, p • s)
  | .error e => (.error e, value, s)

theorem reading_patched {α : Type} {read : Except Exception α} {next : α → Bool × Settings}
    {g : α → Patch} {s : Settings} (h : ∀ a, next a = (true, g a • s)) (value : Node) :
    reading read next value s = patched (read.map g) value s := by
  cases read with
  | error e => rfl
  | ok a =>
    rw [reading, h a]
    rfl

theorem patched_one (value : Node) (s : Settings) :
    patched (.ok 1) value s = (.ok true, value, s) := by
  rw [patched, one_smul]

section Handlers

variable (key : String) (value : Node) (s : Settings)

theorem debugHandler_patched :
    debugHandler key value s = patched (callPatch ⟨"debug", key, value⟩) value s := by
  by_cases hlevel : key = "level"
  · subst hlevel
    refine reading_patched (fun val ↦ ?_) value
    simp only [Patch.smul_eq, raised]
    split_ifs <;> rfl
  · have hread : callPatch ⟨"debug", key, value⟩ = .ok 1 := by
      simp [callPatch, settingSections, settingKeys, Ne.symm hlevel]
    rw [debugHandler, if_neg hlevel, hread, patched_one]

theorem controlHandler_patched :
    controlHandler key value s = patched (callPatch ⟨"control", key, value⟩) value s := by
  by_cases henabled : key = "enabled"
  · subst henabled
    refine reading_patched (fun b ↦ ?_) value
    simp only [Patch.smul_eq, raised_zero, Option.getD_some, Option.getD_none]
  by_cases haddress : key = "listen-address"
  · subst haddress
    refine reading_patched (fun a ↦ ?_) value
    simp only [Patch.smul_eq, raised_zero, Option.getD_some, Option.getD_none]
  by_cases hport : key = "listen-port"
  · subst hport
    -- the port has been cut to 16 bits, so the check never fails
    refine reading_patched (fun n ↦ ?_) value
    simp only [Validation.validatePortNumber_toUInt32, Patch.smul_eq, raised_zero,
      Option.getD_some, Option.getD_none]
  by_cases hcors : key = "allow-cors"
  · subst hcors
    refine reading_patched (fun b ↦ ?_) value
    simp only [Patch.smul_eq, raised_zero, Option.getD_some, Option.getD_none]
  · have hread : callPatch ⟨"control", key, value⟩ = .ok 1 := by
      simp [callPatch, settingSections, settingKeys, Ne.symm henabled, Ne.symm haddress,
        Ne.symm hport, Ne.symm hcors]
    rw [controlHandler, if_neg henabled, if_neg haddress, if_neg hport, if_neg hcors, hread,
      patched_one]

theorem pathsHandler_patched :
    pathsHandler key value s = patched (callPatch ⟨"paths", key, value⟩) value s := by
  by_cases hstart : key = "prefix"
  · subst hstart
    refine reading_patched (fun a ↦ ?_) value
    simp only [Patch.smul_eq, raised_zero, Option.getD_some, Option.getD_none]
  · have hread : callPatch ⟨"paths", key, value⟩ = .ok 1 := by
      simp [callPatch, settingSections, settingKeys, Ne.symm hstart]
    rw [pathsHandler, if_neg hstart, hread, patched_one]

theorem settingsHandler_patched :
    settingsHandler key value s = patched (callPatch ⟨"settings", key, value⟩) value s := by
  by_cases henabled : key = "enabled"
  · subst henabled
    refine reading_patched (fun b ↦ ?_) value
    simp only [Patch.smul_eq, raised_zero, Option.getD_some, Option.getD_none]
  by_cases hdatabase : key = "database"
  · subst hdatabase
    refine reading_patched (fun a ↦ ?_) value
    simp only [Patch.smul_eq, raised_zero, Option.getD_some, Option.getD_none]
  · have hread : callPatch ⟨"settings", key, value⟩ = .ok 1 := by
      simp [callPatch, settingSections, settingKeys, Ne.symm henabled, Ne.symm hdatabase]
    rw [settingsHandler, if_neg henabled, if_neg hdatabase, hread, patched_one]

end Handlers

/-- **A handler does what the file says with the entry**, and a section that is not known has no
handler. -/
theorem handler_patched (c : Call) :
    match yamlSettings.handler c.mkey with
    | some f => ∀ s, f c.key c.value s = patched (callPatch c) c.value s
    | none => callPatch c = .error badFunctionCall := by
  obtain ⟨mkey, key, value⟩ := c
  by_cases hmem : mkey ∈ settingSections
  · simp only [settingSections, List.mem_cons, List.not_mem_nil, or_false] at hmem
    rcases hmem with rfl | rfl | rfl | rfl
    · exact controlHandler_patched key value
    · exact debugHandler_patched key value
    · exact pathsHandler_patched key value
    · exact settingsHandler_patched key value
  · cases hf : yamlSettings.handler mkey with
    | none => exact if_neg hmem
    | some f =>
      refine absurd ?_ hmem
      rcases yamlSettings_handler hf with ⟨rfl, -⟩ | ⟨rfl, -⟩ | ⟨rfl, -⟩ | ⟨rfl, -⟩ <;> decide

/-! ## A whole file -/

/-- What the calls for a document say, up to the first that is refused, and with what that one is
refused. -/
def meaning : List Call → Patch × Option Exception
  | [] => (1, none)
  | c :: calls =>
    match callPatch c with
    | .ok p => ((meaning calls).1 * p, (meaning calls).2)
    | .error e => (1, some e)

theorem meaning_accepted {c : Call} {p : Patch} (h : callPatch c = .ok p) (calls : List Call) :
    meaning (c :: calls) = ((meaning calls).1 * p, (meaning calls).2) := by
  rw [meaning, h]

theorem meaning_refused {c : Call} {e : Exception} (h : callPatch c = .error e)
    (calls : List Call) : meaning (c :: calls) = (1, some e) := by
  rw [meaning, h]

/-- How a run ends that comes upon this. -/
def refusal : Option Exception → Outcome Exception Unit
  | none => .returned ()
  | some e => .threw e

/-- **The handlers do what the file says**, up to the first entry that one of them refuses. -/
theorem runs_meaning {calls : List Call} {s s' : Settings} {log : List Invocation}
    {o : Outcome Exception Unit} (h : Runs yamlSettings.handler calls s log o s') :
    s' = (meaning calls).1 • s ∧ o = refusal (meaning calls).2 := by
  induction h with
  | done s => exact ⟨(one_smul Patch s).symm, rfl⟩
  | @accepted c calls f value s s₁ s₂ log o hf hr _ ih =>
    have hc := handler_patched c
    rw [hf] at hc
    rw [hc s] at hr
    cases hp : callPatch c with
    | error e =>
      rw [hp, patched] at hr
      simp at hr
    | ok p =>
      rw [hp, patched, Prod.mk.injEq, Prod.mk.injEq] at hr
      rw [meaning_accepted hp, mul_smul, hr.2.2]
      exact ih
  | @refused c f value s s₁ calls hf hr =>
    have hc := handler_patched c
    rw [hf] at hc
    rw [hc s] at hr
    cases hp : callPatch c <;> rw [hp, patched] at hr <;> simp at hr
  | @raised c f value s s₁ e calls hf hr =>
    have hc := handler_patched c
    rw [hf] at hc
    rw [hc s] at hr
    cases hp : callPatch c with
    | ok p =>
      rw [hp, patched] at hr
      simp at hr
    | error e' =>
      rw [hp, patched, Prod.mk.injEq, Except.error.injEq, Prod.mk.injEq] at hr
      rw [meaning_refused hp, one_smul, hr.1, hr.2.2]
      exact ⟨rfl, rfl⟩
  | @missing c calls s hf =>
    have hc := handler_patched c
    rw [hf] at hc
    rw [meaning_refused hc, one_smul]
    exact ⟨rfl, rfl⟩

/-- A document that the program accepts. -/
def Accepted (n : Node) : Prop := n.type = .mapping ∧ (meaning n.calls).2 = none

instance (n : Node) : Decidable (Accepted n) := inferInstanceAs (Decidable (_ ∧ _))

/-- How `parse_config` ends on a file, and what the file says of the settings. -/
def fileMeaning (files : String → FileState) (filename : String) :
    Outcome Exception Bool × Patch :=
  match loadFile files filename { node := .fresh, events := [] } with
  | (.returned _, loaded) =>
    (.returned (decide (Accepted loaded.node)), (meaning loaded.node.calls).1)
  | (.threw _, _) => (.returned false, 1)
  | (.undefined, _) => (.undefined, 1)
  | (.exhausted, _) => (.exhausted, 1)

/-- A file that can be loaded. -/
theorem loadSettings_meaning {files : String → FileState} {filename : String} {ok : Bool}
    {loaded : Loading}
    (h : loadFile files filename { node := .fresh, events := [] } = (.returned ok, loaded))
    {d : Dispatch Settings} (hd : d.parsers.handler = yamlSettings.handler) :
    ∃ final, loadSettings files filename ({ node := .fresh, events := [] }, d)
        = (.returned (decide (Accepted loaded.node)), final) ∧
      final.2.env = (meaning loaded.node.calls).1 • d.env := by
  have hloads := loadFile_loads files filename { node := .fresh, events := [] } rfl
  rw [h] at hloads
  by_cases hn : loaded.node.type = .mapping
  · have htree : Loaded loaded.node := hloads.resolve_left fun hfresh ↦ by
      rw [hfresh] at hn
      exact absurd hn (by decide)
    obtain ⟨o, log, b, final, hsettings, hrun, -, hreturned, hthrew⟩ :=
      loadSettings_mapping h htree hn d
    rw [hd] at hrun
    obtain ⟨henv, ho⟩ := runs_meaning hrun
    refine ⟨final, ?_, henv⟩
    cases hm : (meaning loaded.node.calls).2 with
    | none =>
      rw [hsettings, (hreturned (by rw [ho, hm]; rfl)).1, decide_eq_true ⟨hn, hm⟩]
    | some e =>
      have hno : ¬ Accepted loaded.node := by
        rintro ⟨-, hnone⟩
        rw [hnone] at hm
        simp at hm
      rw [hsettings, (hthrew e (by rw [ho, hm]; rfl)).1, decide_eq_false hno]
  · obtain ⟨message, hcatch⟩ := catchClauses_apply (typeMismatch "Not a mapping node") (loaded, d)
    rw [← loadFileWithFmap_notMapping h hn] at hcatch
    rw [loadSettings_eq hcatch fun _ ↦ rfl, decide_eq_false fun hacc : Accepted _ ↦ hn hacc.1]
    refine ⟨_, rfl, ?_⟩
    rw [Node.calls, if_neg hn, meaning, one_smul]

/-- `parse_config` ends as the file says, and leaves the settings with what the file says. -/
theorem parseConfig_apply (files : String → FileState) (filename : String)
    (d : Dispatch Settings) (hd : d.parsers.handler = yamlSettings.handler) :
    ∃ d', parseConfig files filename d = ((fileMeaning files filename).1, d') ∧
      d'.env = (fileMeaning files filename).2 • d.env ∧
      d'.parsers.handler = yamlSettings.handler := by
  have htable := (grows_closed.loadSettings files filename
    ({ node := .fresh, events := [] }, d)).handler_eq.trans hd
  rw [parseConfig, Comp.focus_apply, fileMeaning]
  rcases hload : loadFile files filename { node := .fresh, events := [] }
    with ⟨ok | e | _ | _, loaded⟩
  case returned =>
    obtain ⟨final, hsettings, henv⟩ := loadSettings_meaning hload hd
    rw [hsettings] at htable ⊢
    exact ⟨_, rfl, henv, htable⟩
  case threw =>
    obtain ⟨message, hcatch⟩ := catchClauses_apply e (loaded, d)
    rw [← loadFileWithFmap_threw hload] at hcatch
    rw [loadSettings_eq hcatch fun _ ↦ rfl]
    exact ⟨d, rfl, (one_smul Patch d.env).symm, hd⟩
  case undefined =>
    have hundefined : loadSettings files filename ({ node := .fresh, events := [] }, d)
        = (.undefined, (loaded, d)) := by
      rw [loadSettings, loadFileWithFmap, Comp.bind_apply, Comp.tryCatch_apply, Comp.bind_apply,
        onLoading, Comp.focus_apply, hload]
    rw [hundefined]
    exact ⟨d, rfl, (one_smul Patch d.env).symm, hd⟩
  case exhausted =>
    have hloads := loadFile_loads files filename { node := .fresh, events := [] } rfl
    rw [hload] at hloads
    exact hloads.elim

/-! ## Many files -/

/-- Calls of `parse_config`, one after the other, with what they return. -/
def parseConfigs (files : String → FileState) :
    List String → Comp (Dispatch Settings) Exception (List Bool)
  | [] => return []
  | filename :: names => do
    let result ← parseConfig files filename
    let results ← parseConfigs files names
    return result :: results

/-- What is left of a setting: the value of the last patch that gives it one. -/
def lastGiven {α : Type} (field : Patch → Option α) (patches : List Patch) (before : α) : α :=
  (patches.reverse.findSome? field).getD before

/-- The settings `s'` are what the patches leave of the settings `s`: the level is the largest there
is, and of every other setting the last value counts. -/
structure Settled (patches : List Patch) (s s' : Settings) : Prop where
  pathPrefix : s'.pathPrefix = lastGiven Patch.pathPrefix patches s.pathPrefix
  debugLevel : s'.debugLevel.toNat
    = max s.debugLevel.toNat ((patches.map fun p ↦ p.debugLevel.toNat).foldr max 0)
  controlEnabled : s'.controlEnabled = lastGiven Patch.controlEnabled patches s.controlEnabled
  controlListenAddress : s'.controlListenAddress
    = lastGiven Patch.controlListenAddress patches s.controlListenAddress
  controlListenPort : s'.controlListenPort
    = lastGiven Patch.controlListenPort patches s.controlListenPort
  controlAllowCors : s'.controlAllowCors
    = lastGiven Patch.controlAllowCors patches s.controlAllowCors
  settingsEnabled : s'.settingsEnabled = lastGiven Patch.settingsEnabled patches s.settingsEnabled
  settingsDatabaseUri : s'.settingsDatabaseUri
    = lastGiven Patch.settingsDatabaseUri patches s.settingsDatabaseUri

/-- The patches in turn settle the settings. -/
theorem settled_total (patches : List Patch) (s : Settings) :
    Settled patches s (LastWins.total id patches • s) := by
  have hfield {α : Type} (g : Patch → Option α) (hone : g 1 = none)
      (hmul : ∀ q p, g (q * p) = (g q).or (g p)) (before : α) :
      (g (LastWins.total id patches)).getD before = lastGiven g patches before := by
    rw [LastWins.total_overwritten hone hmul]
    rfl
  refine ⟨hfield _ rfl (fun _ _ ↦ rfl) _, ?_, hfield _ rfl (fun _ _ ↦ rfl) _,
    hfield _ rfl (fun _ _ ↦ rfl) _, hfield _ rfl (fun _ _ ↦ rfl) _, hfield _ rfl (fun _ _ ↦ rfl) _,
    hfield _ rfl (fun _ _ ↦ rfl) _, hfield _ rfl (fun _ _ ↦ rfl) _⟩
  rw [Patch.smul_eq, toNat_raised, LastWins.total_raised (g := fun p : Patch ↦ p.debugLevel.toNat)
    rfl fun q p ↦ toNat_raised p.debugLevel q.debugLevel]
  rfl

/-- The calls up to the first that is refused, and what they say. -/
theorem meaning_split (calls : List Call) :
    ∃ k patches, (calls.take k).map callPatch = patches.map Except.ok ∧
      (meaning calls).1 = LastWins.total id patches ∧
      (∀ c, calls[k]? = some c → ∃ e, callPatch c = .error e) ∧
      ((meaning calls).2 = none ↔ ∀ c ∈ calls, ∃ p, callPatch c = .ok p) := by
  induction calls with
  | nil => exact ⟨0, [], rfl, rfl, fun c hc ↦ (by simp at hc), by simp [meaning]⟩
  | cons c calls ih =>
    cases hp : callPatch c with
    | error e =>
      refine ⟨0, [], rfl, by rw [meaning_refused hp]; rfl, fun c' hc' ↦ ?_, ?_⟩
      · obtain rfl : c = c' := by simpa using hc'
        exact ⟨e, hp⟩
      · simp [meaning_refused hp, hp]
    | ok p =>
      obtain ⟨k, patches, htake, htotal, hnext, hall⟩ := ih
      refine ⟨k + 1, p :: patches, ?_, ?_, fun c' hc' ↦ hnext c' (by simpa using hc'), ?_⟩
      · rw [List.take_succ_cons, List.map_cons, List.map_cons, htake, hp]
      · rw [meaning_accepted hp, LastWins.total, htotal]
        rfl
      · rw [meaning_accepted hp, hall, List.forall_mem_cons, and_iff_right ⟨p, hp⟩]

/-- **What `parse_config` does with a file** whose load returns or throws, from any settings.  It
returns `true` exactly if the root is a mapping and every entry is one that the program can read,
whatever the settings are.  The entries before the first that cannot be read are not taken back: the
settings are settled by what they say.  A file whose load throws is refused and changes nothing. -/
theorem parseConfig_meaning (files : String → FileState) (filename : String)
    (d : Dispatch Settings) (hd : d.parsers.handler = yamlSettings.handler) :
    (∀ ok loaded,
      loadFile files filename { node := .fresh, events := [] } = (.returned ok, loaded) →
      ∃ b k patches d', parseConfig files filename d = (.returned b, d') ∧
        (b = true ↔
          loaded.node.type = .mapping ∧ ∀ c ∈ loaded.node.calls, ∃ p, callPatch c = .ok p) ∧
        (loaded.node.calls.take k).map callPatch = patches.map Except.ok ∧
        (∀ c, loaded.node.calls[k]? = some c → ∃ e, callPatch c = .error e) ∧
        Settled patches d.env d'.env) ∧
    (∀ e loaded,
      loadFile files filename { node := .fresh, events := [] } = (.threw e, loaded) →
      ∃ d', parseConfig files filename d = (.returned false, d') ∧ d'.env = d.env) := by
  obtain ⟨d', hparse, henv, -⟩ := parseConfig_apply files filename d hd
  rw [fileMeaning] at hparse henv
  refine ⟨fun ok loaded hload ↦ ?_, fun e loaded hload ↦ ?_⟩
  · rw [hload] at hparse henv
    obtain ⟨k, patches, htake, htotal, hnext, hall⟩ := meaning_split loaded.node.calls
    have hsettled := settled_total patches d.env
    rw [← htotal] at hsettled
    refine ⟨_, k, patches, d', hparse, ?_, htake, hnext, henv ▸ hsettled⟩
    rw [decide_eq_true_iff]
    exact and_congr_right fun _ ↦ hall
  · rw [hload] at hparse henv
    exact ⟨d', hparse, henv.trans (one_smul Patch d.env)⟩

/-- The document `debug: {level: high}`. -/
def badLevelTree : Tree :=
  .mapping [(.scalar "debug", .mapping [(.scalar "level", .scalar "high")])]

/-- What is no number is refused. -/
theorem parseConfig_meaning_sample :
    (parseConfig (fun _ ↦ .stream badLevelTree.stream 0) "a"
      { parsers := yamlSettings, env := {} }).1 = .returned false := by
  obtain ⟨s, hrun, hnode⟩ := Load.run_node (.file (fun _ ↦ .stream badLevelTree.stream 0) "a")
    badLevelTree ⟨0, rfl⟩ trivial rfl
  obtain ⟨b, k, patches, d', hparse, hiff, -⟩ :=
    (parseConfig_meaning (fun _ ↦ .stream badLevelTree.stream 0) "a"
      { parsers := yamlSettings, env := {} } rfl).1 true s hrun
  have hb : b ≠ true := fun hb ↦ by
    rw [hnode] at hiff
    obtain ⟨p, hp⟩ := (hiff.mp hb).2 ⟨"debug", "level", scalarNode "high"⟩ List.mem_cons_self
    have hrefused : callPatch ⟨"debug", "level", scalarNode "high"⟩
        = .error (invalidArgument "stoi") := rfl
    rw [hrefused] at hp
    simp at hp
  rw [hparse, Bool.eq_false_of_not_eq_true hb]

/-- Is a file accepted? -/
def fileAccepted (files : String → FileState) (filename : String) : Bool :=
  (fileMeaning files filename).1 = .returned true

/-- The load of a file has a meaning: no key of a mapping in it is something else than a scalar. -/
def FileDefined (files : String → FileState) (filename : String) : Prop :=
  (loadFile files filename { node := .fresh, events := [] }).1 ≠ .undefined

theorem fileMeaning_defined {files : String → FileState} {filename : String}
    (h : FileDefined files filename) :
    (fileMeaning files filename).1 = .returned (fileAccepted files filename) := by
  have hloads := loadFile_loads files filename { node := .fresh, events := [] } rfl
  rw [FileDefined] at h
  rw [fileAccepted, fileMeaning]
  rcases hload : loadFile files filename { node := .fresh, events := [] }
    with ⟨ok | e | _ | _, loaded⟩ <;> rw [hload] at h hloads
  case exhausted => exact hloads.elim
  case undefined => exact absurd rfl h
  case threw => rfl
  case returned =>
    by_cases hacc : Accepted loaded.node
    · simp [hacc]
    · simp [hacc]

/-- The calls return what the files say, and the patches of the files are made in turn. -/
theorem parseConfigs_total {files : String → FileState} (names : List String)
    (h : ∀ filename ∈ names, FileDefined files filename) {d : Dispatch Settings}
    (hd : d.parsers.handler = yamlSettings.handler) :
    ∃ d', parseConfigs files names d = (.returned (names.map (fileAccepted files)), d') ∧
      d'.env = LastWins.total (fun filename ↦ (fileMeaning files filename).2) names • d.env := by
  induction names generalizing d with
  | nil => exact ⟨d, rfl, (one_smul Patch d.env).symm⟩
  | cons filename names ih =>
    obtain ⟨hfile, hrest⟩ := List.forall_mem_cons.mp h
    obtain ⟨d₁, hparse, henv, htable⟩ := parseConfig_apply files filename d hd
    obtain ⟨d', hparses, henv'⟩ := ih hrest htable
    rw [fileMeaning_defined hfile] at hparse
    refine ⟨d', ?_, ?_⟩
    · rw [parseConfigs, Comp.bind_returned hparse, Comp.bind_returned hparses]
      rfl
    · rw [henv', henv, LastWins.total, mul_smul]

/-- **What any sequence of files leaves of the settings.**  Each call returns whether its file is
accepted, whatever was loaded before.  In the end the level is the largest there was, and of every
other setting the last value counts, the entries before the refused one of a refused file included.
Of a file that was loaded more than once only the last load matters. -/
theorem parseConfigs_settle (files : String → FileState) (names : List String) (s : Settings)
    (h : ∀ filename ∈ names, FileDefined files filename) :
    ∃ d' d'', parseConfigs files names { parsers := yamlSettings, env := s }
        = (.returned (names.map (fileAccepted files)), d') ∧
      Settled (names.map fun filename ↦ (fileMeaning files filename).2) s d'.env ∧
      parseConfigs files names.dedup { parsers := yamlSettings, env := s }
        = (.returned (names.dedup.map (fileAccepted files)), d'') ∧
      d''.env = d'.env := by
  obtain ⟨d', hparses, henv⟩ := parseConfigs_total names h
    (d := { parsers := yamlSettings, env := s }) rfl
  obtain ⟨d'', hparses', henv'⟩ := parseConfigs_total names.dedup
    (fun filename hmem ↦ h filename (List.mem_dedup.mp hmem))
    (d := { parsers := yamlSettings, env := s }) rfl
  refine ⟨d', d'', hparses, ?_, hparses', ?_⟩
  · have htotal := settled_total (names.map fun filename ↦ (fileMeaning files filename).2) s
    rw [LastWins.total_map] at htotal
    rw [henv]
    exact htotal
  · rw [henv', henv, LastWins.total_dedup]

/-- `a` is loaded again after `b`. -/
theorem parseConfigs_settle_sample : ∃ d d',
    parseConfigs levelFiles ["a", "b", "a"] { parsers := yamlSettings, env := {} }
      = (.returned [true, true, true], d) ∧
    parseConfigs levelFiles ["b", "a"] { parsers := yamlSettings, env := {} }
      = (.returned [true, true], d') ∧ d'.env = d.env := by
  have hdefined : ∀ filename ∈ ["a", "b", "a"], FileDefined levelFiles filename := by
    intro filename _ hundefined
    have hreturned : (loadFile levelFiles filename { node := .fresh, events := [] }).1
        = .returned true := rfl
    rw [hreturned] at hundefined
    simp at hundefined
  obtain ⟨d, d', hparses, -, hparses', henv⟩ :=
    parseConfigs_settle levelFiles ["a", "b", "a"] {} hdefined
  exact ⟨d, d', hparses, hparses', henv⟩

/-! ## The order of the entries -/

/-- A file that holds one document in full. -/
def Holds (files : String → FileState) (filename : String) (t : Tree) : Prop :=
  ∃ error, files filename = .stream t.stream error

/-- What a file says is what the node of its document says. -/
theorem fileMeaning_document {files : String → FileState} {filename : String} {t : Tree}
    (h : Holds files filename t) (hroot : t.IsCollection) (hfault : t.fault = none) :
    fileMeaning files filename
      = (.returned (decide (Accepted t.node)), (meaning t.node.calls).1) := by
  obtain ⟨error, hfile⟩ := h
  obtain ⟨s, hrun, hnode⟩ := Load.run_node (.file files filename) t
    ⟨error, by rw [Load.input?, hfile]⟩ hroot hfault
  have hload : loadFile files filename { node := .fresh, events := [] }
      = (.returned true, s) := hrun
  rw [fileMeaning, hload]
  simp only [hnode]

/-- So it is the same if the entries are in another order. -/
theorem fileMeaning_same {files : String → FileState} {filename : String} {t t' : Tree}
    (h : Holds files filename t') (hsame : t'.Same t) (hroot : t.IsCollection)
    (hfault : t.fault = none) :
    fileMeaning files filename
      = (.returned (decide (Accepted t.node)), (meaning t.node.calls).1) := by
  have hfault' := fault_of_same t' hsame hfault
  rw [fileMeaning_document h (hsame.isCollection hroot) hfault',
    (same_iff_node t' hfault' hfault).mp hsame]

/-- **The order of the entries of a file does not matter**, neither that of the sections nor that of
the keys in a section, if the root is a collection and the document has no fault: `parse_config`
returns the same, and leaves the same settings.  With a fault, the order decides which of two faults
the loader gets to, and so whether the load is defined at all. -/
theorem parseConfig_order (files : String → FileState) (filename filename' : String) (t t' : Tree)
    (h : Holds files filename t) (h' : Holds files filename' t') (hroot : t.IsCollection)
    (hfault : t.fault = none) (hsame : t'.Same t) (s : Settings) :
    ∃ b d d', parseConfig files filename { parsers := yamlSettings, env := s }
        = (.returned b, d) ∧
      parseConfig files filename' { parsers := yamlSettings, env := s } = (.returned b, d') ∧
      d.env = d'.env := by
  obtain ⟨d, hparse, henv, -⟩ := parseConfig_apply files filename
    { parsers := yamlSettings, env := s } rfl
  obtain ⟨d', hparse', henv', -⟩ := parseConfig_apply files filename'
    { parsers := yamlSettings, env := s } rfl
  have hmeaning := fileMeaning_same h' hsame hroot hfault
  rw [fileMeaning_document h hroot hfault] at hparse henv
  rw [hmeaning] at hparse' henv'
  exact ⟨_, d, d', hparse, hparse', by rw [henv, henv']⟩

/-- A level and a path, in this order or in the other one. -/
def twoSections (swapped : Bool) : Tree :=
  let level := (Tree.scalar "debug", Tree.mapping [(.scalar "level", .scalar "3")])
  let path := (Tree.scalar "paths", Tree.mapping [(.scalar "prefix", .scalar "/opt")])
  .mapping (if swapped then [path, level] else [level, path])

theorem parseConfig_order_sample : ∃ b d d',
    parseConfig (fun name ↦ .stream (twoSections (name = "b")).stream 0) "a"
      { parsers := yamlSettings, env := {} } = (.returned b, d) ∧
    parseConfig (fun name ↦ .stream (twoSections (name = "b")).stream 0) "b"
      { parsers := yamlSettings, env := {} } = (.returned b, d') ∧ d.env = d'.env :=
  parseConfig_order _ "a" "b" (twoSections false) (twoSections true) ⟨0, rfl⟩ ⟨0, rfl⟩ trivial rfl
    ⟨_, .swap _ _ _, rfl, ⟨_, .refl _, rfl, rfl, trivial⟩, rfl, ⟨_, .refl _, rfl, rfl, trivial⟩,
      trivial⟩ {}

end Options
end XaMain
