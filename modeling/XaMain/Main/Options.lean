import XaMain.Common.Validation
import XaMain.Yaml.Integer
import XaMain.Yaml.Settings

/-!
# Options

The settings of `pca::options` and the handlers that `options::parse_config` reads them with, one
for each section of the configuration file.  A handler does not change the node it is given; what it
writes before it throws or refuses the value stays written.
-/

set_option autoImplicit false

namespace XaMain
namespace Options

open Yaml Validation

/-- The static members of `options` that the configuration file sets, with their initial values. -/
structure Settings where
  /-- `path_prefix` -/
  pathPrefix : String := "."
  /-- `debug_level` -/
  debugLevel : UInt32 := 0
  /-- `control_enabled` -/
  controlEnabled : Bool := false
  /-- `control_listen_address` -/
  controlListenAddress : String := "127.0.0.1"
  /-- `control_listen_port` -/
  controlListenPort : UInt16 := 10081
  /-- `control_allow_cors` -/
  controlAllowCors : Bool := false
  /-- `settings_enabled` -/
  settingsEnabled : Bool := false
  /-- `settings_database_uri` -/
  settingsDatabaseUri : String := ""
  deriving DecidableEq

/-- What a handler does with a value it has read with `as_…`, which may have thrown: `next` computes
its result and the settings it leaves. -/
def reading {α : Type} (read : Except Exception α) (next : α → Bool × Settings) (value : Node)
    (s : Settings) : Except Exception Bool × Node × Settings :=
  match read with
  | .error e => (.error e, value, s)
  | .ok a => (.ok (next a).1, value, (next a).2)

/-- The handler of `DEBUG_COMMON_ENUM`. -/
def debugHandler : Handler Settings := fun key value s ↦
  if key = "level" then
    reading value.asInteger
      (fun val ↦ (true, if val > s.debugLevel then { s with debugLevel := val } else s)) value s
  else
    (.ok true, value, s)

/-- The handler of the section `control`. -/
def controlHandler : Handler Settings := fun key value s ↦
  if key = "enabled" then
    reading value.asBoolean (fun b ↦ (true, { s with controlEnabled := b })) value s
  else if key = "listen-address" then
    reading value.asString (fun a ↦ (true, { s with controlListenAddress := a })) value s
  else if key = "listen-port" then
    -- the port is cut to 16 bits before it is checked
    reading value.asInteger
      (fun n ↦ (validatePortNumber n.toUInt16.toUInt32,
        { s with controlListenPort := n.toUInt16 })) value s
  else if key = "allow-cors" then
    reading value.asBoolean (fun b ↦ (true, { s with controlAllowCors := b })) value s
  else
    (.ok true, value, s)

/-- The handler of the section `paths`. -/
def pathsHandler : Handler Settings := fun key value s ↦
  if key = "prefix" then
    reading value.asString (fun a ↦ (true, { s with pathPrefix := a })) value s
  else
    (.ok true, value, s)

/-- The handler of the section `settings`. -/
def settingsHandler : Handler Settings := fun key value s ↦
  if key = "enabled" then
    reading value.asBoolean (fun b ↦ (true, { s with settingsEnabled := b })) value s
  else if key = "database" then
    reading value.asString (fun a ↦ (true, { s with settingsDatabaseUri := a })) value s
  else
    (.ok true, value, s)

/-- `yaml_settings` -/
def yamlSettings : Parsers Settings where
  entries := [("control", some controlHandler), ("debug", some debugHandler),
    ("paths", some pathsHandler), ("settings", some settingsHandler)]
  sorted := by
    rw [OrderedMap.Sorted]
    decide

/-- `options::parse_config`, over the table, which is static, and the settings. -/
def parseConfig (files : String → FileState) (filename : String) :
    Comp (Dispatch Settings) Exception Bool :=
  Comp.focus (fun s ↦ ({ node := .fresh, events := [] }, s)) (fun t _ ↦ t.2)
    (loadSettings files filename)

/-! ## The port of the control section -/

section ListenPort

variable {value : Node} (h : value.type = .scalar) (s : Settings)
include h

/-- A text that `std::stoi` reads is accepted, whatever number it reads. -/
theorem controlHandler_listenPort {v : Int} (hv : stoi value.scalar = .ok v) :
    controlHandler "listen-port" value s
      = (.ok true, value, { s with controlListenPort := (UInt32.ofInt v).toUInt16 }) := by
  have hread : value.asInteger = .ok (UInt32.ofInt v) := by
    rw [Node.asInteger_scalar h, hv]
    rfl
  have hkey : controlHandler "listen-port" value s = reading value.asInteger
      (fun n ↦ (validatePortNumber n.toUInt16.toUInt32,
        { s with controlListenPort := n.toUInt16 })) value s := by
    simp only [controlHandler, String.reduceEq, if_false, if_true]
  rw [hkey, hread, reading, validatePortNumber_toUInt32]

/-- Any other text is rejected. -/
theorem controlHandler_listenPort_error {e : Exception} (he : stoi value.scalar = .error e) :
    controlHandler "listen-port" value s = (.error e, value, s) := by
  have hread : value.asInteger = .error e := by
    rw [Node.asInteger_scalar h, he]
    rfl
  have hkey : controlHandler "listen-port" value s = reading value.asInteger
      (fun n ↦ (validatePortNumber n.toUInt16.toUInt32,
        { s with controlListenPort := n.toUInt16 })) value s := by
    simp only [controlHandler, String.reduceEq, if_false, if_true]
  rw [hkey, hread, reading]

end ListenPort

end Options
end XaMain
