import SentenceQuery.Dataset.Service
import SentenceQuery.Yaml.Node

/-!
# Settings

The settings of the service come from a file, if there is one, and from environment variables, which win. Everything has a
default. A file with a fault is refused as a whole, and before any variable is looked at.
-/

namespace SentenceQuery

/-- Where the service listens. -/
structure ServerSettings where
  host : String
  port : Nat
deriving DecidableEq

/-- What is logged, and where to. -/
structure LoggingSettings where
  level : String
  format : String
  output : String
  directory : String
deriving DecidableEq

structure Settings where
  server : ServerSettings
  logging : LoggingSettings
  limits : Limits
deriving DecidableEq

/-- The settings that hold where none are set. -/
def Settings.default : Settings where
  server := ⟨"127.0.0.1", 4321⟩
  logging := ⟨"info", "pretty", "stdout", "./logs"⟩
  limits := .default

/-- Why there are no settings. -/
inductive SettingsError where
  /-- the file cannot be read as settings -/
  | file
  /-- the value of a variable cannot be used -/
  | variable (name value : String)
deriving DecidableEq

def SettingsError.message : SettingsError → String
  | .file => "Failed to parse YAML"
  | .variable name value => "Invalid value for " ++ name ++ ": " ++ value

/-! ## Numbers in settings -/

/-- The number that digits stand for in a base, if they all are digits and there is one. -/
def digitsIn? (base : Nat) : List Char → Option Nat
  | [] => none
  | digits => digits.foldlM
    (fun n c => (Json.hexDigit? c).bind fun d => if d < base then some (base * n + d) else none) 0

/-- The text without a plus sign in front. -/
def dropPlus : List Char → List Char
  | '+' :: rest => rest
  | s => s

/-- The number of a plain scalar: decimal digits without zeros in front, or digits after `0x`, `0o` or `0b`; a plus sign may
stand in front. -/
def natOfScalar? (s : List Char) : Option Nat :=
  match dropPlus s with
  | '0' :: 'x' :: digits => digitsIn? 16 digits
  | '0' :: 'o' :: digits => digitsIn? 8 digits
  | '0' :: 'b' :: digits => digitsIn? 2 digits
  | ['0'] => some 0
  | '0' :: _ => none
  | digits => digitsIn? 10 digits

/-- The greatest port. -/
def maxPort : Nat := 0xFFFF

/-- The greatest limit. -/
def maxLimit : Nat := 0xFFFFFFFFFFFFFFFF

/-! ## The file -/

namespace Yaml

/-- The text of a scalar of any style. -/
def Node.text? : Node → Option String
  | .scalar _ text => some (String.ofList text)
  | _ => none

/-- The number of a plain scalar, up to a greatest one. -/
def Node.nat? (greatest : Nat) : Node → Option Nat
  | .scalar .plain text => (natOfScalar? text).filter (· ≤ greatest)
  | _ => none

/-- The entries of a section, whose keys are scalars; a section that is not written has none. -/
def Node.section? : Node → Option (List (String × Node))
  | .mapping entries => entries.mapM fun (key, value) => key.text?.map fun key => (key, value)
  | .scalar .plain [] => some []
  | _ => none

/-- What an entry sets: its value if it is there once, a default if it is not there. An entry that repeats is refused. -/
def setting {α : Type} (entries : List (String × Node)) (key : String) (default : α) (read : Node → Option α) :
    Option α :=
  match entries.filter (·.1 = key) with
  | [] => some default
  | [(_, node)] => read node
  | _ => none

end Yaml

namespace Settings

open Yaml

def readServer (node : Yaml.Node) : Option ServerSettings := do
  let entries ← node.section?
  let default := Settings.default.server
  return ⟨← setting entries "host" default.host Node.text?, ← setting entries "port" default.port (Node.nat? maxPort)⟩

def readLogging (node : Yaml.Node) : Option LoggingSettings := do
  let entries ← node.section?
  let default := Settings.default.logging
  return {
    level := ← setting entries "level" default.level Node.text?
    format := ← setting entries "format" default.format Node.text?
    output := ← setting entries "output" default.output Node.text?
    directory := ← setting entries "directory" default.directory Node.text? }

def readLimits (node : Yaml.Node) : Option Limits := do
  let entries ← node.section?
  let default := Limits.default
  return {
    maxSentenceBytes := ← setting entries "max_sentence_bytes" default.maxSentenceBytes (Node.nat? maxLimit)
    maxDatasetRecords := ← setting entries "max_dataset_records" default.maxDatasetRecords (Node.nat? maxLimit) }

/-- The settings of a file. Entries that set nothing are passed over. -/
def ofFile? (text : String) : Option Settings := do
  let document ← Node.ofText? text.toList
  let entries ← (document.getD .empty).section?
  return {
    server := ← setting entries "server" Settings.default.server readServer
    logging := ← setting entries "logging" Settings.default.logging readLogging
    limits := ← setting entries "limits" Settings.default.limits readLimits }

/-! ## Environment variables -/

/-- The port of a text: decimal digits, perhaps after a plus sign. -/
def portOfText? (s : List Char) : Option Nat :=
  (digitsIn? 10 (dropPlus s)).filter (· ≤ maxPort)

/-- The settings with the port of a variable, if it is set. -/
def setPort (s : Settings) (value : Option String) : Except SettingsError Settings :=
  match value with
  | none => .ok s
  | some value =>
    match portOfText? value.toList with
    | some port => .ok { s with server.port := port }
    | none => .error (.variable "INSIGHT_SERVER_PORT" value)

/-- The settings with the environment variables over them. -/
def override (s : Settings) (env : NameMap String) : Except SettingsError Settings := do
  let s ← s.setPort (env.get? "INSIGHT_SERVER_PORT")
  .ok { s with
    server.host := (env.get? "INSIGHT_SERVER_HOST").getD s.server.host
    logging := {
      level := (env.get? "RUST_LOG").getD s.logging.level
      format := (env.get? "LOG_FORMAT").getD s.logging.format
      output := (env.get? "LOG_OUTPUT").getD s.logging.output
      directory := (env.get? "LOG_DIR").getD s.logging.directory } }

/-- The settings of a file, if there is one, and of the environment. -/
def load (file : Option String) (env : NameMap String) : Except SettingsError Settings :=
  match file with
  | none => Settings.default.override env
  | some text =>
    match ofFile? text with
    | some s => s.override env
    | none => .error .file

/-- The address that the service listens on. -/
def bindAddress (s : Settings) : String := s.server.host ++ ":" ++ s.server.port.repr

end Settings

/-! ## Logging -/

/-- How log lines look. -/
inductive LogFormat where
  | pretty
  | json
  | compact
deriving DecidableEq

/-- The format of a setting; what is no format is the readable one. -/
def LogFormat.ofSetting (setting : String) : LogFormat :=
  match setting with
  | "json" => .json
  | "compact" => .compact
  | _ => .pretty

/-- Where log lines go. -/
inductive LogOutput where
  | stdout
  | file
  | both
deriving DecidableEq

/-- The output of a setting; what is no output is the console. -/
def LogOutput.ofSetting (setting : String) : LogOutput :=
  match setting with
  | "file" => .file
  | "both" => .both
  | _ => .stdout

end SentenceQuery
