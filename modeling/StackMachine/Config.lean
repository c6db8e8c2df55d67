import StackMachine.Duration
import StackMachine.Engine
import StackMachine.Folder
import StackMachine.LogLevel
import StackMachine.Yaml.Document
import StackMachine.Yaml.Scalar

namespace StackMachine

structure Config where
  capacity : Int64 := 10
  logLevel : Bytes := utf8 "warn"
  maxSteps : Int64 := 10000
  latch : Bool := false
  staged : Bool := false
  commitDelay : Duration := .ofMilliseconds 300
  deriving DecidableEq

/-- A value that a setting may not have. -/
inductive ConfigIssue where
  | capacity (v : Int64)
  | logLevel (name : Bytes)
  | maxSteps (v : Int64)
  | commitDelay (d : Duration)
  deriving DecidableEq

def ConfigIssue.message : ConfigIssue → Bytes
  | .capacity v => utf8 "stack_capacity must be at least 1, got " ++ value v
  | .logLevel name => utf8 "log_level " ++ quoted name ++ utf8 " is not a level"
  | .maxSteps v => utf8 "max_steps must not be negative, got " ++ value v
  | .commitDelay d => utf8 "commit_delay must not be negative, got " ++ d.text

/-- Why an entry of a settings file is refused. -/
inductive EntryIssue where
  /-- A value of a wrong type; collections are named by their kind only. -/
  | mismatch (line : Nat) (tag : Bytes) (text : Option Bytes) (wanted : Bytes)
  | unknownName (line : Nat) (name : Bytes)
  | repeatedName (line : Nat) (name : Bytes) (first : Nat)
  deriving DecidableEq

/-- A text of more than ten bytes is cut to seven. -/
def shortened (text : Bytes) : Bytes := if 10 < text.length then text.take 7 ++ utf8 "..." else text

def EntryIssue.message : EntryIssue → Bytes
  | .mismatch line tag text wanted =>
    utf8 "line " ++ decimalNat line ++ utf8 ": cannot unmarshal " ++ tag ++
      (text.map fun t => utf8 " `" ++ shortened t ++ utf8 "`").getD [] ++ utf8 " into " ++ wanted
  | .unknownName line name =>
    utf8 "line " ++ decimalNat line ++ utf8 ": field " ++ name ++ utf8 " not found in type config.Config"
  | .repeatedName line name first =>
    utf8 "line " ++ decimalNat line ++ utf8 ": mapping key " ++ quoted name ++ utf8 " already defined at line " ++
      decimalNat first

inductive ConfigError where
  | file (path : Bytes) (fault : FileFault)
  /-- The file cannot be decoded; the message tells why. -/
  | parse (path message : Bytes)
  | invalid (path : Bytes) (issues : List ConfigIssue)
  deriving DecidableEq

def ConfigError.message : ConfigError → Bytes
  | .file path .noContent =>
    utf8 "config: parse " ++ path ++ utf8 ": yaml: input error: " ++ FileFault.noContent.message path
  | .file path fault => utf8 "config: open " ++ path ++ utf8 ": " ++ fault.message path
  | .parse path message => utf8 "config: parse " ++ path ++ utf8 ": " ++ message
  | .invalid path issues =>
    utf8 "config" ++ (if path.isEmpty then [] else utf8 " " ++ path) ++ utf8 " is invalid:" ++
      issues.flatMap fun i => utf8 "\n- " ++ i.message

namespace Config

/-- Everything that is wrong with the settings. -/
def issues [LevelParser] (c : Config) : List ConfigIssue :=
  (if c.capacity < 1 then [.capacity c.capacity] else []) ++
  (if (LevelParser.level? c.logLevel).isNone then [.logLevel c.logLevel] else []) ++
  (if c.maxSteps < 0 then [.maxSteps c.maxSteps] else []) ++
  (if c.commitDelay.nanoseconds < 0 then [.commitDelay c.commitDelay] else [])

/-- Checks settings that come from a path, which may be empty. -/
def validate [LevelParser] (c : Config) (path : Bytes) : Option ConfigError :=
  if c.issues.isEmpty then none else some (.invalid path c.issues)

def options (c : Config) : Options := { capacity := c.capacity.toInt, maxSteps := c.maxSteps, latch := c.latch }

end Config

/-- How a library decodes a text onto settings: what it makes of them, and the message when it fails. -/
class ConfigDecoder where
  decode : Config → Bytes → Config × Option Bytes

namespace Config

/-- The settings of a file on top of the defaults, and what is wrong with them. No path gives the defaults. -/
def load [ConfigDecoder] [LevelParser] (folder : Folder) (path : Bytes) : Config × Option ConfigError :=
  if path.isEmpty then ({}, none)
  else match folder.read path with
    | .error fault => ({}, some (.file path fault))
    | .ok text =>
      match ConfigDecoder.decode {} text with
      | (c, some message) => (c, some (.parse path message))
      | (c, none) => (c, c.validate path)

/-- A number cut to 64 bits, unless it is too large; one that is too small gives the least value. -/
def truncatedInt? : Option Binary64 → Option Int64
  | none => none
  | some (.infinite negative) => if negative then some Int64.minValue else none
  | some v =>
    let n := v.truncated?.getD 0
    if wordBound < n then none else if n < -wordBound ∨ n = wordBound then some Int64.minValue else some (Int64.ofInt n)

def intSetting? : YamlValue → Option Int64
  | .int v => if v < wordBound then some (Int64.ofInt v) else none
  | .float v => truncatedInt? v
  | _ => none

def boolSetting? : YamlValue → Option Bool
  | .bool b => some b
  | .text t =>
    if YamlValue.oneOf t ["y", "Y", "yes", "Yes", "YES", "on", "On", "ON"] then some true
    else if YamlValue.oneOf t ["n", "N", "no", "No", "NO", "off", "Off", "OFF"] then some false
    else none
  | _ => none

def durationSetting? : YamlValue → Option Duration
  | .text t => Duration.ofText? t
  | _ => none

/-- The settings a file can name. -/
inductive Setting where
  | capacity
  | logLevel
  | maxSteps
  | latch
  | staged
  | commitDelay
  deriving DecidableEq

namespace Setting

def all : List Setting := [.capacity, .logLevel, .maxSteps, .latch, .staged, .commitDelay]

def name : Setting → Bytes
  | .capacity => utf8 "stack_capacity"
  | .logLevel => utf8 "log_level"
  | .maxSteps => utf8 "max_steps"
  | .latch => utf8 "operand_latch"
  | .staged => utf8 "staged"
  | .commitDelay => utf8 "commit_delay"

def ofName? (name : Bytes) : Option Setting := all.find? fun s => s.name == name

/-- The name of the type of its values. -/
def typeName : Setting → Bytes
  | .capacity => utf8 "int"
  | .logLevel => utf8 "string"
  | .maxSteps => utf8 "int64"
  | .latch => utf8 "bool"
  | .staged => utf8 "bool"
  | .commitDelay => utf8 "time.Duration"

/-- Sets a value that was written as the given text, if it has the right type. -/
def assign? (s : Setting) (c : Config) (text : Bytes) (v : YamlValue) : Option Config :=
  match s with
  | .capacity => (intSetting? v).map fun n => { c with capacity := n }
  | .logLevel => some { c with logLevel := text }
  | .maxSteps => (intSetting? v).map fun n => { c with maxSteps := n }
  | .latch => (boolSetting? v).map fun b => { c with latch := b }
  | .staged => (boolSetting? v).map fun b => { c with staged := b }
  | .commitDelay => (durationSetting? v).map fun d => { c with commitDelay := d }

end Setting

/-- What a scalar means; in quotes it is always a text. -/
def scalarValue (quoted : Bool) (text : Bytes) : YamlValue := if quoted then .text text else .ofPlain text

/-- Names that stand twice in a mapping, each with every earlier line it stands on. -/
def repeatedNames : List (YamlNode × YamlNode) → List EntryIssue
  | [] => []
  | (.scalar first _ name, _) :: rest =>
    (rest.filterMap fun
      | (.scalar line _ other, _) => if other = name then some (.repeatedName line name first) else none
      | _ => none) ++ repeatedNames rest
  | _ :: rest => repeatedNames rest

/-- The issues of a collection where a value of some type is wanted. -/
def collectionIssues (wanted : Bytes) : YamlNode → List EntryIssue
  | .scalar line quoted text => [.mismatch line (scalarValue quoted text).tag (some text) wanted]
  | .sequence line => [.mismatch line (utf8 "!!seq") none wanted]
  | .mapping line pairs =>
    if (repeatedNames pairs).isEmpty then [.mismatch line (utf8 "!!map") none wanted] else repeatedNames pairs

/-- Sets one setting. Nothing leaves it alone. -/
def assign (c : Config) (s : Setting) : YamlNode → Config × List EntryIssue
  | .scalar line quoted text =>
    let v := scalarValue quoted text
    if v = .null then (c, [])
    else match s.assign? c text v with
      | some c => (c, [])
      | none => (c, [.mismatch line v.tag (some text) s.typeName])
  | node => (c, collectionIssues s.typeName node)

/-- Applies one entry of a file. -/
def entry (c : Config) : YamlNode × YamlNode → Config × List EntryIssue
  | (.scalar line quoted name, node) =>
    if scalarValue quoted name = .null then (c, [])
    else match Setting.ofName? name with
      | some s => c.assign s node
      | none => (c, [.unknownName line name])
  | (name, _) => (c, collectionIssues (utf8 "string") name)

/-- Applies entries in order; those that are refused leave their setting alone. -/
def entries (c : Config) : List (YamlNode × YamlNode) → Config × List EntryIssue
  | [] => (c, [])
  | pair :: rest =>
    let (c, first) := c.entry pair
    let (c, others) := c.entries rest
    (c, first ++ others)

/-- Applies a document. Names that stand twice are reported before anything is set. -/
def document (c : Config) : Option YamlNode → Config × List EntryIssue
  | none => (c, [])
  | some (.mapping _ pairs) => if (repeatedNames pairs).isEmpty then c.entries pairs else (c, repeatedNames pairs)
  | some (.scalar line quoted text) =>
    if scalarValue quoted text = .null then (c, [])
    else (c, collectionIssues (utf8 "config.Config") (.scalar line quoted text))
  | some node => (c, collectionIssues (utf8 "config.Config") node)

/-- Sets what a text says, as far as it can be decoded, and tells what is wrong with it. -/
def decoded (c : Config) (text : Bytes) : Config × Option Bytes :=
  match readYaml text with
  | .error fault => (c, some fault.message)
  | .ok node =>
    let (c, refused) := c.document node
    (c, if refused.isEmpty then none
      else some (utf8 "yaml: unmarshal errors:" ++ refused.flatMap fun i => utf8 "\n  " ++ i.message))

end Config

instance plainDecoder : ConfigDecoder := ⟨Config.decoded⟩

end StackMachine
