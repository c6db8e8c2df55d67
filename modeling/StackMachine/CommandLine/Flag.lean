import StackMachine.Duration
import StackMachine.Text.Quoted

namespace StackMachine

inductive FlagKind where
  | text
  | int
  | switch
  | span
  deriving DecidableEq

inductive FlagValue where
  | text (t : Bytes)
  | int (v : Int64)
  | switch (on : Bool)
  | span (d : Duration)
  deriving DecidableEq

/-- A flag that a command knows, with what its help says of it. -/
structure FlagSpec where
  name : Bytes
  kind : FlagKind
  usage : Bytes

inductive ValueFault where
  | malformed
  | outOfRange
  deriving DecidableEq

inductive FlagFault where
  | helpWanted
  | badSpelling (argument : Bytes)
  | notDefined (name : Bytes)
  | needsValue (name : Bytes)
  | badValue (name text : Bytes) (fault : ValueFault)
  | badSwitch (name text : Bytes)
  deriving DecidableEq

def ValueFault.message : ValueFault → Bytes
  | .malformed => utf8 "parse error"
  | .outOfRange => utf8 "value out of range"

def FlagFault.message : FlagFault → Bytes
  | .helpWanted => utf8 "flag: help requested"
  | .badSpelling argument => utf8 "bad flag syntax: " ++ argument
  | .notDefined name => utf8 "flag provided but not defined: -" ++ name
  | .needsValue name => utf8 "flag needs an argument: -" ++ name
  | .badValue name text fault =>
    utf8 "invalid value " ++ quoted text ++ utf8 " for flag -" ++ name ++ utf8 ": " ++ fault.message
  | .badSwitch name text =>
    utf8 "invalid boolean value " ++ quoted text ++ utf8 " for -" ++ name ++ utf8 ": parse error"

namespace FlagKind

/-- The word for its values in the help. -/
def word : FlagKind → Bytes
  | .text => utf8 " string"
  | .int => utf8 " int"
  | .switch => []
  | .span => utf8 " duration"

def switchValue? (text : Bytes) : Option Bool :=
  if ["1", "t", "T", "TRUE", "true", "True"].any fun s => utf8 s == text then some true
  else if ["0", "f", "F", "FALSE", "false", "False"].any fun s => utf8 s == text then some false
  else none

/-- Reads the value of a flag. -/
def read (kind : FlagKind) (name text : Bytes) : Except FlagFault FlagValue :=
  match kind with
  | .text => .ok (.text text)
  | .int =>
    match readInt text with
    | .ok v => .ok (.int v)
    | .error .malformed => .error (.badValue name text .malformed)
    | .error .outOfRange => .error (.badValue name text .outOfRange)
  | .switch =>
    match switchValue? text with
    | some on => .ok (.switch on)
    | none => .error (.badSwitch name text)
  | .span =>
    match Duration.ofText? text with
    | some d => .ok (.span d)
    | none => .error (.badValue name text .malformed)

end FlagKind

/-- An argument as a flag: its name and, after an equals sign, its value. -/
structure FlagArgument where
  name : Bytes
  value : Option Bytes
  deriving DecidableEq

/-- What an argument is among flags. -/
inductive ArgumentKind where
  | operand
  | terminator
  | bad
  | flag (f : FlagArgument)
  deriving DecidableEq

/-- Splits a name at its first equals sign, which is not the first byte. -/
def splitValue (name : Bytes) : FlagArgument :=
  let head := name.take 1 ++ (name.drop 1).takeWhile (· != byte '=')
  match name.drop head.length with
  | [] => ⟨head, none⟩
  | _ :: value => ⟨head, some value⟩

def ArgumentKind.ofArgument (argument : Bytes) : ArgumentKind :=
  match argument with
  | a :: b :: rest =>
    if a ≠ byte '-' then .operand
    else if b = byte '-' ∧ rest = [] then .terminator
    else
      let name := if b = byte '-' then rest else b :: rest
      if name.head? = some (byte '-') ∨ name.head? = some (byte '=') then .bad else .flag (splitValue name)
  | _ => .operand

/-- The flags that were given, in order. -/
abbrev GivenFlags := List (Bytes × FlagValue)

/-- The value of a known flag, taken from the arguments after it if need be, and the arguments that are left. -/
def flagValue (spec : FlagSpec) (value : Option Bytes) (rest : List Bytes) :
    Except FlagFault (FlagValue × List Bytes) := do
  match spec.kind, value, rest with
  | .switch, none, _ => return (.switch true, rest)
  | kind, some text, _ => return (← kind.read spec.name text, rest)
  | kind, none, text :: rest => return (← kind.read spec.name text, rest)
  | _, none, [] => throw (.needsValue spec.name)

/-- Reads flags up to the first operand; `fuel` only has to reach the number of arguments. -/
def readFlags (specs : List FlagSpec) : (fuel : Nat) → GivenFlags → List Bytes → Except FlagFault (GivenFlags × List Bytes)
  | 0, given, rest => .ok (given, rest)
  | _ + 1, given, [] => .ok (given, [])
  | fuel + 1, given, argument :: rest =>
    match ArgumentKind.ofArgument argument with
    | .operand => .ok (given, argument :: rest)
    | .terminator => .ok (given, rest)
    | .bad => .error (.badSpelling argument)
    | .flag f =>
      match specs.find? fun spec => spec.name == f.name with
      | none =>
        .error (if f.name = utf8 "help" ∨ f.name = utf8 "h" then .helpWanted else .notDefined f.name)
      | some spec =>
        match flagValue spec f.value rest with
        | .error fault => .error fault
        | .ok (value, rest) => readFlags specs fuel (given ++ [(spec.name, value)]) rest

/-- The flags and operands of a command. -/
def parseFlags (specs : List FlagSpec) (arguments : List Bytes) : Except FlagFault (GivenFlags × List Bytes) :=
  readFlags specs arguments.length [] arguments

namespace GivenFlags

/-- The value of a flag that was given; the last one counts. -/
def find? (given : GivenFlags) (name : String) : Option FlagValue :=
  (given.reverse.find? fun flag => flag.1 == utf8 name).map Prod.snd

def text? (given : GivenFlags) (name : String) : Option Bytes :=
  match given.find? name with
  | some (.text t) => some t
  | _ => none

def int? (given : GivenFlags) (name : String) : Option Int64 :=
  match given.find? name with
  | some (.int v) => some v
  | _ => none

def switch? (given : GivenFlags) (name : String) : Option Bool :=
  match given.find? name with
  | some (.switch on) => some on
  | _ => none

def span? (given : GivenFlags) (name : String) : Option Duration :=
  match given.find? name with
  | some (.span d) => some d
  | _ => none

end GivenFlags

/-- One flag in the help; a name that is short enough shares the line. -/
def FlagSpec.help (spec : FlagSpec) : Bytes :=
  let head := utf8 "  -" ++ spec.name ++ spec.kind.word
  head ++ utf8 (if head.length ≤ 4 then "\t" else "\n    \t") ++ spec.usage ++ utf8 "\n"

/-- The help of a command. -/
def flagHelp (command : Bytes) (specs : List FlagSpec) : Bytes :=
  utf8 "Usage of " ++ command ++ utf8 ":\n" ++ specs.flatMap FlagSpec.help

/-- What a user is shown who got the flags wrong or asked for help. -/
def FlagFault.report (fault : FlagFault) (command : Bytes) (specs : List FlagSpec) : Bytes :=
  (if fault = .helpWanted then [] else fault.message ++ utf8 "\n") ++ flagHelp command specs

end StackMachine
