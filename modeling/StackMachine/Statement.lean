import StackMachine.Operand
import StackMachine.Text.Quoted
import StackMachine.Token

namespace StackMachine

structure Statement where
  /-- The mnemonic, in upper case. -/
  word : Bytes
  operands : List Operand
  line : Nat
  deriving DecidableEq

/-- The statement in its canonical form. -/
def Statement.text (s : Statement) : Bytes := lineText s.word s.operands

/-- Why a source text is refused. -/
inductive SourceError where
  | badStart (line : Nat) (kind : TokenKind) (text : Bytes)
  | badInteger (line : Nat) (text : Bytes)
  | unexpected (line : Nat) (text : Bytes)
  | notOne (count : Nat)
  deriving DecidableEq

namespace SourceError

def detail : SourceError → Bytes
  | .badStart line kind text =>
    utf8 "line " ++ decimalNat line ++ utf8 ": statement starts with " ++ kind.text ++ utf8 " " ++ quoted text
  | .badInteger line text => utf8 "line " ++ decimalNat line ++ utf8 ": invalid integer: " ++ text
  | .unexpected line text => utf8 "line " ++ decimalNat line ++ utf8 ": unexpected token: " ++ text
  | .notOne count => utf8 "expected one statement, got " ++ decimalNat count

def message (e : SourceError) : Bytes := utf8 "syntax error: " ++ e.detail

end SourceError

/-- A token as an operand. -/
def Token.operand (t : Token) : Except SourceError Operand :=
  match t.kind with
  | .ident => .ok (.reg t.text)
  | .int =>
    match int? t.text with
    | some v => .ok (.imm v)
    | none => .error (.badInteger t.line t.text)
  | _ => .error (.unexpected t.line t.text)

/-- The statement that a line begins with. -/
def Token.statement (t : Token) : Except SourceError Statement :=
  match t.kind with
  | .ident => .ok ⟨upper t.text, [], t.line⟩
  | _ => .error (.badStart t.line t.kind t.text)

def Statement.addOperand (s : Statement) (o : Operand) : Statement := { s with operands := s.operands ++ [o] }

/-- The statements of some tokens, after the one that is being read, if any. -/
def statementsFrom : Option Statement → List Token → Except SourceError (List Statement)
  | current, [] => .ok current.toList
  | none, t :: rest =>
    match t.kind with
    | .eof => .ok []
    | .newline => statementsFrom none rest
    | _ => do statementsFrom (some (← t.statement)) rest
  | some s, t :: rest =>
    match t.kind with
    | .eof => .ok [s]
    | .newline => return s :: (← statementsFrom none rest)
    | .comma => statementsFrom (some s) rest
    | _ => do statementsFrom (some (s.addOperand (← t.operand))) rest

/-- Every statement of a source text; blank and comment lines have none. -/
def parse (source : Bytes) : Except SourceError (List Statement) := statementsFrom none (tokens source)

/-- The statement of a single line, if it has one. -/
def parseLine (line : Bytes) : Except SourceError (Option Statement) :=
  match parse line with
  | .error e => .error e
  | .ok [] => .ok none
  | .ok [s] => .ok (some s)
  | .ok statements => .error (.notOne statements.length)

end StackMachine
