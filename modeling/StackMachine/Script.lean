import StackMachine.EngineRun
import StackMachine.Statement

namespace StackMachine

structure ScriptOptions where
  capacity : Int := 0
  latch : Bool := false
  /-- The largest number of statements that are executed, none when it is below one. -/
  maxStatements : Int := 0
  context : Context := none

/-- Why a script stopped early. -/
inductive ScriptFailure where
  | source (error : SourceError)
  | timeout
  | cancelled
  | statementLimit
  | statement (line : Nat) (text : Bytes) (error : Error)
  deriving DecidableEq

def ScriptFailure.message : ScriptFailure → Bytes
  | .source error => error.message
  | .timeout => utf8 "execution timeout exceeded"
  | .cancelled => Interruption.cancelled.message
  | .statementLimit => utf8 "statement limit exceeded"
  | .statement line text error =>
    utf8 "line " ++ decimalNat line ++ utf8 ": " ++ text ++ utf8 ": " ++ error.message

/-- The state of no machine at all, which a script that cannot be read leaves. -/
def Snapshot.blank : Snapshot := ⟨RegisterFile.zero.toList, [], 0, 0, .idle⟩

structure ScriptRun where
  snapshot : Snapshot
  failure : Option ScriptFailure
  events : Array Event
  log : Array LogEntry

/-- Why the next statement is not begun, if so; `done` statements were executed before, and before each of them the
context was asked. -/
def ScriptOptions.obstacle? (o : ScriptOptions) (done : Nat) : Option ScriptFailure :=
  match o.context.reason? done with
  | some .expired => some .timeout
  | some .cancelled => some .cancelled
  | none => if 0 < o.maxStatements ∧ o.maxStatements ≤ done then some .statementLimit else none

/-- Executes statements; `done` of them were executed before, with these events and log entries. -/
def runStatements (o : ScriptOptions) : Nat → List Statement → Engine → Array Event → Array LogEntry → ScriptRun
  | _, [], e, events, log => ⟨e.snapshot, none, events, log⟩
  | done, s :: rest, e, events, log =>
    match o.obstacle? done with
    | some failure => ⟨e.snapshot, some failure, events, log⟩
    | none =>
      let outcome := (e.execute s.word s.operands).settled
      let events := events ++ outcome.events
      let log := log ++ outcome.log
      match outcome.reply with
      | .error error => ⟨outcome.engine.snapshot, some (.statement s.line s.text error), events, log⟩
      | .ok result =>
        if result.halted then ⟨outcome.engine.snapshot, none, events, log⟩
        else runStatements o (done + 1) rest outcome.engine events log

/-- Runs a script on a fresh engine. -/
def runScript (o : ScriptOptions) (source : Bytes) : ScriptRun :=
  match parse source with
  | .error error => ⟨.blank, some (.source error), #[], #[]⟩
  | .ok statements => runStatements o 0 statements (.ofOptions { capacity := o.capacity, latch := o.latch }) #[] #[]

end StackMachine
