import StackMachine.Engine

namespace StackMachine

/-- A finished call: the engine after it, the reply, what every observer was told and what was logged. -/
structure Outcome (α : Type) where
  engine : Engine
  reply : Except Error α
  events : List Event
  log : List LogEntry

/-- The call after its notice was told to observers that do not call back. -/
def Effect.settled {α : Type} (effect : Effect α) : Outcome α :=
  match effect.notice with
  | none => ⟨effect.engine, effect.reply, [], effect.log⟩
  | some notice => ⟨effect.engine.settle notice.generation, effect.reply, notice.events, effect.log⟩

def Engine.perform (e : Engine) (c : Command) : Outcome Reply := (e.begin c).settled

/-- Why work was broken off from outside. -/
inductive Interruption where
  | cancelled
  | expired
  deriving DecidableEq

def Interruption.message : Interruption → Bytes
  | .cancelled => utf8 "context canceled"
  | .expired => utf8 "context deadline exceeded"

/-- An end that comes from outside: the first `after` times it is asked for it has not come yet. -/
structure Cut where
  after : Nat
  why : Interruption
  deriving DecidableEq

def Cut.cancelled : Cut := ⟨0, .cancelled⟩

def Cut.expired : Cut := ⟨0, .expired⟩

/-- The context of a call, by the end it comes to, if it does. A context that is done stays so. -/
abbrev Context := Option Cut

/-- What a context says that was asked so often before: none while the call may go on. -/
def Context.reason? (context : Context) (asked : Nat) : Option Interruption :=
  match context with
  | none => none
  | some cut => if cut.after ≤ asked then some cut.why else none

/-- How a run of a program fails. `unfinished` is for a run without a step limit that has used up the steps it was
given. -/
inductive Failure where
  | engine (error : Error)
  | interrupted (why : Interruption)
  | unfinished
  deriving DecidableEq

def Failure.message : Failure → Bytes
  | .engine error => error.message
  | .interrupted why => why.message
  | .unfinished => utf8 "unfinished"

namespace Engine

/-- Whether runs have a step limit. The largest word is none, as no count of steps gets beyond it. -/
def isLimited (e : Engine) : Bool := 0 < e.maxSteps ∧ e.maxSteps < Int64.maxValue

/-- The number of steps a run may take: the limit of the engine or, without one, the given patience. -/
def allowance (e : Engine) (patience : Nat) : Nat := if e.isLimited then e.maxSteps.toInt.toNat else patience

end Engine

/-- Takes steps until an instruction halts or fails, the context is done or no step is left. The context is asked before
each step; `taken` steps were taken before. An effect on the engine is carried out on a state that holds the engine. -/
def runLoop {σ : Type} (engine : σ → Engine) (carryOut : σ → Effect Result → σ × Except Error Result) (code : Bytes)
    (context : Context) (left taken : Nat) (s : σ) : σ × Except Failure Result :=
  match context.reason? taken with
  | some why => (s, .error (.interrupted why))
  | none =>
    match left with
    | 0 =>
      if (engine s).isLimited then
        let (s, reply) := carryOut s (engine s).spendLimit
        (s, reply.mapError .engine)
      else (s, .error .unfinished)
    | left + 1 =>
      match carryOut s ((engine s).step code) with
      | (s, .error error) => (s, .error (.engine error))
      | (s, .ok result) =>
        if result.halted then (s, .ok result) else runLoop engine carryOut code context left (taken + 1) s

/-- An engine with what its observers, who only listen, were told and what was logged. -/
structure Progress where
  engine : Engine
  events : Array Event := #[]
  log : Array LogEntry := #[]

def Progress.carryOut {α : Type} (p : Progress) (effect : Effect α) : Progress × Except Error α :=
  let o := effect.settled
  (⟨o.engine, p.events ++ o.events, p.log ++ o.log⟩, o.reply)

/-- A finished run. -/
structure Run extends Progress where
  reply : Except Failure Result

/-- Runs encoded instructions from IP until HLT. -/
def Engine.run (e : Engine) (patience : Nat) (context : Context) (code : Bytes) : Run :=
  let (p, reply) := runLoop Progress.engine Progress.carryOut code context (e.allowance patience) 0 { engine := e }
  { p with reply }

end StackMachine
