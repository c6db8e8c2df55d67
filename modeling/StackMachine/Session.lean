import StackMachine.EngineRun

namespace StackMachine

/-- What can be asked of a session. -/
inductive Call (ω : Type) where
  | command (c : Command)
  | run (code : Bytes) (context : Context)
  | register (name : Bytes)
  | status
  | stats
  | attach (observer : ω)

structure Status where
  phase : Phase
  ip : Int64
  sp : Int
  capacity : Nat
  deriving DecidableEq

inductive Answer where
  | reply (r : Except Failure Reply)
  | register (v : Except Error Int64)
  | status (s : Status)
  | stats (s : Option Stats)
  | attached

structure Session (ω : Type) where
  engine : Engine
  observers : List ω
  /-- What was told, with the number of the observer, in order. -/
  told : Array (Nat × Event) := #[]
  /-- The answers to calls made by observers, in the order in which they came. -/
  answers : Array Answer := #[]
  log : Array LogEntry := #[]

/-- How an observer answers an event: its next state and the calls it makes. -/
abbrev Reaction (ω : Type) := ω → Event → ω × List (Call ω)

namespace Session

variable {ω : Type}

/-- Forgets what was told, answered and logged. -/
def cleared (s : Session ω) : Session ω := { s with told := #[], answers := #[], log := #[] }

/-- Tells one observer of an event. It has its new state before its calls are made. -/
def tell (react : Reaction ω) (nested : Session ω → List (Call ω) → Session ω) (event : Event) (s : Session ω)
    (k : Nat) : Session ω :=
  match s.observers[k]? with
  | none => s
  | some observer =>
    let (next, calls) := react observer event
    nested { s with observers := s.observers.set k next, told := s.told.push (k, event) } calls

/-- Tells the observers that were there when the notice began of its events, one event after the other, and then
settles the engine. A reset drops the events that have not begun yet. -/
def notify (react : Reaction ω) (nested : Session ω → List (Call ω) → Session ω) (s : Session ω) (notice : Notice) :
    Session ω :=
  let audience := List.range s.observers.length
  let s := notice.events.foldl (fun s event =>
    if s.engine.generation = notice.generation then audience.foldl (tell react nested event) s else s) s
  { s with engine := s.engine.settle notice.generation }

/-- Carries out a call whose effect is worked out. -/
def carryOut {α : Type} (react : Reaction ω) (nested : Session ω → List (Call ω) → Session ω) (s : Session ω)
    (effect : Effect α) : Session ω × Except Error α :=
  let s := { s with engine := effect.engine, log := s.log ++ effect.log }
  match effect.notice with
  | none => (s, effect.reply)
  | some notice => (s.notify react nested notice, effect.reply)

/-- Answers a call, given how calls made by observers are carried out. -/
def answer (react : Reaction ω) (nested : Session ω → List (Call ω) → Session ω) (patience : Nat) (s : Session ω) :
    Call ω → Session ω × Answer
  | .command c =>
    let (s, reply) := s.carryOut react nested (s.engine.begin c)
    (s, .reply (reply.mapError .engine))
  | .run code context =>
    let (s, reply) := runLoop engine (carryOut react nested) code context (s.engine.allowance patience) 0 s
    (s, .reply (reply.map .committed))
  | .register name => (s, .register (s.engine.register name))
  | .status => (s, .status ⟨s.engine.phase, s.engine.ip, s.engine.sp, s.engine.capacity⟩)
  | .stats => (s, .stats s.engine.stats)
  | .attach observer => ({ s with observers := s.observers ++ [observer] }, .attached)

/-- Answers a call; calls made by observers nest at most `depth` deep, and deeper ones are left out. A run without a
step limit takes at most `patience` steps. -/
def perform (react : Reaction ω) (patience : Nat) : (depth : Nat) → Session ω → Call ω → Session ω × Answer
  | 0, s, call => s.answer react (fun s _ => s) patience call
  | depth + 1, s, call =>
    s.answer react
      (fun s calls => calls.foldl (fun s call =>
        let (s, a) := perform react patience depth s call
        { s with answers := s.answers.push a }) s)
      patience call

end Session

end StackMachine
