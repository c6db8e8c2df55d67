import StackMachine.Session

namespace StackMachine

/-- The kinds of events a hook can wait for. -/
inductive Trigger where
  | log
  | error
  | register
  | stack
  | ip
  deriving DecidableEq

/-- Whether the event is of the kind; an empty name stands for every operation. -/
def Trigger.fits (trigger : Trigger) (op : Bytes) : Event → Bool
  | .log name _ => trigger == .log && (op.isEmpty || op == name)
  | .error name _ => trigger == .error && (op.isEmpty || op == name)
  | .register .. => trigger == .register
  | .stack .. => trigger == .stack
  | .ip _ => trigger == .ip

inductive Observer where
  | listener (name : Bytes)
  | hook (trigger : Trigger) (op : Bytes) (fires : Nat) (calls : List (Call Observer))

namespace Observer

/-- A hook uses up one of its fires and makes its calls. -/
def react : Reaction Observer
  | .listener name, _ => (.listener name, [])
  | .hook trigger op fires calls, event =>
    match fires with
    | 0 => (.hook trigger op 0 calls, [])
    | n + 1 =>
      if trigger.fits op event then (.hook trigger op n calls, calls)
      else (.hook trigger op (n + 1) calls, [])

/-- How often the observer can still make calls. -/
def fires : Observer → Nat
  | .listener _ => 0
  | .hook _ _ n _ => n

/-- The name of a listener. -/
def name? : Observer → Option Bytes
  | .listener name => some name
  | .hook .. => none

end Observer

/-- Answers a call in a session with hooks. Every nested call uses up a fire, so the fires left bound the nesting. -/
def Session.ask (s : Session Observer) (patience : Nat) (call : Call Observer) : Session Observer × Answer :=
  s.perform Observer.react patience ((s.observers.map Observer.fires).foldr (· + ·) 0) call

/-- What the listeners were told, by their names, in order. -/
def Session.heard (s : Session Observer) : List (Bytes × Event) :=
  s.told.toList.filterMap fun (k, event) =>
    ((s.observers[k]?).bind Observer.name?).map (·, event)

end StackMachine
