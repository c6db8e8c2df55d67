import StackMachine.Commitment
import StackMachine.Encoding

namespace StackMachine

inductive Phase where
  | idle
  | awaitingCommit
  deriving DecidableEq

def Phase.text : Phase → Bytes
  | .idle => utf8 "idle"
  | .awaitingCommit => utf8 "awaiting-commit"

def Phase.all : List Phase := [.idle, .awaitingCommit]

/-- The name of a phase by its number, `unknown` beyond the last one. -/
def Phase.textOfCode (n : Nat) : Bytes := (all[n]?.map text).getD (utf8 "unknown")

/-- Counters of committed and rejected transactions. -/
structure Stats where
  steps : Nat
  errors : Nat
  counts : Vector Nat 16
  deriving DecidableEq

namespace Stats

def zero : Stats := ⟨0, 0, Vector.replicate 16 0⟩

def count (s : Stats) (op : Opcode) : Nat := s.counts[op.index]

def commit (s : Stats) (op : Opcode) : Stats :=
  { s with steps := s.steps + 1, counts := s.counts.set op.index (s.count op + 1) }

def reject (s : Stats) : Stats := { s with errors := s.errors + 1 }

end Stats

/-- How an engine is set up. A capacity below one gives the default, a step limit below one gives none. -/
structure Options where
  capacity : Int := 0
  maxSteps : Int64 := 0
  latch : Bool := false
  stats : Bool := false
  deriving DecidableEq

structure Engine where
  machine : Machine
  phase : Phase
  /-- The transaction that was announced and not yet committed. -/
  pending : Option Transaction
  /-- Observers are being told of a transaction of the current generation. -/
  busy : Bool
  /-- The number of resets so far. -/
  generation : Nat
  latch : Bool
  maxSteps : Int64
  /-- Counters, when they are kept. -/
  stats : Option Stats
  deriving DecidableEq

/-- Events that observers are to be told, and the generation they belong to. -/
structure Notice where
  generation : Nat
  events : List Event
  deriving DecidableEq

/-- Everything a call does before observers are told of it. -/
structure Effect (α : Type) where
  engine : Engine
  reply : Except Error α
  notice : Option Notice := none
  log : List LogEntry := []

/-- What an announced transaction will do. -/
structure Preview where
  op : Opcode
  operands : List Operand
  consumed : List CellChange
  detail : Bytes
  deriving DecidableEq

structure Snapshot where
  registers : List Int64
  cells : List Cell
  sp : Int
  ip : Int64
  phase : Phase
  deriving DecidableEq

namespace Effect

variable {α β : Type}

def map (f : α → β) (effect : Effect α) : Effect β :=
  { engine := effect.engine, reply := f <$> effect.reply, notice := effect.notice, log := effect.log }

/-- Puts log entries in front. -/
def after (effect : Effect α) (log : List LogEntry) : Effect α := { effect with log := log ++ effect.log }

end Effect

namespace Engine

variable {α : Type}

def ofOptions (o : Options) : Engine where
  machine := .baseline (.empty o.capacity)
  phase := .idle
  pending := none
  busy := false
  generation := 0
  latch := o.latch
  maxSteps := o.maxSteps
  stats := if o.stats then some .zero else none

def ip (e : Engine) : Int64 := e.machine.ip

def sp (e : Engine) : Int := e.machine.sp

def capacity (e : Engine) : Nat := e.machine.stack.capacity

def snapshot (e : Engine) : Snapshot :=
  ⟨e.machine.registers.toList, e.machine.stack.cells, e.sp, e.ip, e.phase⟩

/-- The value of a named register. -/
def register (e : Engine) (name : Bytes) : Except Error Int64 :=
  match Register.ofName? name with
  | some r => .ok (e.machine.registers.get r)
  | none => .error ⟨[], .unknownRegister name⟩

/-- Ends a notice: the engine takes work again, unless a reset came in between. -/
def settle (e : Engine) (generation : Nat) : Engine :=
  if e.generation = generation then { e with busy := false } else e

/-- Why no transaction may begin now, if so. -/
def refusal? (e : Engine) (op : Bytes) : Option Error :=
  if e.busy then some ⟨op, .insideCallback⟩
  else match e.phase with
    | .idle => none
    | .awaitingCommit => some ⟨op, .awaitingCommit⟩

/-- Refuses a call out of turn: it is logged, but neither counted nor told. -/
def refuse (e : Engine) (op : Option Bytes) (error : Error) : Effect α :=
  { engine := e, reply := .error error, log := [.rejected op error] }

/-- Rejects a transaction: it is logged, counted and, unless the engine is busy, told to observers. -/
def reject (e : Engine) (op : Bytes) (error : Error) : Effect α :=
  let counted := { e with stats := e.stats.map Stats.reject }
  let log := [.rejected (some op) error]
  if e.busy then { engine := counted, reply := .error error, log }
  else
    { engine := { counted with busy := true }, reply := .error error, log,
      notice := some ⟨e.generation, [.error op error.body]⟩ }

/-- Checks an instruction in the current machine. An instruction whose operands fit the catalog is logged. -/
def plan (e : Engine) (code : UInt8) (operands : List Operand) : List LogEntry × Except Error Transaction :=
  match Opcode.ofByte code with
  | .error error => ([], .error error)
  | .ok op =>
    match Cause.underOpcode op (Action.ofOperands op operands) with
    | .error error => ([], .error error)
    | .ok action => ([.dispatch op e.ip e.sp], Cause.underOpcode op (e.machine.plan e.latch action))

/-- Commits a planned transaction. -/
def apply (e : Engine) (t : Transaction) : Effect Result :=
  let (machine, result) := e.machine.commit t
  { engine := { e with machine, busy := true, stats := e.stats.map (·.commit t.op) },
    reply := .ok result,
    notice := some ⟨e.generation, result.events e.ip⟩ }

/-- Executes one instruction given by its opcode byte. -/
def dispatch (e : Engine) (code : UInt8) (operands : List Operand) : Effect Result :=
  let name := Opcode.nameOfCode code
  match e.refusal? name with
  | some error => e.refuse (some name) error
  | none =>
    match e.plan code operands with
    | (log, .error error) => (e.reject name error).after log
    | (log, .ok t) => (e.apply t).after log

/-- Answers a mnemonic that names no opcode. A refusal comes before it. -/
def unknown (e : Engine) (mnemonic : Bytes) : Effect α :=
  match e.refusal? mnemonic with
  | some error => e.refuse (some mnemonic) error
  | none => e.reject mnemonic ⟨[], .unknownMnemonic mnemonic⟩

/-- Executes one instruction given by its mnemonic. -/
def execute (e : Engine) (mnemonic : Bytes) (operands : List Operand) : Effect Result :=
  match Opcode.ofName? mnemonic with
  | some op => e.dispatch op.code operands
  | none => e.unknown mnemonic

/-- Plans an instruction and keeps it for a later commit. -/
def announce (e : Engine) (mnemonic : Bytes) (operands : List Operand) : Effect Preview :=
  match Opcode.ofName? mnemonic with
  | none => e.unknown mnemonic
  | some op =>
    match e.refusal? op.name with
    | some error => e.refuse (some op.name) error
    | none =>
      match e.plan op.code operands with
      | (log, .error error) => (e.reject op.name error).after log
      | (log, .ok t) =>
        { engine := { e with pending := some t, phase := .awaitingCommit },
          reply := .ok ⟨op, operands, t.consumed, t.detail⟩,
          log := log ++ [.announce op t.consumed.length] }

/-- Applies the announced transaction. -/
def commit (e : Engine) : Effect Result :=
  if e.busy then e.refuse (some (utf8 "COMMIT")) ⟨utf8 "COMMIT", .insideCallback⟩
  else match e.pending with
    | none => e.refuse none ⟨[], .nothingAnnounced⟩
    | some t => { e with pending := none, phase := .idle }.apply t

/-- Puts the machine back to its baseline and gives up an announced transaction and any notice under way. -/
def reset (e : Engine) : Effect Unit :=
  { engine := { e with
      machine := .baseline e.machine.stack
      phase := .idle
      pending := none
      busy := false
      generation := e.generation + 1 },
    reply := .ok (),
    log := [.reset e.pending.isSome] }

/-- Reads the instruction at IP and executes it. -/
def step (e : Engine) (code : Bytes) : Effect Result :=
  match decodeAt code e.ip with
  | .error error => e.reject (utf8 "FETCH") error
  | .ok i => e.dispatch i.op.code i.operands

/-- Gives up a run whose step limit is spent. -/
def spendLimit (e : Engine) : Effect Result := e.reject (utf8 "RUN") ⟨[], .stepsSpent e.maxSteps⟩

end Engine

/-- The calls that begin at most one transaction. -/
inductive Command where
  | execute (mnemonic : Bytes) (operands : List Operand)
  | dispatch (code : UInt8) (operands : List Operand)
  | announce (mnemonic : Bytes) (operands : List Operand)
  | commit
  | reset
  | step (code : Bytes)
  deriving DecidableEq

inductive Reply where
  | committed (result : Result)
  | announced (preview : Preview)
  | done
  deriving DecidableEq

/-- The effect of a command before observers are told of it. -/
def Engine.begin (e : Engine) : Command → Effect Reply
  | .execute mnemonic operands => (e.execute mnemonic operands).map .committed
  | .dispatch code operands => (e.dispatch code operands).map .committed
  | .announce mnemonic operands => (e.announce mnemonic operands).map .announced
  | .commit => e.commit.map .committed
  | .reset => e.reset.map fun _ => .done
  | .step code => (e.step code).map .committed

end StackMachine
