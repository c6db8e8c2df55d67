import StackMachine.Event

namespace StackMachine

structure TraceRow where
  seq : Nat
  event : Bytes
  /-- The operation of the transaction that the row belongs to. -/
  op : Bytes
  target : Bytes
  value : Option Int64
  detail : Bytes
  deriving DecidableEq

structure Recorder where
  /-- The largest number of rows, none when it is below one. -/
  limit : Int
  rows : Array TraceRow := #[]
  /-- The operation of the latest log line. -/
  lastOp : Bytes := []

namespace Recorder

/-- The number of the next row. -/
def nextSeq (r : Recorder) : Nat :=
  match r.rows.back? with
  | some row => row.seq + 1
  | none => 0

/-- Adds a row and drops the oldest one when there are too many. -/
def add (r : Recorder) (row : TraceRow) : Recorder :=
  let rows := r.rows.push row
  { r with rows := if 0 < r.limit ∧ r.limit < rows.size then rows.extract (rows.size - r.limit.toNat) else rows }

/-- Takes note of an event. A log line opens a transaction, so the rows after it belong to its operation. -/
def record (r : Recorder) (event : Event) : Recorder :=
  match event with
  | .log op detail => { r with lastOp := op }.add ⟨r.nextSeq, utf8 "log", op, [], none, detail⟩
  | .error op detail => { r with lastOp := op }.add ⟨r.nextSeq, utf8 "error", op, [], none, detail⟩
  | .register name v => r.add ⟨r.nextSeq, utf8 "register", r.lastOp, name, some v, hexValue v⟩
  | .stack index cell hint => r.add ⟨r.nextSeq, utf8 "stack", r.lastOp, stackCellText index, cell, hint⟩
  | .ip v => r.add ⟨r.nextSeq, utf8 "ip", r.lastOp, utf8 "IP", some v, []⟩

def recordAll (r : Recorder) (events : Array Event) : Recorder := events.foldl record r

/-- Drops every row and starts numbering again. -/
def clear (r : Recorder) : Recorder := { r with rows := #[], lastOp := [] }

end Recorder

end StackMachine
