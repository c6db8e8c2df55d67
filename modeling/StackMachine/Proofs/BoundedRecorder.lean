import Mathlib.Data.List.DropRight
import StackMachine.Trace

namespace StackMachine

inductive RecorderCall where
  | record (event : Event)
  | clear
  deriving DecidableEq

namespace RecorderCall

def event? : RecorderCall → Option Event
  | .record event => some event
  | .clear => none

/-- The events that were told since the rows were last dropped. -/
def sinceClear (calls : List RecorderCall) : List Event :=
  (calls.rtakeWhile (· != .clear)).filterMap event?

theorem sinceClear_record (calls : List RecorderCall) (event : Event) :
    sinceClear (calls ++ [.record event]) = sinceClear calls ++ [event] := by
  rw [sinceClear, List.rtakeWhile_concat_pos _ _ _ rfl, List.filterMap_append]
  rfl

theorem sinceClear_clear (calls : List RecorderCall) : sinceClear (calls ++ [.clear]) = [] := by
  rw [sinceClear, List.rtakeWhile_concat_neg _ _ _ (by decide)]
  rfl

end RecorderCall

namespace Event

/-- The operation that a log line opens. -/
def op? : Event → Option Bytes
  | .log op _ | .error op _ => some op
  | .register .. | .stack .. | .ip _ => none

/-- The row of the event under a number and an operation. -/
def row (seq : Nat) (op : Bytes) : Event → TraceRow
  | .log _ detail => ⟨seq, utf8 "log", op, [], none, detail⟩
  | .error _ detail => ⟨seq, utf8 "error", op, [], none, detail⟩
  | .register name v => ⟨seq, utf8 "register", op, name, some v, hexValue v⟩
  | .stack index cell hint => ⟨seq, utf8 "stack", op, stackCellText index, cell, hint⟩
  | .ip v => ⟨seq, utf8 "ip", op, utf8 "IP", some v, []⟩

theorem row_seq (event : Event) (seq : Nat) (op : Bytes) : (event.row seq op).seq = seq := by
  cases event <;> rfl

end Event

/-- The operation of the latest log line, none before the first one. -/
def latestOp (events : List Event) : Bytes := (events.filterMap Event.op?).getLast?.getD []

theorem latestOp_concat (events : List Event) (event : Event) :
    latestOp (events ++ [event]) = event.op?.getD (latestOp events) := by
  unfold latestOp
  rw [List.filterMap_append]
  cases hop : event.op? with
  | none => simp [hop]
  | some op => simp [hop]

/-- One row for each event, in order. -/
def rowsOf (events : List Event) : List TraceRow :=
  events.mapIdx fun i event => event.row i (latestOp (events.take (i + 1)))

theorem length_rowsOf (events : List Event) : (rowsOf events).length = events.length := List.length_mapIdx

theorem getElem?_rowsOf {events : List Event} {i : Nat} {event : Event} (h : events[i]? = some event) :
    (rowsOf events)[i]? = some (event.row i (event.op?.getD (latestOp (events.take i)))) := by
  have htake : events.take (i + 1) = events.take i ++ [event] := by
    rw [List.take_add_one, h]
    rfl
  rw [rowsOf, List.getElem?_mapIdx, h, Option.map_some, htake, latestOp_concat]

theorem rowsOf_concat (events : List Event) (event : Event) :
    rowsOf (events ++ [event]) = rowsOf events ++ [event.row events.length (latestOp (events ++ [event]))] := by
  have hlast : (events ++ [event]).take (events.length + 1) = events ++ [event] :=
    List.take_of_length_le (by simp)
  unfold rowsOf
  rw [List.mapIdx_concat, hlast]
  congr 1
  apply List.mapIdx_eq_mapIdx_iff.mpr
  intro i hi
  rw [List.take_append_of_le_length (by omega)]

theorem seq_of_getLast?_rowsOf {events : List Event} {row : TraceRow} (h : (rowsOf events).getLast? = some row) :
    row.seq + 1 = events.length := by
  induction events using List.reverseRecOn with
  | nil => cases h
  | append_singleton events event =>
    rw [rowsOf_concat, List.getLast?_concat] at h
    cases h
    rw [Event.row_seq, List.length_append]
    rfl

/-- The rows that are left under a limit. -/
def latestRows (limit : Int) (rows : List TraceRow) : List TraceRow :=
  if 0 < limit then rows.rtake limit.toNat else rows

section Limits

variable {limit : Int} (rows : List TraceRow)

theorem latestRows_concat (row : TraceRow) :
    latestRows limit (latestRows limit rows ++ [row]) = latestRows limit (rows ++ [row]) := by
  unfold latestRows
  split
  next hlimit =>
    obtain ⟨n, hn⟩ : ∃ n, limit.toNat = n + 1 := ⟨limit.toNat - 1, by omega⟩
    have htwice : (rows.rtake (n + 1)).rtake n = rows.rtake n := by
      have hdrop : rows.length - (n + 1) + (rows.length - (rows.length - (n + 1)) - n) = rows.length - n := by omega
      simp only [List.rtake, List.length_drop, List.drop_drop, hdrop]
    rw [hn, List.rtake_concat_succ, List.rtake_concat_succ, htwice]
  next => rfl

theorem getLast?_latestRows : (latestRows limit rows).getLast? = rows.getLast? := by
  unfold latestRows
  split
  next hlimit =>
    rw [List.rtake, List.getLast?_drop]
    split
    next hall =>
      have hnil : rows.length = 0 := by omega
      rw [List.length_eq_zero_iff.mp hnil]
      rfl
    next => rfl
  next => rfl

theorem latestRows_suffix (hlimit : 0 < limit) :
    latestRows limit rows <:+ rows ∧ (latestRows limit rows).length = min limit.toNat rows.length := by
  rw [latestRows, if_pos hlimit]
  refine ⟨List.drop_suffix _ _, ?_⟩
  rw [List.rtake, List.length_drop]
  omega

end Limits

namespace Recorder

variable {r : Recorder}

theorem toList_rows_add (r : Recorder) (row : TraceRow) :
    (r.add row).rows.toList = latestRows r.limit (r.rows.toList ++ [row]) := by
  have hpush : (r.rows.push row).toList = r.rows.toList ++ [row] := Array.toList_push
  have hsize : (r.rows.push row).size = (r.rows.toList ++ [row]).length := by rw [← hpush, Array.length_toList]
  unfold add latestRows
  dsimp only
  by_cases hlimit : 0 < r.limit
  · rw [if_pos hlimit]
    split
    next =>
      rw [Array.toList_extract, hpush, hsize, List.extract_eq_take_drop]
      exact List.take_of_length_le (by rw [List.length_drop])
    next hfew =>
      have hzero : (r.rows.toList ++ [row]).length - r.limit.toNat = 0 := by omega
      rw [hpush, List.rtake, hzero, List.drop_zero]
  · rw [if_neg hlimit, if_neg fun h => hlimit h.1, hpush]

theorem record_eq (r : Recorder) (event : Event) :
    r.record event =
      { r with lastOp := event.op?.getD r.lastOp }.add (event.row r.nextSeq (event.op?.getD r.lastOp)) := by
  cases event <;> rfl

/-- The recorder has what its limit leaves of the rows of some events, and the operation that they ended in. -/
structure Tracks (r : Recorder) (events : List Event) : Prop where
  rows : r.rows.toList = latestRows r.limit (rowsOf events)
  lastOp : r.lastOp = latestOp events

theorem tracks_empty (limit : Int) : ({ limit } : Recorder).Tracks [] := by
  refine ⟨?_, rfl⟩
  have hnil : latestRows limit [] = [] := by
    unfold latestRows
    split <;> simp
  exact hnil.symm

theorem Tracks.nextSeq {events : List Event} (h : r.Tracks events) : r.nextSeq = events.length := by
  have hback : r.rows.back? = (rowsOf events).getLast? := by
    rw [← Array.getLast?_toList, h.rows, getLast?_latestRows]
  unfold Recorder.nextSeq
  rw [hback]
  cases hlast : (rowsOf events).getLast? with
  | none =>
    have hnil : (rowsOf events).length = 0 := List.length_eq_zero_iff.mpr (List.getLast?_eq_none_iff.mp hlast)
    rw [length_rowsOf] at hnil
    exact hnil.symm
  | some row => exact seq_of_getLast?_rowsOf hlast

theorem Tracks.record {events : List Event} (h : r.Tracks events) (event : Event) :
    (r.record event).Tracks (events ++ [event]) := by
  have hop : event.op?.getD r.lastOp = latestOp (events ++ [event]) := by rw [latestOp_concat, h.lastOp]
  rw [record_eq, hop, h.nextSeq]
  refine ⟨?_, rfl⟩
  rw [toList_rows_add]
  change latestRows r.limit (r.rows.toList ++ _) = latestRows r.limit _
  rw [h.rows, latestRows_concat, rowsOf_concat]

def call (r : Recorder) : RecorderCall → Recorder
  | .record event => r.record event
  | .clear => r.clear

/-- The recorder after some calls. -/
def after (r : Recorder) (calls : List RecorderCall) : Recorder := calls.foldl call r

theorem limit_call (r : Recorder) (call : RecorderCall) : (r.call call).limit = r.limit := by
  cases call with
  | record event => cases event <;> rfl
  | clear => rfl

theorem limit_after (r : Recorder) (calls : List RecorderCall) : (r.after calls).limit = r.limit := by
  induction calls generalizing r with
  | nil => rfl
  | cons call calls ih => exact (ih _).trans (r.limit_call call)

theorem tracks_after (limit : Int) (calls : List RecorderCall) :
    (({ limit } : Recorder).after calls).Tracks (RecorderCall.sinceClear calls) := by
  induction calls using List.reverseRecOn with
  | nil => exact tracks_empty limit
  | append_singleton calls call ih =>
    rw [after, List.foldl_append]
    cases call with
    | record event =>
      rw [RecorderCall.sinceClear_record]
      exact ih.record event
    | clear =>
      -- nothing but the limit outlives a clearing
      have hfresh : (({ limit } : Recorder).after calls).clear = { limit } := by rw [clear, limit_after]
      rw [RecorderCall.sinceClear_clear]
      change (({ limit } : Recorder).after calls).clear.Tracks []
      rw [hfresh]
      exact tracks_empty limit

theorem rows_after (limit : Int) (calls : List RecorderCall) :
    (({ limit } : Recorder).after calls).rows.toList = latestRows limit (rowsOf (RecorderCall.sinceClear calls)) := by
  rw [(tracks_after limit calls).rows, limit_after]

end Recorder

/-- After any calls a recorder with a limit has exactly the latest rows of a recorder without one. The latter has one row
for each event since it was last cleared, numbered from zero; a row belongs to the operation of the log line that it
tells of, or else of the latest one before it. -/
theorem bounded_recorder_keeps_latest (calls : List RecorderCall) (unlimited : Int) (h : unlimited ≤ 0) :
    ∃ all, (({ limit := unlimited } : Recorder).after calls).rows.toList = all ∧
      (∀ limit : Int, 0 < limit → ∃ kept, (({ limit } : Recorder).after calls).rows.toList = kept ∧
        kept <:+ all ∧ kept.length = min limit.toNat all.length) ∧
      all.length = (RecorderCall.sinceClear calls).length ∧
      ∀ i event, (RecorderCall.sinceClear calls)[i]? = some event → ∃ op, all[i]? = some (event.row i op) ∧
        (∀ own, event.op? = some own → op = own) ∧
        (event.op? = none → op = latestOp ((RecorderCall.sinceClear calls).take i)) := by
  have hall : (({ limit := unlimited } : Recorder).after calls).rows.toList =
      rowsOf (RecorderCall.sinceClear calls) := by
    rw [Recorder.rows_after, latestRows, if_neg (by omega)]
  refine ⟨_, hall, ?_, length_rowsOf _, ?_⟩
  · intro limit hlimit
    exact ⟨_, Recorder.rows_after limit calls, latestRows_suffix _ hlimit⟩
  · intro i event hevent
    refine ⟨_, getElem?_rowsOf hevent, ?_, ?_⟩
    · intro own hown
      rw [hown]
      rfl
    · intro hnone
      rw [hnone]
      rfl

/-- A recorder of one row, cleared in between: the operation of the row was told by a row that is gone. -/
theorem bounded_recorder_keeps_latest_one :
    ∃ all, (({ limit := 0 } : Recorder).after [.record (.log (utf8 "PSH") (utf8 "pushed")), .clear, .record (.ip 1),
        .record (.error (utf8 "POP") (utf8 "empty")), .record (.stack 0 none (utf8 "popped"))]).rows.toList = all ∧
      all.length = 3 ∧
      (({ limit := 1 } : Recorder).after [.record (.log (utf8 "PSH") (utf8 "pushed")), .clear, .record (.ip 1),
        .record (.error (utf8 "POP") (utf8 "empty")), .record (.stack 0 none (utf8 "popped"))]).rows.toList <:+ all ∧
      all[2]? = some ⟨2, utf8 "stack", utf8 "POP", utf8 "stack[0]", none, utf8 "popped"⟩ := by
  obtain ⟨all, hall, hkept, hlength, hrows⟩ := bounded_recorder_keeps_latest
    [.record (.log (utf8 "PSH") (utf8 "pushed")), .clear, .record (.ip 1),
      .record (.error (utf8 "POP") (utf8 "empty")), .record (.stack 0 none (utf8 "popped"))] 0 (by decide)
  obtain ⟨kept, hone, hsuffix, -⟩ := hkept 1 (by decide)
  obtain ⟨op, hrow, -, hop⟩ := hrows 2 (.stack 0 none (utf8 "popped")) (by decide +kernel)
  have hpop : op = utf8 "POP" := (hop rfl).trans (by decide +kernel)
  have htarget : stackCellText 0 = utf8 "stack[0]" := by decide +kernel
  refine ⟨all, hall, hlength, hone ▸ hsuffix, ?_⟩
  rw [hrow, hpop, Event.row, htarget]

end StackMachine
