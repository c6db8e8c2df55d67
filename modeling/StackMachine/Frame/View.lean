import StackMachine.Catalog
import StackMachine.Engine
import StackMachine.Frame
import StackMachine.Trace

namespace StackMachine

/-- A column of integers that are all there. -/
def intColumn (name : String) (values : List Int64) : Column := ⟨utf8 name, .ints (values.map some)⟩

/-- A column of texts that are all there. -/
def textColumn (name : String) (values : List Bytes) : Column := ⟨utf8 name, .texts (values.map some)⟩

namespace Frame

/-- One row per opcode. -/
def ofCatalog : Frame where
  columns := [
    intColumn "id" (catalog.map fun d => Int64.ofNat d.op.code.toNat),
    textColumn "hex" (catalog.map fun d => hexByte d.op.code),
    textColumn "mnemonic" (catalog.map fun d => d.op.name),
    textColumn "signature" (catalog.map fun d => d.signature),
    intColumn "bytes" (catalog.map fun d => Int64.ofNat d.op.size),
    textColumn "stack" (catalog.map fun d => d.diagramText),
    textColumn "description" (catalog.map fun d => d.description)]

/-- One row per register. -/
def ofRegisters (s : Snapshot) : Frame where
  columns := [
    textColumn "register" (Register.all.map Register.name),
    textColumn "class" (Register.all.map fun r => r.role.text),
    intColumn "value" s.registers,
    textColumn "hex" (s.registers.map hexValue)]

/-- One row per cell, from the top end of the stack down. -/
def ofStack (s : Snapshot) : Frame where
  columns :=
    let indexed := s.cells.zipIdx.reverse
    [intColumn "index" (indexed.map fun c => Int64.ofNat c.2),
      ⟨utf8 "value", .ints (indexed.map Prod.fst)⟩,
      textColumn "marker" (indexed.map fun c => if (c.2 : Int) = s.sp then utf8 "<- SP" else [])]

/-- One row per recorded event. -/
def ofTrace (rows : List TraceRow) : Frame where
  columns := [
    intColumn "seq" (rows.map fun r => Int64.ofNat r.seq),
    textColumn "event" (rows.map TraceRow.event),
    textColumn "op" (rows.map TraceRow.op),
    textColumn "target" (rows.map TraceRow.target),
    ⟨utf8 "value", .ints (rows.map TraceRow.value)⟩,
    textColumn "detail" (rows.map TraceRow.detail)]

end Frame

def Recorder.frame (r : Recorder) : Frame := .ofTrace r.rows.toList

end StackMachine
