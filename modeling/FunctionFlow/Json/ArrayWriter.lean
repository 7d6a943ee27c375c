import FunctionFlow.Error
import FunctionFlow.Json.Sink
import FunctionFlow.Json.Value

/-!
Contract: a JSON array written in chunks.

After a chunk is lost the sink is not written to again, so a damaged array never looks complete.
-/

namespace FunctionFlow

structure ArrayWriter where
  sink : Sink
  isOpen : Bool
  buffer : String
  threshold : Nat
  records : Nat

namespace ArrayWriter

def fresh (sink : Sink) (threshold : Nat) : ArrayWriter where
  sink := sink
  isOpen := true
  buffer := "["
  threshold := max threshold 1
  records := 0

def flushChunk (writer : ArrayWriter) : Option WriteFault × ArrayWriter :=
  if writer.buffer.isEmpty || !writer.isOpen then (none, { writer with buffer := "" })
  else
    match writer.sink.writeAll writer.buffer.toUTF8.toList with
    | (true, sink) => (none, { writer with sink, buffer := "" })
    | (false, sink) => (some .lostChunk, { writer with sink, buffer := "", isOpen := false })

def write (writer : ArrayWriter) (value : Json) : Option WriteFault × ArrayWriter :=
  let separator := if writer.records = 0 then "" else ","
  let buffer := writer.buffer ++ separator ++ String.ofList value.render
  let writer := { writer with buffer, records := writer.records + 1 }
  if writer.threshold ≤ buffer.utf8ByteSize then writer.flushChunk else (none, writer)

def close (writer : ArrayWriter) : ArrayWriter :=
  { writer with buffer := writer.buffer ++ "]" }

def finish (writer : ArrayWriter) : Option WriteFault × ArrayWriter :=
  match writer.close.flushChunk with
  | (some fault, writer) => (some fault, writer)
  | (none, writer) =>
    if writer.isOpen then
      let (flushed, sink) := writer.sink.flush
      (if flushed then none else some .unflushed, { writer with sink, isOpen := false })
    else (some .alreadyClosed, writer)

/-- Writes the end of the array as far as that is possible. -/
def abandon (writer : ArrayWriter) : ArrayWriter :=
  if writer.isOpen then
    let (_, writer) := writer.close.flushChunk
    if writer.isOpen then { writer with sink := writer.sink.flush.2, isOpen := false } else writer
  else writer

def standardThreshold : Nat := 1048576

end ArrayWriter

end FunctionFlow
