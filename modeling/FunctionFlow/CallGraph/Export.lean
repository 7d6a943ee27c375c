import FunctionFlow.CallGraph.Record
import FunctionFlow.Json.ArrayWriter
import FunctionFlow.Json.Reader

/-!
Contract: binding records as JSON.
-/

namespace FunctionFlow

def Json.ofNat? : Option Nat → Json
  | some value => .number value
  | none => .null

def RecordPoint.toJson (point : RecordPoint) : Json :=
  .object [.mk "row" (.ofNat? point.row), .mk "column" (.ofNat? point.column)]

def RecordRange.toJson (range : RecordRange) : Json :=
  .object [.mk "start" (.ofNat? range.start), .mk "end" (.ofNat? range.stop)]

def Endpoint.toJson (endpoint : Endpoint) : Json :=
  .object [
    .mk "label" (.text endpoint.label),
    .mk "file" (.text endpoint.file),
    .mk "start" endpoint.start.toJson,
    .mk "end" endpoint.stop.toJson,
    .mk "range" endpoint.range.toJson]

def BindingRecord.toJson (record : BindingRecord) : Json :=
  .object [.mk "source" record.source.toJson, .mk "target" record.target.toJson]

def RecordPoint.ofJson? (value : Json) : Option RecordPoint := do
  let row ← (← value.member? "row").natOrNull?
  let column ← (← value.member? "column").natOrNull?
  return { row, column }

def RecordRange.ofJson? (value : Json) : Option RecordRange := do
  let start ← (← value.member? "start").natOrNull?
  let stop ← (← value.member? "end").natOrNull?
  return { start, stop }

def Endpoint.ofJson? (value : Json) : Option Endpoint := do
  let label ← (← value.member? "label").text?
  let file ← (← value.member? "file").text?
  let start ← RecordPoint.ofJson? (← value.member? "start")
  let stop ← RecordPoint.ofJson? (← value.member? "end")
  let range ← RecordRange.ofJson? (← value.member? "range")
  return { label, file, start, stop, range }

def BindingRecord.ofJson? (value : Json) : Option BindingRecord := do
  let source ← Endpoint.ofJson? (← value.member? "source")
  let target ← Endpoint.ofJson? (← value.member? "target")
  return { source, target }

namespace CallGraph

def writePairs (program : Program) :
    ArrayWriter → List (Vertex × Vertex) → Option Failure × ArrayWriter
  | writer, [] => (none, writer)
  | writer, pair :: rest =>
    match BindingRecord.ofPair program pair with
    | .error failure => (some failure, writer)
    | .ok record =>
      match writer.write record.toJson with
      | (some fault, writer) => (some (.unwritten fault), writer)
      | (none, writer) => writePairs program writer rest

def write (program : Program) (graph : CallGraph) (writer : ArrayWriter) :
    Option Failure × ArrayWriter :=
  writePairs program writer graph.pairs

end CallGraph

def jsonPath (path : String) : String :=
  if ".json".toList.isSuffixOf path.toList then path else path ++ ".json"

end FunctionFlow
