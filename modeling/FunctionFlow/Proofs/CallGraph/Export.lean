import FunctionFlow.Proofs.CallGraph.Records
import FunctionFlow.Proofs.Json.Reading
import Mathlib.Data.List.TakeWhile

/-!
Contract: the lines and the records of a call graph end at the same pair.
-/

namespace FunctionFlow

/-! ### Sinks that accept everything -/

def Sink.Willing (sink : Sink) : Prop :=
  ∀ index, ¬ (sink.answer index).Fails

namespace ArrayWriter

variable {writer : ArrayWriter}

theorem willing_serve (willing : writer.sink.Willing) (call : WriterCall) :
    (writer.serve call).2.sink.Willing := by
  rw [Sink.Willing, serve_answer]
  exact willing

theorem Lost.not_willing {text : List UInt8} (lost : writer.Lost text) : ¬ writer.sink.Willing := by
  obtain ⟨last, _, fails, _⟩ := lost.broken
  exact fun willing => willing last fails

theorem write_fault {value : Json} (stillOpen : (writer.write value).2.isOpen = true) :
    (writer.write value).1 = none := by
  rw [write_eq] at stillOpen ⊢
  grind [flushChunk]

variable {failsFlush : Bool} {values : List Json}

theorem Going.write_willing (going : writer.Going failsFlush values)
    (willing : writer.sink.Willing) (value : Json) :
    ∃ after, writer.write value = (none, after) ∧ after.Going failsFlush (values ++ [value]) ∧
      after.sink.Willing := by
  have stillWilling := willing_serve willing (.write value)
  have goesOn := (going.write value).resolve_right fun lost => lost.not_willing stillWilling
  exact ⟨_, Prod.ext (write_fault goesOn.isOpen) rfl, goesOn, stillWilling⟩

theorem Going.abandon_willing (going : writer.Going failsFlush values)
    (willing : writer.sink.Willing) : writer.abandon.sink.bytes = Json.arrayBytes values := by
  rcases going.abandon with ⟨_, whole⟩ | lost
  · exact whole
  · exact absurd (willing_serve willing .abandon) lost.not_willing

end ArrayWriter

/-! ### Positions -/

/-- The numbers that give a place: its first and last point, and its bytes. -/
def Span.numbers (span : Span) : List Nat :=
  [span.start.row, span.start.column, span.stop.row, span.stop.column, span.startByte, span.endByte]

/-- The places of the calls and of the functions have at most 64 bits. -/
structure Program.PlacesInWords (program : Program) : Prop where
  calls : ∀ site ∈ program.calls, ∀ number ∈ site.span.numbers, number ≤ Json.wordLimit
  functions : ∀ definition ∈ program.functions, ∀ number ∈ definition.span.numbers,
    number ≤ Json.wordLimit

/-- Every position of the end of a record has at most 64 bits. -/
def Endpoint.InWords (endpoint : Endpoint) : Prop :=
  ∀ position ∈ endpoint.positions, ∀ number ∈ position, number ≤ Json.wordLimit

theorem Endpoint.Shows.inWords {endpoint : Endpoint} {span : Span} (shows : endpoint.Shows span)
    (inWords : ∀ number ∈ span.numbers, number ≤ Json.wordLimit) : endpoint.InWords := by
  simpa [Endpoint.InWords, positions, shows.start, shows.stop, shows.range, Span.numbers] using
    inWords

theorem Endpoint.ShowsNone.inWords {endpoint : Endpoint} (shows : endpoint.ShowsNone) :
    endpoint.InWords := by
  simp [Endpoint.InWords, positions, shows.start, shows.stop, shows.range]

theorem Program.DescribesTarget.inWords {program : Program} {paths : List String} {value : Vertex}
    {target : Endpoint} (describes : program.DescribesTarget paths value target)
    (inWords : program.PlacesInWords) : target.InWords := by
  cases describes with
  | function found _ _ place => exact place.inWords (inWords.functions _ (Array.mem_of_getElem? found))
  | native _ _ place => exact place.inWords

/-! ### Pairs -/

namespace CallGraph

/-- A callee bound to a function or a built-in function. -/
def isReportable : Vertex × Vertex → Bool
  | (.callee _, .function _) | (.callee _, .native _) => true
  | _ => false

/-- The end that keeps a pair from being reported: the source unless it is a callee. -/
def culprit : Vertex × Vertex → Vertex
  | (.callee _, target) => target
  | (source, _) => source

variable {program : Program} (inRange : program.InRange)
include inRange

theorem ofPair_cases {pair : Vertex × Vertex} (source : pair.1.InRange program.sizes)
    (target : pair.2.InRange program.sizes) :
    (isReportable pair = true ∧ (∃ record, BindingRecord.ofPair program pair = .ok record ∧
          (program.PlacesInWords → record.InWords)) ∧
        ∃ line, pretty program pair.1 pair.2 = .ok line) ∨
      isReportable pair = false ∧ ∃ label, (culprit pair).label program = .ok label ∧
        BindingRecord.ofPair program pair = .error (.strangeVertex label) := by
  obtain ⟨caller, value⟩ := pair
  obtain ⟨sourceLabel, sourceLabelled⟩ := inRange.label_ok source
  obtain ⟨targetLabel, targetLabelled⟩ := inRange.label_ok target
  cases caller with
  | callee call =>
    obtain ⟨site, label, path, isEntry, _, _, sourceMade⟩ :=
      Program.ofSource_callee inRange source
    cases value with
    | function | native =>
      obtain ⟨targetEnd, targetMade, describes⟩ := Program.target_described inRange rfl target
      refine .inl ⟨rfl, ⟨⟨.located label path site.span, targetEnd⟩, ?_, fun inWords => ?_⟩, ?_⟩
      · rw [BindingRecord.ofPair, sourceMade, targetMade]
        rfl
      · have sourceInWords := (Endpoint.shows_located label path site.span).inWords
          (inWords.calls site (Array.mem_of_getElem? isEntry))
        exact List.forall_mem_append.mpr ⟨sourceInWords, describes.inWords inWords⟩
      · rw [pretty, sourceLabelled, Checked.ok_bind, targetLabelled]
        exact ⟨_, rfl⟩
    | callee | slot =>
      refine .inr ⟨rfl, targetLabel, targetLabelled, ?_⟩
      rw [BindingRecord.ofPair, sourceMade, Endpoint.ofTarget, Program.lift_bind targetLabelled]
      · rfl
      · rintro _ ⟨⟩
      · rintro _ ⟨⟩
  | function | native | slot =>
    refine .inr ⟨rfl, sourceLabel, sourceLabelled, ?_⟩
    rw [BindingRecord.ofPair, Endpoint.ofSource, Program.lift_bind sourceLabelled]
    · rfl
    · rintro _ ⟨⟩

theorem export_pairs {pairs : List (Vertex × Vertex)}
    (within : ∀ pair ∈ pairs, pair.1.InRange program.sizes ∧ pair.2.InRange program.sizes)
    {writer : ArrayWriter} {failsFlush : Bool} {values : List Json}
    (going : writer.Going failsFlush values) (willing : writer.sink.Willing) :
    ∃ lines records failure after, listPairs program pairs = (lines, failure) ∧
      writePairs program writer pairs = (failure, after) ∧
      List.Forall₂ (fun pair line => pretty program pair.1 pair.2 = .ok line)
        (pairs.takeWhile isReportable) lines ∧
      List.Forall₂ (fun pair record => BindingRecord.ofPair program pair = .ok record)
        (pairs.takeWhile isReportable) records ∧
      (program.PlacesInWords → ∀ record ∈ records, record.InWords) ∧
      after.Going failsFlush (values ++ records.map BindingRecord.toJson) ∧ after.sink.Willing ∧
      (pairs.find? (!isReportable ·) = none → failure = none) ∧
      ∀ pair, pairs.find? (!isReportable ·) = some pair →
        ∃ label, (culprit pair).label program = .ok label ∧
          failure = some (.strangeVertex label) := by
  induction pairs generalizing writer values with
  | nil =>
    exact ⟨[], [], none, writer, rfl, rfl, .nil, .nil, by simp, by simpa using going, willing,
      by simp, by simp⟩
  | cons pair rest inductionHypothesis =>
    obtain ⟨⟨source, target⟩, withinRest⟩ := List.forall_mem_cons.mp within
    rcases ofPair_cases inRange source target with
      ⟨reportable, ⟨record, made, fits⟩, line, shown⟩ | ⟨strange, label, labelled, failed⟩
    · obtain ⟨after, wrote, goesOn, stillWilling⟩ := going.write_willing willing record.toJson
      obtain ⟨lines, records, failure, final, listed, written, eachLine, eachRecord, fitRest,
        ends⟩ := inductionHypothesis withinRest goesOn stillWilling
      refine ⟨line :: lines, record :: records, failure, final, ?_, ?_, ?_, ?_, ?_, ?_⟩
      · simp only [listPairs, made, shown, listed]
        rfl
      · rw [writePairs, made]
        simp only [wrote, written]
      · rw [List.takeWhile_cons_of_pos reportable]
        exact .cons shown eachLine
      · rw [List.takeWhile_cons_of_pos reportable]
        exact .cons made eachRecord
      · intro inWords
        exact List.forall_mem_cons.mpr ⟨fits inWords, fitRest inWords⟩
      · rw [List.find?_cons_of_neg (by simp [reportable])]
        simpa using ends
    · refine ⟨[], [], some (.strangeVertex label), writer, ?_, ?_, ?_, ?_, by simp, ?_⟩
      · rw [listPairs, failed]
        rfl
      · rw [writePairs, failed]
      · rw [List.takeWhile_cons_of_neg (by simp [strange])]
        exact .nil
      · rw [List.takeWhile_cons_of_neg (by simp [strange])]
        exact .nil
      · rw [List.find?_cons_of_pos (by simp [strange])]
        simpa using ⟨going, willing, labelled⟩

end CallGraph

/-- The lines of a call graph and its records, written to a sink that accepts everything, in chunks
of any size. Both end before the first pair that is not a callee with a function or a built-in
function, and both report the end of that pair that is to blame. What was written until then is a
closed array, from which the records of the pairs before are read back. -/
theorem export_stops (program : Program) (graph : CallGraph) (answer : Nat → SinkAnswer)
    (failsFlush : Bool) (threshold : Nat) (inRange : program.InRange)
    (within : ∀ pair ∈ graph.pairs, pair.1.InRange program.sizes ∧ pair.2.InRange program.sizes)
    (willing : ∀ index, ¬ (answer index).Fails) :
    let reported := graph.pairs.takeWhile CallGraph.isReportable
    ∃ lines records failure writer, graph.listing program = (lines, failure) ∧
      graph.write program (.fresh (.fresh answer failsFlush) threshold) = (failure, writer) ∧
      List.Forall₂ (fun pair line => CallGraph.pretty program pair.1 pair.2 = .ok line)
        reported lines ∧
      List.Forall₂ (fun pair record => BindingRecord.ofPair program pair = .ok record)
        reported records ∧
      writer.abandon.sink.bytes = Json.arrayBytes (records.map BindingRecord.toJson) ∧
      (program.PlacesInWords → ∃ values,
        Json.parseBytes? writer.abandon.sink.bytes = some (.array values) ∧
          values.mapM BindingRecord.ofJson? = some records) ∧
      writer.records = records.length ∧
      (failure = none ↔ ∀ pair ∈ graph.pairs, CallGraph.isReportable pair = true) ∧
      (failure = none → lines.length = graph.size ∧ writer.records = graph.size) ∧
      ∀ pair, graph.pairs.find? (!CallGraph.isReportable ·) = some pair →
        ∃ label, (CallGraph.culprit pair).label program = .ok label ∧
          failure = some (.strangeVertex label) := by
  intro reported
  obtain ⟨lines, records, failure, writer, listed, written, eachLine, eachRecord, fit, going,
    stillWilling, succeeds, fails⟩ := CallGraph.export_pairs inRange within
      (ArrayWriter.fresh_going answer failsFlush threshold) willing
  have noFailure : failure = none ↔ ∀ pair ∈ graph.pairs, CallGraph.isReportable pair = true := by
    cases found : graph.pairs.find? (!CallGraph.isReportable ·) with
    | none => exact iff_of_true (succeeds found) (by simpa using found)
    | some pair =>
      obtain ⟨label, _, rfl⟩ := fails pair found
      refine iff_of_false (by simp) fun all => ?_
      have strange := List.find?_some found
      simp [all pair (List.mem_of_find?_eq_some found)] at strange
  have counted : writer.records = records.length := by simpa using going.records
  have whole : writer.abandon.sink.bytes = Json.arrayBytes (records.map BindingRecord.toJson) :=
    going.abandon_willing stillWilling
  have readBack (inWords : program.PlacesInWords) : ∃ values,
      Json.parseBytes? writer.abandon.sink.bytes = some (.array values) ∧
        values.mapM BindingRecord.ofJson? = some records := by
    rw [whole]
    exact BindingRecord.arrayBytes_read_back (fit inWords)
  refine ⟨lines, records, failure, writer, listed, written, eachLine, eachRecord, whole, readBack,
    counted, noFailure, fun succeeded => ?_, fails⟩
  have everything : graph.pairs.takeWhile CallGraph.isReportable = graph.pairs :=
    List.takeWhile_eq_self_iff.mpr (noFailure.mp succeeded)
  rw [counted, ← eachLine.length_eq, ← eachRecord.length_eq, everything]
  exact ⟨rfl, rfl⟩

/-- A callee with a function, with a property, and with a built-in function. -/
def strangeGraph : CallGraph :=
  ⟨[(.callee 0, .function 0), (.callee 0, .slot (.named "x")), (.callee 0, .native "eval")]⟩

/-- The first record was sent, byte by byte, before the second pair turned out to be strange. -/
theorem export_stops_strangeTarget : callback.InRange ∧
    (∀ pair ∈ strangeGraph.pairs, pair.1.InRange callback.sizes ∧
      pair.2.InRange callback.sizes) ∧
    ∃ line record writer, strangeGraph.listing callback =
        ([line], some (.strangeVertex "Prop(x)")) ∧
      strangeGraph.write callback (.fresh (.fresh (fun _ => .accept (some 1)) true) 0) =
        (some (.strangeVertex "Prop(x)"), writer) ∧
      ∃ values, Json.parseBytes? writer.abandon.sink.bytes = some (.array values) ∧
        values.mapM BindingRecord.ofJson? = some [record] := by
  have inRange : callback.InRange := by decide
  have within : ∀ pair ∈ strangeGraph.pairs, pair.1.InRange callback.sizes ∧
      pair.2.InRange callback.sizes := by
    simp [strangeGraph, Vertex.InRange, Slot.InRange, Program.sizes, callback]
  have inWords : callback.PlacesInWords := ⟨by decide, by decide⟩
  have named : (Vertex.slot (.named "x")).label callback = .ok "Prop(x)" := by
    decide +kernel
  obtain ⟨lines, records, failure, writer, listed, written, eachLine, eachRecord, _, readBack, _, _,
    _, fails⟩ := export_stops callback strangeGraph (fun _ => .accept (some 1)) true 0 inRange
      within (by simp [SinkAnswer.Fails])
  obtain ⟨label, labelled, rfl⟩ := fails _ rfl
  cases named.symm.trans labelled
  have single : strangeGraph.pairs.takeWhile CallGraph.isReportable =
    [(.callee 0, .function 0)] := rfl
  rw [single] at eachLine eachRecord
  obtain ⟨line, rfl⟩ := List.length_eq_one_iff.mp eachLine.length_eq.symm
  obtain ⟨record, rfl⟩ := List.length_eq_one_iff.mp eachRecord.length_eq.symm
  exact ⟨inRange, within, line, record, writer, listed, written, readBack inWords⟩

end FunctionFlow
