import FunctionFlow.CallGraph.Record
import FunctionFlow.Proofs.Analysis.Demand
import FunctionFlow.Proofs.Analysis.Direct
import FunctionFlow.Proofs.Analysis.LeastSolution
import FunctionFlow.Proofs.Flow.Labels
import FunctionFlow.Proofs.Lowering.CallSites

/-!
Contract: every analysis ends in a result that can be reported in full.
-/

namespace FunctionFlow

variable {program : Program} {natives : NativeTable}

/-! ### Results that belong to the program -/

/-- The result of an analysis whose vertices and pairs belong to the program. -/
structure Analysis.Within (program : Program) (analysis : Analysis) : Prop where
  flow : analysis.flow.Of program
  pairs : ∀ pair ∈ analysis.callGraph.pairs, ∃ call < program.calls.size,
    pair.1 = .callee call ∧ pair.2.isValue = true ∧ pair.2.InRange program.sizes

namespace Analysis

theorem directCallee_lt (inRange : program.InRange) (callee : Expr)
    (member : callee ∈ program.exprs) {function : FunctionId}
    (denotes : program.directCallee callee = .ok (some function)) :
    function < program.functions.size := by
  induction callee using Program.directCallee.induct with
  | case1 node target =>
    cases denotes
    exact inRange.head member
  | case2 node name scope decl =>
    obtain ⟨entry, found, declInRange⟩ := inRange.decl_of_lt (inRange.head member).2
    rw [Program.directCallee, Program.directFunction, found, Checked.ok_bind] at denotes
    split at denotes
    · cases denotes
    · split at denotes
      · exact declInRange.functionValue function (Except.ok.inj denotes)
      · cases denotes
  | case3 node guards value inductionHypothesis =>
    rw [Program.directCallee] at denotes
    refine inductionHypothesis (Program.mem_exprs_of_part member ?_) denotes
    simp [Expr.all, Expr.allOf, Expr.mem_all_self]
  | case4 callee notLiteral notName notChoice =>
    rw [Program.directCallee.eq_4 program callee notLiteral notName notChoice] at denotes
    cases denotes

theorem callsDirectly_lt (inRange : program.InRange) {call : CallId} {function : FunctionId}
    (calls : program.CallsDirectly call function) :
    call < program.calls.size ∧ function < program.functions.size := by
  obtain ⟨node, callee, arguments, member, denotes⟩ := calls
  have isPart : callee ∈ program.exprs :=
    Program.mem_exprs_of_part member (by simp [Expr.all, Expr.mem_all_self])
  exact ⟨inRange.head member, directCallee_lt inRange callee isPart denotes⟩

theorem direct_within (inRange : program.InRange) (natives : NativeTable) :
    ∃ analysis, direct program natives = .ok analysis ∧ analysis.Within program := by
  obtain ⟨analysis, ran, _, grown, mem_pairs⟩ := direct_grown inRange.tellsDirect natives
  refine ⟨analysis, ran, grown.of fun vertex member => ?_, fun pair member => ?_⟩
  · obtain ⟨⟨call, callee⟩, isCall, here⟩ := Growth.mem_places_sum_map.mp member
    obtain ⟨node, arguments, isExpr⟩ := Program.mem_callExpressions.mp isCall
    simp only [Program.directGrowth] at here
    split at here
    · rename_i function denotes
      obtain ⟨callBelow, functionBelow⟩ :=
        callsDirectly_lt inRange ⟨node, callee, arguments, isExpr, denotes⟩
      have cases : vertex = .function function ∨ vertex = .callee call := by simpa using here
      rcases cases with rfl | rfl
      · exact functionBelow
      · exact callBelow
    · cases here
  · obtain ⟨call, function, calls, rfl⟩ := (mem_pairs pair).mp member
    obtain ⟨callBelow, functionBelow⟩ := callsDirectly_lt inRange calls
    exact ⟨call, callBelow, rfl, rfl, functionBelow⟩

theorem oneShot_within (inRange : program.InRange) (natives : NativeTable) :
    ∃ analysis, oneShot program natives = .ok analysis ∧ analysis.Within program := by
  obtain ⟨graph, events, final, analysis, built, represents, solved, ran, flow, _, mem_pairs⟩ :=
    oneShot_solved inRange natives
  have of := bodyGraph_of inRange built
  refine ⟨analysis, ran, ?_, fun pair member => ?_⟩
  · rw [flow]
    exact of.of_vertices solved.consistent.wellFormed solved.consistent.vertices
  · obtain ⟨call, isCallee, reached⟩ := (mem_pairs pair).mp member
    have below : call < program.calls.size := by
      rcases reached.arrives with present | isSink
      · exact represents.callee_iff.mp present
      · cases isSink
    obtain ⟨present, isValue⟩ := reached.isValue
    exact ⟨call, below, isCallee, isValue, of.inRange _ present⟩

theorem demand_within (formed : program.WellFormed) (natives : NativeTable) (depth : Nat) :
    ∃ analysis, demand program natives depth = .ok analysis ∧ analysis.Within program := by
  obtain ⟨initial, events, shared, callees, final, analysis, built, run⟩ :=
    demand_converged formed.inRange formed.wellScoped.parents natives depth
  have of := bodyGraph_of formed.inRange built
  have bounded := run.converged.bounded
  refine ⟨analysis, run.demand, ?_, fun pair member => ?_⟩
  · rw [run.flow]
    exact of.of_vertices bounded.wellFormed bounded.vertices
  · obtain ⟨call, callee, target, isCallee, atCallee, finds, atTarget⟩ := run.mem_pairs.mp member
    obtain ⟨found, atFound, isValue⟩ := finds.isValue
    cases atTarget.vertex_unique (bounded.at_iff.mp atFound)
    exact ⟨call, run.represents.callee_iff.mp atCallee.mem, isCallee, isValue,
      of.inRange _ atTarget.mem⟩

theorem ofStrategy_within (formed : program.WellFormed) (natives : NativeTable)
    (strategy : Strategy) :
    ∃ analysis, ofStrategy program natives strategy = .ok analysis ∧ analysis.Within program := by
  -- the events that a strategy adds change neither graph
  have reporting {run : Checked Analysis} (ends : ∃ analysis, run = .ok analysis ∧
      analysis.Within program) : ∃ analysis,
        (do
          let analysis ← run
          return { analysis with events := strategy.events ++ analysis.events }) =
          .ok analysis ∧ analysis.Within program := by
    obtain ⟨analysis, rfl, within⟩ := ends
    exact ⟨_, rfl, within.flow, within.pairs⟩
  unfold ofStrategy
  cases strategy.effective with
  | direct => exact reporting (direct_within formed.inRange natives)
  | oneShot => exact reporting (oneShot_within formed.inRange natives)
  | demand | full => exact reporting (demand_within formed natives standardDepth)

end Analysis

/-! ### Records -/

/-- The end of a record shows the place `span`: its first and last point, and its bytes. -/
structure Endpoint.Shows (endpoint : Endpoint) (span : Span) : Prop where
  start : endpoint.start.row = some span.start.row ∧ endpoint.start.column = some span.start.column
  stop : endpoint.stop.row = some span.stop.row ∧ endpoint.stop.column = some span.stop.column
  range : endpoint.range.start = some span.startByte ∧ endpoint.range.stop = some span.endByte

theorem Endpoint.shows_located (label file : String) (span : Span) :
    (Endpoint.located label file span).Shows span :=
  ⟨⟨rfl, rfl⟩, ⟨rfl, rfl⟩, ⟨rfl, rfl⟩⟩

structure Endpoint.ShowsNone (endpoint : Endpoint) : Prop where
  start : endpoint.start.row = none ∧ endpoint.start.column = none
  stop : endpoint.stop.row = none ∧ endpoint.stop.column = none
  range : endpoint.range.start = none ∧ endpoint.range.stop = none

theorem Endpoint.showsNone_native (name : String) : (Endpoint.native name).ShowsNone :=
  ⟨⟨rfl, rfl⟩, ⟨rfl, rfl⟩, ⟨rfl, rfl⟩⟩

namespace Program

/-- A call stands in the body with the given home. -/
def CallIn (program : Program) (call : CallId) (home : Home) : Prop :=
  ∃ body stmt node callee arguments, program.BodyAt home body ∧ stmt ∈ body ∧
    .call node call callee arguments ∈ stmt.exprs

/-- What the source of a record says about a callee: the name of the function around the call, the
path of the file that the call stands in, and the place of the call. -/
inductive DescribesSource (program : Program) (paths : List String) : Vertex → Endpoint → Prop
  | callee {call : CallId} {site : CallSite} {home : Home} {source : Endpoint}
    (found : program.calls[call]? = some site) (stands : program.CallIn call home)
    (label : program.GoesBy home.owner source.label) (file : paths[home.file]? = some source.file)
    (place : source.Shows site.span) :
    DescribesSource program paths (.callee call) source

/-- What the target of a record says about a value: the name of the function, the path of the file
that it stands in, and its place; a built-in function has a name only. -/
inductive DescribesTarget (program : Program) (paths : List String) : Vertex → Endpoint → Prop
  | function {id : FunctionId} {definition : FunctionDef} {target : Endpoint}
    (found : program.functions[id]? = some definition)
    (label : program.GoesBy (some id) target.label)
    (file : paths[definition.file]? = some target.file) (place : target.Shows definition.span) :
    DescribesTarget program paths (.function id) target
  | native {name : String} {target : Endpoint} (label : target.label = name)
    (file : target.file = "Native") (place : target.ShowsNone) :
    DescribesTarget program paths (.native name) target

/-- What the record of a pair says. -/
structure Describes (program : Program) (paths : List String) (pair : Vertex × Vertex)
    (record : BindingRecord) : Prop where
  source : program.DescribesSource paths pair.1 record.source
  target : program.DescribesTarget paths pair.2 record.target

theorem exists_bodyAt {owner : Option FunctionId} {body : List Stmt}
    (isBody : (owner, body) ∈ program.bodies) : ∃ home, program.BodyAt home body := by
  rcases mem_bodies.mp isBody with ⟨top, member, _, rfl⟩ | ⟨_, _, found, _, rfl⟩
  · exact ⟨_, .top member⟩
  · exact ⟨_, .function found⟩

theorem CallsMatch.callIn (matched : program.CallsMatch) (placed : program.Placed) {call : CallId}
    {site : CallSite} (found : program.calls[call]? = some site) :
    ∃ home, program.CallIn call home ∧ site.file = home.file ∧ site.enclosing = home.owner := by
  have below : call < program.calls.size := Table.below found
  obtain ⟨expr, member, isSite⟩ :=
    List.mem_filterMap.mp (matched.sites.mem_iff.mpr (List.mem_range.mpr below))
  cases expr with
  | call node site' callee arguments =>
    cases isSite
    obtain ⟨owner, body, stmt, isBody, inBody, inStmt⟩ := mem_exprs.mp member
    obtain ⟨home, isAt⟩ := exists_bodyAt isBody
    obtain ⟨entry, isEntry, sameFile, sameOwner⟩ := placed home body isAt stmt inBody _ inStmt
    cases found.symm.trans isEntry
    exact ⟨home, ⟨body, stmt, node, callee, arguments, isAt, inBody, inStmt⟩, sameFile, sameOwner⟩
  | _ => cases isSite

theorem lift_bind {α β : Type} {lookup : Checked α} {answer : α} (found : lookup = .ok answer)
    (next : α → Fallible β) : (liftM lookup >>= next : Fallible β) = next answer := by
  rw [found]
  rfl

section

variable (inRange : program.InRange)
include inRange

theorem ofSource_callee {call : CallId} (below : call < program.calls.size) :
    ∃ site label path, program.calls[call]? = some site ∧ program.GoesBy site.enclosing label ∧
      program.files[site.file]? = some path ∧
      Endpoint.ofSource program (.callee call) = .ok (.located label path site.span) := by
  obtain ⟨site, isEntry, found, siteInRange⟩ := inRange.call_of_lt below
  obtain ⟨label, named, goesBy⟩ := inRange.enclosingName_goesBy siteInRange.enclosing
  obtain ⟨path, isPath, opened⟩ := InRange.file_of_lt siteInRange.file
  refine ⟨site, label, path, isEntry, goesBy, isPath, ?_⟩
  rw [Endpoint.ofSource, lift_bind found, lift_bind named, lift_bind opened]
  rfl

theorem source_described (matched : program.CallsMatch) (placed : program.Placed) {call : CallId}
    (below : call < program.calls.size) :
    ∃ endpoint, Endpoint.ofSource program (.callee call) = .ok endpoint ∧
      program.DescribesSource program.files.toList (.callee call) endpoint := by
  obtain ⟨site, label, path, isEntry, goesBy, isPath, made⟩ := ofSource_callee inRange below
  obtain ⟨home, stands, sameFile, sameOwner⟩ := matched.callIn placed isEntry
  refine ⟨_, made, .callee isEntry stands (sameOwner ▸ goesBy) ?_ ?_⟩
  · rw [← sameFile, Array.getElem?_toList]
    exact isPath
  · exact Endpoint.shows_located label path site.span

theorem target_described {value : Vertex} (isValue : value.isValue = true)
    (within : value.InRange program.sizes) :
    ∃ endpoint, Endpoint.ofTarget program value = .ok endpoint ∧
      program.DescribesTarget program.files.toList value endpoint := by
  cases value with
  | function id =>
    obtain ⟨definition, isEntry, found, isInRange⟩ := inRange.function_of_lt within
    obtain ⟨path, isPath, opened⟩ := InRange.file_of_lt isInRange.file
    refine ⟨.located definition.displayName path definition.span, ?_,
      .function isEntry (goesBy_displayName isEntry) ?_ ?_⟩
    · rw [Endpoint.ofTarget, lift_bind found, lift_bind opened]
      rfl
    · rw [Array.getElem?_toList]
      exact isPath
    · exact Endpoint.shows_located definition.displayName path definition.span
  | native name => exact ⟨_, rfl, .native rfl rfl (Endpoint.showsNone_native name)⟩
  | callee | slot => cases isValue

end

end Program

/-- An analysis whose result can be reported in full: the edges of its graph can be shown, and every
pair of a call and a function or a built-in function has a record, which describes the pair. -/
structure Analysis.Reported (program : Program) (paths : List String) (analysis : Analysis) :
    Prop where
  shown : ∃ lines, analysis.flow.dump program = .ok lines
  pairs : ∀ pair ∈ analysis.callGraph.pairs, ∃ call < program.calls.size, pair.1 = .callee call ∧
    ((∃ id < program.functions.size, pair.2 = .function id) ∨ ∃ name, pair.2 = .native name)
  records : ∃ records, analysis.callGraph.records program = records.map .ok ∧
    records.length = analysis.callGraph.size ∧
    List.Forall₂ (program.Describes paths) analysis.callGraph.pairs records

theorem Program.records_described {pairs : List (Vertex × Vertex)} {paths : List String}
    (each : ∀ pair ∈ pairs, ∃ record, BindingRecord.ofPair program pair = .ok record ∧
      program.Describes paths pair record) :
    ∃ records, pairs.map (BindingRecord.ofPair program) = records.map .ok ∧
      List.Forall₂ (program.Describes paths) pairs records := by
  induction pairs with
  | nil => exact ⟨[], rfl, .nil⟩
  | cons first rest inductionHypothesis =>
    obtain ⟨record, made, describes⟩ := each first List.mem_cons_self
    obtain ⟨records, madeRest, describesRest⟩ :=
      inductionHypothesis fun pair member => each pair (List.mem_cons_of_mem _ member)
    refine ⟨record :: records, ?_, .cons describes describesRest⟩
    rw [List.map_cons, List.map_cons, made, madeRest]

theorem Analysis.Within.reported {analysis : Analysis} (within : analysis.Within program)
    (wellFormed : program.WellFormed) (matched : program.CallsMatch) :
    analysis.Reported program program.files.toList where
  shown := within.flow.dump_ok wellFormed.inRange
  pairs pair member := by
    obtain ⟨call, below, isCallee, isValue, isInRange⟩ := within.pairs pair member
    refine ⟨call, below, isCallee, ?_⟩
    cases value : pair.2 with
    | function id =>
      rw [value] at isInRange
      exact .inl ⟨id, isInRange, rfl⟩
    | native name => exact .inr ⟨name, rfl⟩
    | callee | slot =>
      rw [value] at isValue
      cases isValue
  records := by
    have each : ∀ pair ∈ analysis.callGraph.pairs, ∃ record,
        BindingRecord.ofPair program pair = .ok record ∧
          program.Describes program.files.toList pair record := by
      rintro ⟨source, target⟩ member
      obtain ⟨call, below, rfl, isValue, isInRange⟩ := within.pairs _ member
      obtain ⟨first, madeSource, describesSource⟩ :=
        Program.source_described wellFormed.inRange matched wellFormed.placed below
      obtain ⟨second, madeTarget, describesTarget⟩ :=
        Program.target_described wellFormed.inRange isValue isInRange
      refine ⟨⟨first, second⟩, ?_, describesSource, describesTarget⟩
      rw [BindingRecord.ofPair, madeSource, madeTarget]
      rfl
    obtain ⟨records, made, describes⟩ := Program.records_described each
    exact ⟨records, made, describes.length_eq.symm, describes⟩

/-- Files whose trees fit their texts are read without failure. Every analysis of the program that
they make ends, under each strategy and at every depth, in a result that can be reported in full:
its pairs go from calls to functions and built-in functions, and each pair has a record with the
names and the files of the two. -/
theorem analyses_reported (files : List SourceFile) (fits : ∀ file ∈ files, file.Fits)
    (natives : NativeTable) :
    ∃ parsed, Program.ofSources files = .ok parsed ∧
      (∀ strategy, ∃ analysis, Analysis.ofStrategy parsed.program natives strategy = .ok analysis ∧
        analysis.Reported parsed.program (files.map SourceFile.path)) ∧
      ∀ depth, ∃ analysis, Analysis.demand parsed.program natives depth = .ok analysis ∧
        analysis.Reported parsed.program (files.map SourceFile.path) := by
  obtain ⟨parsed, made⟩ := Program.ofSources_ok fits
  obtain ⟨wellFormed, paths⟩ := Program.ofSources_formed made
  have matched := Program.ofSources_callsMatch made
  refine ⟨parsed, made, fun strategy => ?_, fun depth => ?_⟩
  · obtain ⟨analysis, ran, within⟩ :=
      Analysis.ofStrategy_within wellFormed natives strategy
    exact ⟨analysis, ran, paths ▸ within.reported wellFormed matched⟩
  · obtain ⟨analysis, ran, within⟩ := Analysis.demand_within wellFormed natives depth
    exact ⟨analysis, ran, paths ▸ within.reported wellFormed matched⟩

/-- A file with a function that calls another one. -/
def calledByName : SourceFile where
  path := "a.js"
  text := "function f() { g(); } function g() {}"
  tree := {
    hasErrors := false
    root :=
      .rule "program" 0 37 [] [
        .rule "function_declaration" 0 21 ["name", "parameters", "body"] [
          .rule "identifier" 9 10 [] [],
          .rule "formal_parameters" 10 12 [] [],
          .rule "statement_block" 13 21 [] [
            .rule "expression_statement" 15 19 [] [
              .rule "call_expression" 15 18 ["function", "arguments"] [
                .rule "identifier" 15 16 [] [],
                .rule "arguments" 16 18 [] []]]]],
        .rule "function_declaration" 22 37 ["name", "parameters", "body"] [
          .rule "identifier" 31 32 [] [],
          .rule "formal_parameters" 32 34 [] [],
          .rule "statement_block" 35 37 [] []]] }

/-- The call is reported under the name of the function around it, and with the function called. -/
theorem analyses_reported_calledByName :
    calledByName.Fits ∧ ∃ parsed analysis records,
      Program.ofSources [calledByName] = .ok parsed ∧
      Analysis.ofStrategy parsed.program .empty .direct = .ok analysis ∧
      analysis.callGraph.records parsed.program = records.map .ok ∧
      List.Forall₂ (parsed.program.Describes ["a.js"]) [(.callee 0, .function 1)] records ∧
      records.map (fun record => [record.source.label, record.source.file, record.target.label,
        record.target.file]) = [["f", "a.js", "g", "a.js"]] := by
  have fits : calledByName.Fits := by decide +kernel
  obtain ⟨parsed, made, strategies, _⟩ :=
    analyses_reported [calledByName] (by simpa using fits) .empty
  obtain ⟨analysis, ran, _, _, records, reported, _, describes⟩ := strategies .direct
  have outcome : (Program.ofSources [calledByName]).toOption.bind (fun parsed =>
      (Analysis.ofStrategy parsed.program .empty .direct).toOption.map fun analysis =>
        (analysis.callGraph.pairs, (analysis.callGraph.records parsed.program).map fun record =>
          record.toOption.map fun record => [record.source.label, record.source.file,
            record.target.label, record.target.file])) =
      some ([(.callee 0, .function 1)], [some ["f", "a.js", "g", "a.js"]]) := by
    decide +kernel
  simp only [made, ran, reported, Except.toOption, Option.bind_some, Option.map_some,
    Option.some.injEq, Prod.mk.injEq, List.map_map] at outcome
  obtain ⟨pairs, texts⟩ := outcome
  refine ⟨fits, parsed, analysis, records, made, ran, reported, pairs ▸ describes, ?_⟩
  apply List.map_injective_iff.mpr (Option.some_injective _)
  rw [List.map_map]
  exact texts

end FunctionFlow
