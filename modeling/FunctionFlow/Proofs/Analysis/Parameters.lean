import FunctionFlow.Proofs.Analysis.Demand
import FunctionFlow.Proofs.Analysis.LeastSolution
import FunctionFlow.Proofs.Lowering.WellFormed

/-!
Contract: parameters have slots of their own, by position.
-/

namespace FunctionFlow

namespace Lowering

/-- What stands in the head of a function before the parameter at `index`. -/
def headBefore (node : Node) (index : Nat) : List Node :=
  (ownName? node).toList ++ parameterTrees ((parameterNodes node).take index)

section

variable {source : Source} {program : Program} {function : FunctionId} {scope : ScopeId}
  {own : Option Node} {earlier : List Node} {first : Nat} {items : List (Node × Option Node)}
  {params : List (Option DeclId)}

theorem Takes.length_eq (takes : Takes source program function scope own earlier first items params) :
    params.length = items.length := by
  induction takes with
  | nil => rfl
  | cons _ _ inductionHypothesis => rw [List.length_cons, List.length_cons, inductionHypothesis]

theorem Takes.at (takes : Takes source program function scope own earlier first items params)
    {index : Nat} {item : Node × Option Node} {param : Option DeclId}
    (isItem : items[index]? = some item) (isParam : params[index]? = some param) :
    TakesOne source program function scope own (earlier ++ parameterTrees (items.take index))
      (first + index) item.1 param := by
  induction takes generalizing index with
  | nil => cases isItem
  | @cons _ first _ _ _ _ takesFirst _ inductionHypothesis =>
    cases index with
    | zero =>
      cases isItem
      cases isParam
      simpa [parameterTrees] using takesFirst
    | succ index =>
      rw [← Nat.add_assoc first, Nat.add_right_comm first]
      simpa [parameterTrees] using inductionHypothesis isItem isParam

end

/-- The function `id` is the one that `node` defines. -/
structure Defines (source : Source) (program : Program) (node : Node) (id : FunctionId)
    (definition : FunctionDef) : Prop where
  span : definition.span = source.spanOf node.info.startByte node.info.endByte
  takes : Takes source program id definition.scope (ownName? node) (ownName? node).toList 1
    (parameterNodes node) definition.params

/-- Every function that a derivation adds is the one that some node of the tree defines. -/
theorem Lowers.defined {root : Node} {context : Context} {before after : State} {exprs : List Expr}
    (lowered : Lowers root context before exprs after) {id : FunctionId} {definition : FunctionDef}
    (isNew : before.program.functions.size ≤ id)
    (found : after.program.functions[id]? = some definition) :
    definition.file = context.file ∧ ∃ node, Node.Inside root node ∧
      Defines context.source after.program node id definition := by
  have absent {state : State} (below : state.program.functions.size ≤ id)
      (present : state.program.functions[id]? = some definition) : False :=
    absurd (Table.below present) (Nat.not_lt_of_le below)
  induction lowered with
  | done | skip => exact (absent isNew found).elim
  | @seq _ _ _ middle _ _ _ first second firstHypothesis secondHypothesis =>
    by_cases inSecond : middle.program.functions.size ≤ id
    · exact secondHypothesis inSecond found
    · have present := Array.getElem?_eq_getElem (Nat.lt_of_not_le inSecond)
      cases (second.keeps.functions present).symm.trans found
      obtain ⟨file, node, inside, defines⟩ := firstHypothesis isNew present
      exact ⟨file, node, inside, defines.span, defines.takes.extend second.extends⟩
  | build _ _ inductionHypothesis =>
    obtain ⟨file, node, inside, defines⟩ := inductionHypothesis isNew found
    exact ⟨file, node, inside, defines.span, defines.takes.extend State.extends_numbered⟩
  | emit _ _ inductionHypothesis => exact inductionHypothesis isNew found
  | declare _ _ _ _ declared =>
    obtain ⟨_, _, rfl, _⟩ := Program.declare_frame declared
    exact (absent isNew found).elim
  | block _ inductionHypothesis => exact inductionHypothesis isNew found
  | call inside _ isCall inductionHypothesis =>
    obtain ⟨file, node, within, defines⟩ := inductionHypothesis isNew found
    refine ⟨file, node, inside.trans within, defines.span,
      (defines.takes.extend ?_).extend State.extends_numbered⟩
    exact State.extends_setCall isCall rfl
  | @function _ node context before after name isArrow _ params inside lowered isFunction takes
      inductionHypothesis =>
    cases lowered.opened_function isFunction
    rcases Table.set_cases found with ⟨rfl, rfl⟩ | ⟨other, old⟩
    · refine ⟨rfl, node, inside, rfl, takes.extend ?_⟩
      exact State.extends_setFunction isFunction rfl
    · have later : before.program.functions.size + 1 ≤ id := Nat.lt_of_le_of_ne isNew other.symm
      rw [← Array.size_push (context.functionAt before node name isArrow)] at later
      obtain ⟨file, inner, within, defines⟩ := inductionHypothesis later old
      refine ⟨file, inner, inside.trans within, defines.span, defines.takes.extend ?_⟩
      exact State.extends_setFunction isFunction rfl

end Lowering

namespace Program

variable {program : Program}

def Defined (program : Program) (files : List SourceFile) : Prop :=
  ∀ (id : FunctionId) (definition : FunctionDef), program.functions[id]? = some definition →
    ∃ file node, files[definition.file]? = some file ∧ Node.Inside file.tree.root node ∧
      Lowering.Defines (.ofString file.analysedText) program node id definition

theorem addSources_defined {files : List SourceFile}
    (added : ({} : Program).addSources files = .ok program) : program.Defined files := by
  refine (addSources_run (fun done program => program.files.size = done.length ∧
    program.Defined done) ?_ ⟨rfl, fun _ _ found => by simp at found⟩ added).2
  rintro done program file state _ _ ⟨counted, defined⟩ derived
  have extended := (derived.extends.trans (extends_withTop program state))
  have isFiles : state.program.files = program.files.push file.path :=
    derived.files_and_modules.1
  refine ⟨?_, fun id definition found => ?_⟩
  · show state.program.files.size = _
    rw [isFiles, Array.size_push, counted, List.length_append, List.length_singleton]
  by_cases isNew : program.functions.size ≤ id
  · obtain ⟨isFile, node, inside, defines⟩ := derived.defined isNew found
    refine ⟨file, node, ?_, inside, defines.span, defines.takes.extend (extends_withTop _ _)⟩
    rw [isFile, show (program.topContext file).file = done.length from counted]
    simp
  · have known := Array.getElem?_eq_getElem (Nat.lt_of_not_le isNew)
    cases (derived.keeps.functions known).symm.trans found
    obtain ⟨earlier, node, isFile, inside, defines⟩ := defined id _ known
    have below := (List.getElem?_eq_some_iff.mp isFile).1
    refine ⟨earlier, node, ?_, inside, defines.span,
      defines.takes.extend ((extends_topState program file).trans extended)⟩
    rw [List.getElem?_append_left below]
    exact isFile

/-- The value of `decl` lives in the slot of the parameter, and references to it read that slot. -/
structure LivesInParameter (program : Program) (function : FunctionId) (index : Nat) (decl : DeclId) :
    Prop where
  vertex : program.declVertex decl = .ok (.slot (.param function index))
  reads : ∀ node reference, reference.binding = .declared decl →
    Expr.holder program (.ident node reference) = some (.slot (.param function index))

theorem livesInParameter {function : FunctionId} {index : Nat} {decl : DeclId} {entry : Declaration}
    (found : program.decls[decl]? = some entry)
    (isParameter : entry.kind = .parameter function index) :
    program.LivesInParameter function index decl := by
  have vertex : program.declVertex decl = .ok (.slot (.param function index)) := by
    rw [declVertex, Program.decl, fetch_eq_ok.mpr found, Checked.ok_bind, isParameter]
    rfl
  refine ⟨vertex, fun node reference bound => ?_⟩
  rw [Expr.holder, Reference.slot, bound]
  show some (Vertex.slot (program.slotOf decl)) = _
  rw [slotOf, vertex]

/-- What the parameter at `index` of a function becomes. A plain name is declared in the function's
scope. It is the parameter unless the head of the function declares it before, and the function
itself if it is the function's own name. A name that the head only reads before, in a default, is no
such declaration. -/
def Positional (program : Program) (source : Source) (function : FunctionId) (scope : ScopeId)
    (node : Node) (index : Nat) (pattern : Node) : Option DeclId → Prop
  | none => pattern.kind ≠ "identifier"
  | some decl => ∃ name entry, pattern.Spells source name ∧ program.Names scope name decl ∧
      program.decls[decl]? = some entry ∧
      (¬ program.DeclaredIn (Lowering.headBefore node index) source name decl →
        entry.kind = .parameter function (index + 1)) ∧
      (∀ own ∈ Lowering.ownName? node, own.Spells source name → entry.kind = .function) ∧
      (entry.kind = .parameter function (index + 1) →
        program.LivesInParameter function (index + 1) decl)

theorem Defined.positional {files : List SourceFile} (defined : program.Defined files)
    {function : FunctionId} {definition : FunctionDef}
    (found : program.functions[function]? = some definition) :
    ∃ file node, files[definition.file]? = some file ∧ Node.Inside file.tree.root node ∧
      definition.span =
        (Source.ofString file.analysedText).spanOf node.info.startByte node.info.endByte ∧
      definition.params.length = (Lowering.parameterNodes node).length ∧
      ∀ index item param, (Lowering.parameterNodes node)[index]? = some item →
        definition.params[index]? = some param →
        program.Positional (.ofString file.analysedText) function definition.scope node index item.1
          param := by
  obtain ⟨file, node, isFile, inside, defines⟩ := defined function definition found
  refine ⟨file, node, isFile, inside, defines.span, defines.takes.length_eq, ?_⟩
  intro index item param isItem isParam
  have takes := defines.takes.at isItem isParam
  rw [Nat.add_comm] at takes
  cases param with
  | none => exact takes
  | some decl =>
    obtain ⟨name, entry, spells, named, isEntry, fresh, own⟩ := takes
    exact ⟨name, entry, spells, named, isEntry, fun notBefore => fresh.resolve_right notBefore, own,
      livesInParameter isEntry⟩

end Program

/-! ### Arguments -/

/-- Each argument of a call flows into the parameter at its position of every function that the call
is paired with, as far as the graph has both slots. -/
def Analysis.TiesCalls (analysis : Analysis) (program : Program) : Prop :=
  ∀ call site function, (.callee call, .function function) ∈ analysis.callGraph.pairs →
    program.calls[call]? = some site → ∀ index ≤ site.arity,
    .slot (.arg call index) ∈ analysis.flow.vertices →
    .slot (.param function index) ∈ analysis.flow.vertices →
    analysis.flow.Arrow (.slot (.arg call index)) (.slot (.param function index))

namespace Analysis

variable {program : Program} (inRange : program.InRange) (natives : NativeTable)
include inRange

theorem oneShot_tiesCalls :
    ∃ analysis, oneShot program natives = .ok analysis ∧ analysis.TiesCalls program := by
  obtain ⟨graph, _, final, analysis, _, _, solved, ran, flow, _, mem_pairs⟩ :=
    oneShot_solved inRange natives
  refine ⟨analysis, ran, fun call site function paired isCall index within isSource isSink => ?_⟩
  obtain ⟨_, same, reached⟩ := (mem_pairs _).mp paired
  cases same
  rw [flow] at isSource isSink ⊢
  have sameVertices : final.graph.vertices = graph.vertices := solved.consistent.vertices
  exact solved.arrow_iff.mpr (.inr ⟨call, site, function, _, _, isCall, reached,
    mem_linkEdges.mpr (.inl ⟨index, within, rfl, rfl⟩), rfl, rfl, sameVertices ▸ isSource,
    sameVertices ▸ isSink⟩)

theorem demand_tiesCalls (parents : program.ParentsFirst) (depth : Nat) :
    ∃ analysis, demand program natives depth = .ok analysis ∧ analysis.TiesCalls program := by
  obtain ⟨initial, _, shared, callees, final, analysis, _, run⟩ :=
    demand_converged inRange parents natives depth
  refine ⟨analysis, run.demand, fun call site function paired isCall index within isSource isSink => ?_⟩
  obtain ⟨_, callee, target, same, atCallee, finds, atTarget⟩ := run.mem_pairs.mp paired
  cases same
  rw [run.flow] at isSource isSink ⊢
  obtain ⟨source, atSource⟩ := FlowGraph.exists_at_of_mem isSource
  obtain ⟨sink, atSink⟩ := FlowGraph.exists_at_of_mem isSink
  have at_iff := @run.converged.bounded.at_iff
  refine ⟨source, sink, atSource, atSink, ?_⟩
  exact run.leastLinked.linksFound.edge run.leastLinked.wellFormed (at_iff.mpr atCallee) finds
    ⟨function, site, _, _, at_iff.mpr atTarget, isCall,
      mem_linkEdges.mpr (.inl ⟨index, within, rfl, rfl⟩), atSource, atSink⟩

end Analysis

/-- Every function has a declaration for each plain name that its node lists as a parameter. It is
the parameter at that position unless the head of the function declares the name earlier, and a
function's own name stays the function. What is the parameter lives in the slot of its position, and
there the arguments arrive of all calls that are linked to the function. -/
theorem parameters_positional {files : List SourceFile} {parsed : Parsed}
    (made : Program.ofSources files = .ok parsed) :
    (∀ function definition, parsed.program.functions[function]? = some definition →
      ∃ file node, files[definition.file]? = some file ∧ Node.Inside file.tree.root node ∧
        definition.span =
          (Source.ofString file.analysedText).spanOf node.info.startByte node.info.endByte ∧
        definition.params.length = (Lowering.parameterNodes node).length ∧
        ∀ index item param, (Lowering.parameterNodes node)[index]? = some item →
          definition.params[index]? = some param →
          parsed.program.Positional (.ofString file.analysedText) function definition.scope node
            index item.1 param) ∧
      ∀ natives,
        (∃ analysis, Analysis.oneShot parsed.program natives = .ok analysis ∧
          analysis.TiesCalls parsed.program) ∧
        ∀ depth, ∃ analysis, Analysis.demand parsed.program natives depth = .ok analysis ∧
          analysis.TiesCalls parsed.program := by
  obtain ⟨program, added, _, binds⟩ := Program.ofSources_bindsTo made
  have inRange := Program.ofSources_inRange made
  have parents := Program.ofSources_parentsFirst made
  have defined : parsed.program.Defined files := by
    intro id definition found
    obtain ⟨old, isOld, rfl⟩ := binds.function_cases found
    obtain ⟨file, node, isFile, inside, defines⟩ := Program.addSources_defined added id old isOld
    exact ⟨file, node, isFile, inside, defines.span, defines.takes.extend binds.extends⟩
  exact ⟨fun _ _ => defined.positional, fun natives => ⟨Analysis.oneShot_tiesCalls inRange natives,
    Analysis.demand_tiesCalls inRange natives parents⟩⟩

/-- A function with a default, a pattern and a plain parameter, which the default reads. -/
def threeParameters : SourceFile where
  path := "a.js"
  text := "var o = (a = c, [b], c) => c(a);"
  tree := {
    hasErrors := false
    root :=
      .rule "program" 0 32 [] [
        .rule "variable_declaration" 0 32 [] [
          .rule "variable_declarator" 4 31 ["name", "value"] [
            .rule "identifier" 4 5 [] [],
            .rule "arrow_function" 8 31 ["parameters", "body"] [
              .rule "formal_parameters" 8 23 [] [
                .rule "assignment_pattern" 9 14 ["left", "right"] [
                  .rule "identifier" 9 10 [] [],
                  .rule "identifier" 13 14 [] []],
                .rule "array_pattern" 16 19 [] [
                  .rule "identifier" 17 18 [] []],
                .rule "identifier" 21 22 [] []],
              .rule "call_expression" 27 31 ["function", "arguments"] [
                .rule "identifier" 27 28 [] [],
                .rule "arguments" 28 31 [] [
                  .rule "identifier" 29 30 [] []]]]]]] }

theorem parameters_positional_three : ∃ parsed definition,
    Program.ofSources [threeParameters] = .ok parsed ∧
      parsed.program.functions[0]? = some definition ∧
      definition.params = [some 1, none, some 3] ∧
      parsed.program.decls.map (·.kind) =
        #[.hoisted, .parameter 0 1, .lexical, .parameter 0 3] ∧
      ∃ file node, [threeParameters][definition.file]? = some file ∧
        (Lowering.parameterNodes node).length = 3 ∧
        ∀ index item param, (Lowering.parameterNodes node)[index]? = some item →
          definition.params[index]? = some param →
          parsed.program.Positional (.ofString file.analysedText) 0 definition.scope node index
            item.1 param := by
  have computed : (Program.ofSources [threeParameters]).toOption.bind (fun parsed =>
      parsed.program.functions[0]?.map fun definition =>
        (definition.params, parsed.program.decls.map (·.kind))) =
      some ([some 1, none, some 3],
        #[.hoisted, .parameter 0 1, .lexical, .parameter 0 3]) := by
    decide +kernel
  obtain ⟨parsed, isParsed, isFunction⟩ := Option.bind_eq_some_iff.mp computed
  obtain ⟨definition, found, same⟩ := Option.map_eq_some_iff.mp isFunction
  obtain ⟨params, kinds⟩ := Prod.mk.injEq .. ▸ same
  have made := Checked.toOption_eq_some.mp isParsed
  obtain ⟨file, node, isFile, _, _, sameLength, positional⟩ :=
    (parameters_positional made).1 0 definition found
  rw [params] at sameLength
  exact ⟨parsed, definition, made, found, params, kinds, file, node, isFile, sameLength.symm,
    positional⟩

/-- A function expression whose own name is also the name of its parameter. -/
def ownNameTaken : SourceFile where
  path := "a.js"
  text := "function g() {}\n(function f(f) { f(); })(g);"
  tree := {
    hasErrors := false
    root :=
      .rule "program" 0 44 [] [
        .rule "function_declaration" 0 15 ["name", "parameters", "body"] [
          .rule "identifier" 9 10 [] [],
          .rule "formal_parameters" 10 12 [] [],
          .rule "statement_block" 13 15 [] []],
        .rule "expression_statement" 16 44 [] [
          .rule "call_expression" 16 43 ["function", "arguments"] [
            .rule "parenthesized_expression" 16 40 [] [
              .rule "function_expression" 17 39 ["name", "parameters", "body"] [
                .rule "identifier" 26 27 [] [],
                .rule "formal_parameters" 27 30 [] [
                  .rule "identifier" 28 29 [] []],
                .rule "statement_block" 31 39 [] [
                  .rule "expression_statement" 33 37 [] [
                    .rule "call_expression" 33 36 ["function", "arguments"] [
                      .rule "identifier" 33 34 [] [],
                      .rule "arguments" 34 36 [] []]]]]],
            .rule "arguments" 40 43 [] [
              .rule "identifier" 41 42 [] []]]]] }

/-- The parameter keeps the declaration of the function, in a slot that no argument flows into. -/
theorem own_name_is_no_parameter : ∃ parsed definition entry,
    Program.ofSources [ownNameTaken] = .ok parsed ∧
      parsed.program.functions[1]? = some definition ∧ definition.params = [some 1] ∧
      parsed.program.decls[1]? = some entry ∧ entry.kind = .function ∧
      parsed.program.declVertex 1 = .ok (.slot (.declared 1)) := by
  have computed : (Program.ofSources [ownNameTaken]).toOption.bind (fun parsed =>
      parsed.program.functions[1]?.bind fun definition => parsed.program.decls[1]?.map fun entry =>
        (definition.params, entry.kind, (parsed.program.declVertex 1).toOption)) =
      some ([some 1], .function, some (.slot (.declared 1))) := by
    decide +kernel
  obtain ⟨parsed, isParsed, isFunction⟩ := Option.bind_eq_some_iff.mp computed
  obtain ⟨definition, found, isDecl⟩ := Option.bind_eq_some_iff.mp isFunction
  obtain ⟨entry, isEntry, same⟩ := Option.map_eq_some_iff.mp isDecl
  simp only [Prod.mk.injEq] at same
  exact ⟨parsed, definition, entry, Checked.toOption_eq_some.mp isParsed, found, same.1, isEntry,
    same.2.1, Checked.toOption_eq_some.mp same.2.2⟩

end FunctionFlow
