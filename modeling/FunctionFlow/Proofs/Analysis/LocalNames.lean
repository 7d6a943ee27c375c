import FunctionFlow.Proofs.Analysis.Demand
import FunctionFlow.Proofs.Analysis.Direct
import FunctionFlow.Proofs.Analysis.UnknownCalls
import FunctionFlow.Proofs.Lowering.Files
import FunctionFlow.Proofs.Lowering.WellFormed
import FunctionFlow.Proofs.Program.LocalNames

/-!
Contract: the names of local declarations do not matter.
-/

namespace FunctionFlow

/-- The bodies of `other` are those of `program` with other references, which denote the same, and
the analyses read the same about declarations and calls. -/
structure Program.ReadsAs (spell : Reference → Reference) (program other : Program) : Prop where
  modules : other.modules = (program.mapReferences spell).modules
  functions : other.functions = (program.mapReferences spell).functions
  calls : other.calls = program.calls
  binding : ∀ reference, (spell reference).binding = reference.binding
  /-- The name matters where no declaration is denoted. -/
  name : ∀ reference, reference.binding.decl? = none → (spell reference).name = reference.name
  declVertex : ∀ id, other.declVertex id = program.declVertex id
  directFunction : ∀ id, other.directFunction id = program.directFunction id
  owner : ∀ id, (other.decl id >>= fun decl => other.owner decl.scope) =
    program.decl id >>= fun decl => program.owner decl.scope

section

variable {program other : Program} {spell : Reference → Reference}

/-! ### Flow -/

theorem Build.reference_readsAs (reads : program.ReadsAs spell other) (reference : Reference) :
    Build.reference other (spell reference) = Build.reference program reference := by
  have sameBinding := reads.binding reference
  have sameName := reads.name reference
  unfold Build.reference
  rw [sameBinding]
  cases isBinding : reference.binding with
  | declared decl => simp only [reads.declVertex]
  | unresolved | global =>
    rw [isBinding] at sameName
    simp only [sameName rfl]

theorem Build.expr_call {node : NodeId} {site : CallId} {callee : Expr} {arguments : List Expr}
    (notMember : callee.isMember = false) :
    Build.expr program (.call node site callee arguments) = do
      let target ← Build.expr program callee
      Build.flow target (← Build.vertex (.callee site))
      Build.args program site 1 arguments
      return some (← Build.vertex (.slot (.result site))) := by
  refine Build.expr.eq_7 program node site callee arguments fun _ _ _ isMember => ?_
  rw [isMember] at notMember
  cases notMember

mutual
theorem Build.expr_readsAs (reads : program.ReadsAs spell other) (expr : Expr) :
    Build.expr other (expr.mapReferences spell) = Build.expr program expr := by
  cases expr with
  | function | this => rfl
  | ident _ reference => simp only [Expr.mapReferences, Build.expr, reference_readsAs reads]
  | member _ whole =>
    simp only [Expr.mapReferences, Build.expr, Build.expr_readsAs reads whole]
  | call node site callee arguments =>
    have sameCall : other.call site = program.call site := by
      rw [Program.call, Program.call, reads.calls]
    have sameArguments := Build.args_readsAs reads site 1 arguments
    cases callee with
    | member _ whole =>
      simp only [Expr.mapReferences, Build.expr, Build.receiver, Build.expr_readsAs reads whole,
        sameCall, sameArguments]
    | _ =>
      rw [Expr.mapReferences, Build.expr_call rfl, Build.expr_call rfl,
        Build.expr_readsAs reads, sameArguments]
  | assign _ target value =>
    simp only [Expr.mapReferences, Build.expr, Build.expr_readsAs reads target,
      Build.expr_readsAs reads value]
  | select _ guards values =>
    simp only [Expr.mapReferences, Build.expr, Build.exprs_readsAs reads guards,
      Build.exprs_readsAs reads values]
  | object _ entries =>
    simp only [Expr.mapReferences, Build.expr, Build.properties_readsAs reads entries]
  | inert _ parts =>
    simp only [Expr.mapReferences, Build.expr, Build.exprs_readsAs reads parts]
theorem Build.exprs_readsAs (reads : program.ReadsAs spell other) (exprs : List Expr) :
    Build.exprs other (Expr.mapReferencesIn spell exprs) = Build.exprs program exprs := by
  cases exprs with
  | nil => rfl
  | cons first rest =>
    simp only [Expr.mapReferencesIn, Build.exprs, Build.expr_readsAs reads first,
      Build.exprs_readsAs reads rest]
theorem Build.args_readsAs (reads : program.ReadsAs spell other) (site : CallId) (index : Nat)
    (arguments : List Expr) :
    Build.args other site index (Expr.mapReferencesIn spell arguments) =
      Build.args program site index arguments := by
  cases arguments with
  | nil => rfl
  | cons first rest =>
    simp only [Expr.mapReferencesIn, Build.args, Build.expr_readsAs reads first,
      Build.args_readsAs reads site (index + 1) rest]
theorem Build.properties_readsAs (reads : program.ReadsAs spell other) (entries : List Property) :
    Build.properties other (Property.mapReferencesIn spell entries) =
      Build.properties program entries := by
  cases entries with
  | nil => rfl
  | cons first rest =>
    obtain ⟨key, value⟩ := first
    simp only [Property.mapReferencesIn, Build.properties, Build.expr_readsAs reads value,
      Build.properties_readsAs reads rest]
end

theorem Build.stmt_readsAs (reads : program.ReadsAs spell other) (function : Option FunctionId)
    (stmt : Stmt) :
    Build.stmt other function (stmt.mapReferences spell) = Build.stmt program function stmt := by
  cases stmt with
  | expr value => simp only [Stmt.mapReferences, Build.stmt, Build.expr_readsAs reads]
  | declare decl initial =>
    cases initial with
    | none => rfl
    | some initial =>
      simp only [Stmt.mapReferences, Option.map_some, Build.stmt, Build.expr_readsAs reads,
        reads.declVertex]
  | result value =>
    cases value with
    | none => rfl
    | some value =>
      simp only [Stmt.mapReferences, Option.map_some, Build.stmt, Build.expr_readsAs reads]

theorem Program.directCallee_ident (program : Program) (node : NodeId) (reference : Reference) :
    program.directCallee (.ident node reference) =
      reference.binding.decl?.elim (.ok none) program.directFunction := by
  obtain ⟨name, scope, binding⟩ := reference
  cases binding <;> rfl

def Program.foreignDecl (program : Program) (current : Option FunctionId) (decl : DeclId) :
    Checked (Option Vertex) := do
  let owner ← program.decl decl >>= fun entry => program.owner entry.scope
  if owner = current then return none else return some (← program.declVertex decl)

theorem Program.foreignSlot_ident (program : Program) (current : Option FunctionId) (node : NodeId)
    (reference : Reference) : program.foreignSlot current (.ident node reference) =
      reference.binding.decl?.elim (.ok none) (program.foreignDecl current) := by
  obtain ⟨name, scope, binding⟩ := reference
  cases binding with
  | unresolved | global => rfl
  | declared decl =>
    simp only [Program.foreignSlot, Binding.decl?, Option.elim, foreignDecl, bind_assoc]

namespace Program.ReadsAs

section

variable (reads : program.ReadsAs spell other)
include reads

theorem bodies : other.bodies =
    program.bodies.map fun entry => (entry.1, entry.2.map (Stmt.mapReferences spell)) := by
  rw [← bodies_mapReferences, Program.bodies, Program.bodies, reads.modules, reads.functions]

theorem exprs :
    other.exprs = program.exprs.map (Expr.mapReferences spell) := by
  rw [← exprs_mapReferences, Program.exprs, Program.exprs, reads.bodies, bodies_mapReferences]

theorem addBodies (graph : FlowGraph) :
    graph.addBodies other = graph.addBodies program := by
  have sameSize : other.functions.size = program.functions.size := by
    rw [reads.functions, mapReferences, Array.size_map]
  simp only [FlowGraph.addBodies, Build.bodies, sameSize, reads.calls, reads.bodies,
    List.forM_eq_forM, List.forM_map, Build.stmt_readsAs reads]

/-! ### Direct calls -/

theorem directCallee (callee : Expr) :
    other.directCallee (callee.mapReferences spell) = program.directCallee callee := by
  cases callee with
  | ident _ reference =>
    rw [Expr.mapReferences, directCallee_ident, directCallee_ident, reads.binding,
      funext reads.directFunction]
  | select _ _ values =>
    cases values with
    | nil => rfl
    | cons value rest =>
      cases rest with
      | nil => exact directCallee value
      | cons => rfl
  | _ => rfl

theorem callExpressions : other.callExpressions =
    program.callExpressions.map fun entry => (entry.1, entry.2.mapReferences spell) := by
  have sameCall (expr : Expr) : (expr.mapReferences spell).asCall? =
      expr.asCall?.map fun entry => (entry.1, entry.2.mapReferences spell) := by
    cases expr <;> rfl
  rw [Program.callExpressions, Program.callExpressions, reads.exprs, List.filterMap_map]
  simp only [Function.comp_def, sameCall, ← List.map_filterMap]
  rw [List.map_mergeSort]
  intros
  rfl

theorem buildDirect (calls : List (CallId × Expr)) :
    Build.direct other (calls.map fun entry => (entry.1, entry.2.mapReferences spell)) =
      Build.direct program calls := by
  induction calls with
  | nil => rfl
  | cons first rest inductionHypothesis =>
    simp only [List.map_cons, Build.direct, reads.directCallee, inductionHypothesis]

theorem direct (natives : NativeTable) :
    Analysis.direct other natives = Analysis.direct program natives := by
  simp only [Analysis.direct, FlowGraph.addDirect, reads.callExpressions, reads.buildDirect]

/-! ### Analyses with flow -/

theorem bodyGraph (natives : NativeTable) :
    Analysis.bodyGraph other natives = Analysis.bodyGraph program natives := by
  simp only [Analysis.bodyGraph, reads.addBodies]

theorem oneShot {natives : NativeTable} {analysis : Analysis}
    (ran : Analysis.oneShot program natives = .ok analysis) :
    Analysis.oneShot other natives = .ok analysis := by
  have within : program.CallsWithin other := by
    intro call site found
    rw [reads.calls, found]
  obtain ⟨⟨graph, events⟩, built, ran⟩ := Checked.bind_eq_ok.mp ran
  obtain ⟨first, started, ran⟩ := Checked.bind_eq_ok.mp ran
  obtain ⟨final, ended, ran⟩ := Checked.bind_eq_ok.mp ran
  have outcome : Propagation.outcome program graph = .ok final :=
    Checked.bind_eq_ok.mpr ⟨first, started, ended⟩
  obtain ⟨outcomeOther, _⟩ := (Propagation.outcome_restricts within graph final).mp outcome
  obtain ⟨firstOther, startedOther, endedOther⟩ := Checked.bind_eq_ok.mp outcomeOther
  rw [Analysis.oneShot, reads.bodyGraph, built, Checked.ok_bind]
  dsimp only
  rw [startedOther, Checked.ok_bind, endedOther]
  exact ran

/-! ### Demand -/

theorem link (graph : FlowGraph) (call : CallId)
    (target : VertexId) : graph.link other call target = graph.link program call target := by
  rw [FlowGraph.link, FlowGraph.link, Program.call, Program.call, reads.calls]

theorem linkFound (linked pairs : List (CallId × VertexId))
    (graph : FlowGraph) :
    Demand.linkFound other linked graph pairs = Demand.linkFound program linked graph pairs := by
  induction pairs generalizing linked graph with
  | nil => rfl
  | cons first rest inductionHypothesis =>
    simp only [Demand.linkFound, reads.link, inductionHypothesis]

theorem round (shared : List VertexId) (depth : Nat)
    (callees : List (CallId × VertexId)) (state : Demand) :
    state.round other shared depth callees = state.round program shared depth callees := by
  simp only [Demand.round, reads.linkFound]

theorem converge (shared : List VertexId) (depth : Nat)
    (callees : List (CallId × VertexId)) (state : Demand) :
    state.converge other shared depth callees = state.converge program shared depth callees := by
  fun_induction Demand.converge program shared depth callees state with
  | case1 state failure failed =>
    rw [Demand.converge_eq, reads.round, failed]
    rfl
  | case2 state later rounded isLast =>
    rw [Demand.converge_eq, reads.round, rounded, Checked.ok_bind, if_pos isLast]
  | case3 state later rounded goesOn inductionHypothesis =>
    rw [Demand.converge_eq, reads.round, rounded, Checked.ok_bind, if_neg goesOn,
      inductionHypothesis]

theorem foreignSlot (current : Option FunctionId)
    (expr : Expr) :
    other.foreignSlot current (expr.mapReferences spell) = program.foreignSlot current expr := by
  cases expr with
  | this _ owner => cases owner <;> rfl
  | ident _ reference =>
    have same : other.foreignDecl current = program.foreignDecl current := by
      funext decl
      rw [foreignDecl, foreignDecl, reads.owner, reads.declVertex]
    rw [Expr.mapReferences, foreignSlot_ident, foreignSlot_ident, reads.binding, same]
  | _ => rfl

theorem sharedSlots (graph : FlowGraph) :
    graph.sharedSlots other = graph.sharedSlots program := by
  have sameExprs (body : List Stmt) : (body.map (Stmt.mapReferences spell)).flatMap Stmt.exprs =
      (body.flatMap Stmt.exprs).map (Expr.mapReferences spell) := by
    simp only [List.flatMap_map, List.map_flatMap, Stmt.exprs_mapReferences]
  simp only [FlowGraph.sharedSlots, reads.bodies, List.mapM_map, sameExprs, Function.comp_def,
    reads.foreignSlot]

theorem demand (natives : NativeTable) (depth : Nat) :
    Analysis.demand other natives depth = Analysis.demand program natives depth := by
  simp only [Analysis.demand, reads.bodyGraph, reads.sharedSlots, reads.calls, reads.converge]

end

end Program.ReadsAs

end

/-! ### Another name -/

namespace Program

section

variable {program : Program} {decl : DeclId} (entry : Declaration) (fresh : String)
  (replace : Reference → Reference)

theorem decl_withName (id : DeclId) : (program.withName replace decl entry fresh).decl id =
    (fun found => if decl = id then found.withName fresh else found) <$> program.decl id :=
  fetch_modify ..

theorem scope_withName (id : ScopeId) : (program.withName replace decl entry fresh).scope id =
    (fun found => if entry.scope = id then found.withName entry.name fresh decl else found) <$>
      program.scope id :=
  fetch_modify ..

theorem isGlobal_withName (id : DeclId) :
    (program.withName replace decl entry fresh).isGlobal id = program.isGlobal id := by
  simp only [isGlobal, decl_withName, scope_withName, bind_map_left, apply_ite Declaration.kind,
    apply_ite Declaration.scope, apply_ite Scope.kind, Declaration.withName, Scope.withName,
    ite_self]

theorem directFunction_withName (id : DeclId) :
    (program.withName replace decl entry fresh).directFunction id = program.directFunction id := by
  simp only [directFunction, decl_withName, bind_map_left, apply_ite Declaration.kind,
    apply_ite Declaration.writes, apply_ite Declaration.functionValue, Declaration.withName,
    ite_self]

theorem functionOfScope?_withName (id : ScopeId) :
    (program.withName replace decl entry fresh).functionOfScope? id =
      program.functionOfScope? id := by
  simp only [functionOfScope?, withName, mapReferences, Array.toList_map, List.zipIdx_map,
    ← List.map_reverse, List.find?_map, Option.map_map]
  rfl

theorem owner_withName (id : ScopeId) :
    (program.withName replace decl entry fresh).owner id = program.owner id := by
  have within (steps : Nat) : (program.withName replace decl entry fresh).ownerWithin steps id =
      program.ownerWithin steps id := by
    induction steps generalizing id with
    | zero => rfl
    | succ steps inductionHypothesis =>
      simp only [ownerWithin, functionOfScope?_withName, scope_withName, bind_map_left,
        apply_ite Scope.parent, Scope.withName, ite_self, inductionHypothesis]
  rw [owner, owner, size_scopes_withName, within]

theorem declVertex_withName (isLocal : program.isGlobal decl = .ok false) (id : DeclId) :
    (program.withName replace decl entry fresh).declVertex id = program.declVertex id := by
  simp only [declVertex, decl_withName, bind_map_left, isGlobal_withName,
    apply_ite Declaration.kind, apply_ite Declaration.name, Declaration.withName, ite_self]
  by_cases isDecl : decl = id
  · subst isDecl
    simp only [isLocal, Checked.ok_bind]
    rfl
  · simp only [if_neg isDecl]

theorem readsAs_withName (isLocal : program.isGlobal decl = .ok false) :
    program.ReadsAs (Reference.withName decl fresh)
      (program.withName (Reference.withName decl fresh) decl entry fresh) where
  modules := rfl
  functions := rfl
  calls := rfl
  binding := Reference.binding_withName decl fresh
  name := by
    intro reference notDeclared
    rw [Reference.withName, if_neg]
    intro isDecl
    rw [isDecl] at notDeclared
    cases notDeclared
  declVertex := declVertex_withName entry fresh _ isLocal
  directFunction := directFunction_withName entry fresh _
  owner := by
    intro id
    simp only [decl_withName, bind_map_left, owner_withName, apply_ite Declaration.scope,
      Declaration.withName, ite_self]

end

end Program

/-- A local declaration of a lowered program may have any name that occurs nowhere else. Binding
succeeds under either name, and every analysis ends with the same result. -/
theorem local_names_irrelevant (files : List SourceFile) {program : Program}
    (added : ({} : Program).addSources files = .ok program) {decl : DeclId}
    (isLocal : program.isGlobal decl = .ok false) {fresh : String}
    (unused : program.Unused fresh) :
    ∃ bound renamed, program.bind = .ok bound ∧ (program.renameLocal decl fresh).bind = .ok renamed ∧
      ∀ natives : NativeTable,
        (∃ analysis, Analysis.direct bound.program natives = .ok analysis ∧
          Analysis.direct renamed.program natives = .ok analysis) ∧
        (∃ analysis, Analysis.oneShot bound.program natives = .ok analysis ∧
          Analysis.oneShot renamed.program natives = .ok analysis) ∧
        ∀ depth, ∃ analysis, Analysis.demand bound.program natives depth = .ok analysis ∧
          Analysis.demand renamed.program natives depth = .ok analysis := by
  have lowered := Program.lowered_of_addSources added
  have formed := Program.addSources_run Program.Formed
    (fun _ lowered formed derived => formed.addTop lowered.inRange derived) Program.formed_empty
    added
  obtain ⟨entry, isEntry, _⟩ := Checked.bind_eq_ok.mp isLocal
  have found := fetch_eq_ok.mp isEntry
  have below := Table.below found
  have bindable := lowered.inRange.bindable
  have isRenamed : program.renameLocal decl fresh =
      program.withName (program.respell decl fresh) decl entry fresh := by
    rw [Program.renameLocal, found]
  have parents := lowered.parentsFirst
  obtain ⟨bound, ran, isBound⟩ := bindable.bind_eq parents
  obtain ⟨renamed, ranRenamed, isBoundRenamed⟩ :=
    (bindable.respelled below entry fresh).bind_eq (parents.withName _ decl entry fresh)
  refine ⟨bound, renamed, ran, isRenamed ▸ ranRenamed, fun natives => ?_⟩
  have inRange := lowered.inRange.bound lowered.unwritten
  have reads := Program.readsAs_withName entry fresh
    ((program.isGlobal_bound decl).trans isLocal)
  rw [isBound, isBoundRenamed,
    Program.bound_withName found formed.namesMatch unused bindable parents]
  refine ⟨?_, ?_, fun depth => ?_⟩
  · obtain ⟨analysis, analysed, _⟩ := Analysis.direct_eq inRange.tellsDirect natives
    exact ⟨analysis, analysed, (reads.direct natives).trans analysed⟩
  · obtain ⟨_, _, _, analysis, _, _, _, analysed, _⟩ := Analysis.oneShot_solved inRange natives
    exact ⟨analysis, analysed, reads.oneShot analysed⟩
  · have boundParents : program.bound.ParentsFirst := parents
    obtain ⟨analysis, analysed⟩ :=
      Analysis.demand_ends inRange (inRange.slotsKnown boundParents) natives depth
    exact ⟨analysis, analysed, (reads.demand natives depth).trans analysed⟩

/-- A file with a function that calls a local function, which has the name of a global one. -/
def shadowed : SourceFile where
  path := "a.js"
  text := "function g() {} function f() { function g() {} g(); }"
  tree := {
    hasErrors := false
    root :=
      .rule "program" 0 53 [] [
        .rule "function_declaration" 0 15 ["name", "parameters", "body"] [
          .rule "identifier" 9 10 [] [],
          .rule "formal_parameters" 10 12 [] [],
          .rule "statement_block" 13 15 [] []],
        .rule "function_declaration" 16 53 ["name", "parameters", "body"] [
          .rule "identifier" 25 26 [] [],
          .rule "formal_parameters" 26 28 [] [],
          .rule "statement_block" 29 53 [] [
            .rule "function_declaration" 31 46 ["name", "parameters", "body"] [
              .rule "identifier" 40 41 [] [],
              .rule "formal_parameters" 41 43 [] [],
              .rule "statement_block" 44 46 [] []],
            .rule "expression_statement" 47 51 [] [
              .rule "call_expression" 47 50 ["function", "arguments"] [
                .rule "identifier" 47 48 [] [],
                .rule "arguments" 48 50 [] []]]]]] }

/-- The local function gets a name of its own, and so does the reference to it. The call is resolved
to it as before. -/
theorem local_names_irrelevant_shadowed :
    ∃ program bound renamed, ({} : Program).addSources [shadowed] = .ok program ∧
      program.isGlobal 1 = .ok false ∧ program.Unused "h" ∧
      program.bind = .ok bound ∧ (program.renameLocal 1 "h").bind = .ok renamed ∧
      bound.program.references.map Reference.name = ["g"] ∧
      renamed.program.references.map Reference.name = ["h"] ∧
      (∃ analysis, Analysis.direct bound.program .empty = .ok analysis ∧
        Analysis.direct renamed.program .empty = .ok analysis ∧
        analysis.callGraph.pairs = [(.callee 0, .function 2)]) ∧
      (∃ analysis, Analysis.oneShot bound.program .empty = .ok analysis ∧
        Analysis.oneShot renamed.program .empty = .ok analysis) ∧
      ∀ depth, ∃ analysis, Analysis.demand bound.program .empty depth = .ok analysis ∧
        Analysis.demand renamed.program .empty depth = .ok analysis := by
  have hypotheses : (({} : Program).addSources [shadowed]).toOption.map (fun program =>
      ((program.isGlobal 1).toOption, decide (program.Unused "h"))) = some (some false, true) := by
    decide +kernel
  have outcome : (({} : Program).addSources [shadowed]).toOption.bind (fun program =>
      program.bind.toOption.bind fun bound =>
        (Analysis.direct bound.program .empty).toOption.map fun analysis =>
          (bound.program.references.map Reference.name, analysis.callGraph.pairs)) =
      some (["g"], [(.callee 0, .function 2)]) := by
    decide +kernel
  have respelled : (({} : Program).addSources [shadowed]).toOption.bind (fun program =>
      (program.renameLocal 1 "h").bind.toOption.map fun renamed =>
        renamed.program.references.map Reference.name) = some ["h"] := by
    decide +kernel
  cases added : ({} : Program).addSources [shadowed] with
  | error failure =>
    rw [added] at hypotheses
    cases hypotheses
  | ok program =>
    rw [added] at hypotheses outcome respelled
    obtain ⟨isFalse, isUnused⟩ := Prod.mk.inj (Option.some.inj hypotheses)
    have isLocal : program.isGlobal 1 = .ok false := Checked.toOption_eq_some.mp isFalse
    have unused : program.Unused "h" := of_decide_eq_true isUnused
    obtain ⟨bound, renamed, ran, ranRenamed, same⟩ :=
      local_names_irrelevant [shadowed] added isLocal unused
    obtain ⟨⟨analysis, analysed, analysedRenamed⟩, oneShot, demand⟩ := same .empty
    simp only [Checked.toOption_ok, Option.bind_some, Option.map_some, Option.some.injEq, ran,
      analysed, Prod.mk.injEq] at outcome
    simp only [Checked.toOption_ok, Option.bind_some, Option.map_some, Option.some.injEq,
      ranRenamed] at respelled
    exact ⟨program, bound, renamed, rfl, isLocal, unused, ran, ranRenamed, outcome.1, respelled,
      ⟨analysis, analysed, analysedRenamed, outcome.2⟩, oneShot, demand⟩

end FunctionFlow
