import FunctionFlow.Proofs.Analysis.Rounds
import FunctionFlow.Proofs.Flow.Heads
import FunctionFlow.Proofs.Program.Scope

/-!
Contract: the demand-driven analysis of a program.
-/

namespace FunctionFlow

variable {program : Program}

/-! ### Preparations -/

namespace Program

theorem ParentsFirst.ownerWithin_ok (parents : program.ParentsFirst) {steps : Nat}
    {scope : ScopeId} (below : scope < program.scopes.size) (enough : scope < steps) :
    ∃ owner, program.ownerWithin steps scope = .ok owner := by
  induction steps generalizing scope with
  | zero => cases enough
  | succ steps inductionHypothesis =>
    unfold ownerWithin
    cases program.functionOfScope? scope with
    | some function => exact ⟨some function, rfl⟩
    | none =>
      have isEntry := Array.getElem?_eq_getElem below
      rw [Program.scope, fetch_eq_ok.mpr isEntry, Checked.ok_bind]
      cases isParent : program.scopes[scope].parent with
      | none => exact ⟨none, rfl⟩
      | some parent =>
        have closer : parent < scope := parents scope _ isEntry parent isParent
        exact inductionHypothesis (Nat.lt_trans closer below)
          (Nat.lt_of_lt_of_le closer (Nat.le_of_lt_succ enough))

theorem ParentsFirst.owner_ok (parents : program.ParentsFirst) {scope : ScopeId}
    (below : scope < program.scopes.size) : ∃ owner, program.owner scope = .ok owner :=
  parents.ownerWithin_ok below (Nat.lt_succ_of_lt below)

section

variable (inRange : program.InRange) (current : Option FunctionId) (node : NodeId)
  (name : String) (scope : ScopeId) {id : DeclId}
include inRange

theorem InRange.foreignSlot_eq {decl : Declaration} {owner : Option FunctionId}
    (found : program.decls[id]? = some decl) (owned : program.owner decl.scope = .ok owner) :
    program.foreignSlot current (.ident node ⟨name, scope, .declared id⟩) =
      .ok (if owner = current then none else some (.slot (program.slotOf id))) := by
  have isDecl : program.decl id = .ok decl := fetch_eq_ok.mpr found
  rw [foreignSlot, isDecl, Checked.ok_bind, owned, Checked.ok_bind]
  split
  · rfl
  · rw [inRange.declVertex_eq (Table.below found)]
    rfl

theorem InRange.foreignSlot_declared {answer : Option Vertex}
    (answered : program.foreignSlot current (.ident node ⟨name, scope, .declared id⟩) =
      .ok answer) :
    ∃ decl owner, program.decls[id]? = some decl ∧ program.owner decl.scope = .ok owner ∧
      answer = if owner = current then none else some (.slot (program.slotOf id)) := by
  obtain ⟨decl, isDecl, further⟩ := Checked.bind_eq_ok.mp answered
  obtain ⟨owner, owned, _⟩ := Checked.bind_eq_ok.mp further
  have found := fetch_eq_ok.mp isDecl
  have same := inRange.foreignSlot_eq current node name scope found owned
  exact ⟨decl, owner, found, owned, Except.ok.inj (answered.symm.trans same)⟩

end

theorem InRange.foreignSlot_ok (inRange : program.InRange) (parents : program.ParentsFirst)
    (current : Option FunctionId) {expr : Expr} (head : expr.HeadInRange program.sizes) :
    ∃ slot, program.foreignSlot current expr = .ok slot := by
  cases expr with
  | ident node reference =>
    obtain ⟨name, scope, binding⟩ := reference
    cases binding with
    | declared id =>
      obtain ⟨decl, found, declInRange⟩ := inRange.decl_of_lt head.2
      obtain ⟨owner, owned⟩ := parents.owner_ok declInRange.scope
      exact ⟨_, inRange.foreignSlot_eq current node name scope (fetch_eq_ok.mp found) owned⟩
    | global | unresolved => exact ⟨none, rfl⟩
  | this _ receiver => cases receiver <;> exact ⟨_, rfl⟩
  | _ => exact ⟨none, rfl⟩

def SlotsKnown (program : Program) : Prop :=
  ∀ owner expr, program.BodyHas owner expr → ∃ slot, program.foreignSlot owner expr = .ok slot

theorem InRange.slotsKnown (inRange : program.InRange) (parents : program.ParentsFirst) :
    program.SlotsKnown := fun owner _ has =>
  inRange.foreignSlot_ok parents owner (inRange.head (mem_exprs.mpr ⟨owner, has⟩))

theorem SlotsKnown.sharedSlots_eq (known : program.SlotsKnown) (graph : FlowGraph) :
    ∃ shared, graph.sharedSlots program = .ok shared ∧ ∀ id, id ∈ shared ↔
      ∃ owner expr vertex, program.BodyHas owner expr ∧
        program.foreignSlot owner expr = .ok (some vertex) ∧ graph.lookup vertex = some id := by
  have eachBody : ∀ item ∈ program.bodies, ∃ slots,
      (item.2.flatMap Stmt.exprs).mapM (program.foreignSlot item.1) = .ok slots ∧
      ∀ slot, slot ∈ slots ↔
        ∃ expr ∈ item.2.flatMap Stmt.exprs, program.foreignSlot item.1 expr = .ok slot := by
    intro item isBody
    apply Checked.mapM_eq_ok
    intro expr member
    obtain ⟨stmt, inBody, inStmt⟩ := List.mem_flatMap.mp member
    exact known item.1 expr ⟨item.2, stmt, isBody, inBody, inStmt⟩
  obtain ⟨slots, computed, mem_slots⟩ := Checked.mapM_eq_ok fun item isBody =>
    (eachBody item isBody).imp fun _ found => found.1
  have mem_flatten {slot : Option Vertex} : slot ∈ slots.flatten ↔
      ∃ owner expr, program.BodyHas owner expr ∧ program.foreignSlot owner expr = .ok slot := by
    rw [List.mem_flatten]
    constructor
    · rintro ⟨here, isResult, member⟩
      obtain ⟨item, isBody, ran⟩ := (mem_slots here).mp isResult
      obtain ⟨_, ranToo, mem_here⟩ := eachBody item isBody
      cases ran.symm.trans ranToo
      obtain ⟨expr, inside, found⟩ := (mem_here slot).mp member
      obtain ⟨stmt, inBody, inStmt⟩ := List.mem_flatMap.mp inside
      exact ⟨item.1, expr, ⟨item.2, stmt, isBody, inBody, inStmt⟩, found⟩
    · rintro ⟨owner, expr, ⟨body, stmt, isBody, inBody, inStmt⟩, found⟩
      obtain ⟨here, ran, mem_here⟩ := eachBody (owner, body) isBody
      exact ⟨here, (mem_slots here).mpr ⟨_, isBody, ran⟩,
        (mem_here slot).mpr ⟨expr, List.mem_flatMap.mpr ⟨stmt, inBody, inStmt⟩, found⟩⟩
  refine ⟨insertIds ((slots.flatten.filterMap id).filterMap graph.lookup) [], ?_,
    fun vertexId => ?_⟩
  · exact congrArg
      (· >>= fun slots => pure (insertIds ((slots.flatten.filterMap id).filterMap graph.lookup) []))
      computed
  · simp only [mem_insertIds, List.mem_filterMap, mem_flatten, id, List.not_mem_nil, or_false]
    constructor
    · rintro ⟨vertex, ⟨_, ⟨owner, expr, has, found⟩, rfl⟩, looked⟩
      exact ⟨owner, expr, vertex, has, found, looked⟩
    · rintro ⟨owner, expr, vertex, has, found, looked⟩
      exact ⟨vertex, ⟨_, ⟨owner, expr, has, found⟩, rfl⟩, looked⟩

theorem slotsKnown_of_sharedSlots {graph : FlowGraph} {shared : List VertexId}
    (isShared : graph.sharedSlots program = .ok shared) : program.SlotsKnown := by
  rintro owner expr ⟨body, stmt, isBody, inBody, inStmt⟩
  obtain ⟨slots, computed, _⟩ := Checked.bind_eq_ok.mp isShared
  obtain ⟨_, here⟩ := Checked.total_of_mapM computed (owner, body) isBody
  exact Checked.total_of_mapM here expr (List.mem_flatMap.mpr ⟨stmt, inBody, inStmt⟩)

theorem mem_sharedSlots {graph : FlowGraph} {shared : List VertexId}
    (isShared : graph.sharedSlots program = .ok shared) {id : VertexId} :
    id ∈ shared ↔ ∃ owner expr vertex, program.BodyHas owner expr ∧
      program.foreignSlot owner expr = .ok (some vertex) ∧ graph.lookup vertex = some id := by
  obtain ⟨_, isSharedToo, mem_shared⟩ := (slotsKnown_of_sharedSlots isShared).sharedSlots_eq graph
  cases isShared.symm.trans isSharedToo
  exact mem_shared id

end Program

theorem Analysis.calleeVertices_eq {graph : FlowGraph} (wellFormed : graph.WellFormed)
    {calls : List CallId} (present : ∀ call ∈ calls, .callee call ∈ graph.vertices) :
    ∃ callees, (calleeVertices calls).run graph = .ok (callees, graph) ∧
      ∀ call callee, (call, callee) ∈ callees ↔ call ∈ calls ∧ graph.At callee (.callee call) := by
  induction calls with
  | nil => exact ⟨[], rfl, by simp⟩
  | cons first rest inductionHypothesis =>
    obtain ⟨id, atFirst⟩ := FlowGraph.exists_at_of_mem (present first List.mem_cons_self)
    obtain ⟨callees, ran, mem_callees⟩ := inductionHypothesis fun call member =>
      present call (List.mem_cons_of_mem _ member)
    have looked : (Build.vertex (.callee first)).run graph = .ok (id, graph) := by
      change Except.ok (graph.intern (.callee first)) = _
      rw [FlowGraph.intern, wellFormed.lookup_eq_some.mpr atFirst]
    refine ⟨(first, id) :: callees, ?_, fun call callee => ?_⟩
    · simp only [calleeVertices, StateT.run_bind, looked, Checked.ok_bind, ran]
      rfl
    · rw [List.mem_cons, mem_callees, List.mem_cons, Prod.mk.injEq]
      constructor
      · rintro (⟨rfl, rfl⟩ | ⟨member, atCallee⟩)
        · exact ⟨.inl rfl, atFirst⟩
        · exact ⟨.inr member, atCallee⟩
      · rintro ⟨rfl | member, atCallee⟩
        · exact .inl ⟨rfl, wellFormed.id_unique atCallee atFirst⟩
        · exact .inr ⟨member, atCallee⟩

/-! ### The analysis -/

namespace Demand

def first (graph : FlowGraph) : Demand where
  graph := graph
  linked := []
  added := []
  resolved := []

theorem first_bounded {graph : FlowGraph} (wellFormed : graph.WellFormed)
    (shared : List VertexId) (depth : Nat) : (first graph).Bounded program shared depth graph where
  wellFormed := wellFormed
  vertices := rfl
  edges := id
  present := by simp [first]
  least := fun _ _ within _ => within

end Demand

/-- The graph of a program before the first round, with the vertices of its callees. -/
structure Analysis.Prepared (program : Program) (natives : NativeTable) (initial : FlowGraph)
    (events : List Event) (callees : List (CallId × VertexId)) : Prop where
  built : bodyGraph program natives = .ok (initial, events)
  looked : (calleeVertices (List.range program.calls.size)).run initial = .ok (callees, initial)
  represents : initial.Represents program natives
  mem_callees : ∀ call callee, (call, callee) ∈ callees ↔ initial.At callee (.callee call)

theorem Analysis.exists_prepared (inRange : program.InRange) (natives : NativeTable) :
    ∃ initial events callees, Prepared program natives initial events callees := by
  obtain ⟨initial, events, built, represents⟩ := bodyGraph_represents inRange natives
  have present : ∀ call ∈ List.range program.calls.size, .callee call ∈ initial.vertices :=
    fun call member => represents.callee_iff.mpr (List.mem_range.mp member)
  obtain ⟨callees, looked, mem_callees⟩ := calleeVertices_eq represents.wellFormed present
  refine ⟨initial, events, callees, built, looked, represents, fun call callee => ?_⟩
  rw [mem_callees]
  refine and_iff_right_of_imp fun atCallee => ?_
  exact List.mem_range.mpr (represents.callee_iff.mp atCallee.mem)

/-- The rounds of the demand-driven analysis of a program in range. -/
structure Analysis.DemandRun (program : Program) (natives : NativeTable) (depth : Nat)
    (initial : FlowGraph) (shared : List VertexId) (callees : List (CallId × VertexId))
    (final : Demand) (analysis : Analysis) : Prop where
  represents : initial.Represents program natives
  sharedSlots : initial.sharedSlots program = .ok shared
  mem_callees : ∀ call callee, (call, callee) ∈ callees ↔ initial.At callee (.callee call)
  converge : (Demand.first initial).converge program shared depth callees = .ok final
  converged : final.Converged program shared depth callees initial
  rounds : final.added.length ≤ 1 + (final.graph.edgeCount - initial.edgeCount)
  demand : Analysis.demand program natives depth = .ok analysis
  flow : analysis.flow = final.graph
  callGraph : final.callGraph = .ok analysis.callGraph

theorem FlowGraph.Represents.calleesOf {natives : NativeTable} {initial : FlowGraph}
    {callees : List (CallId × VertexId)} (represents : initial.Represents program natives)
    (mem_callees : ∀ call callee, (call, callee) ∈ callees ↔ initial.At callee (.callee call)) :
    Demand.CalleesOf program initial callees := by
  intro call callee member
  have atCallee := (mem_callees call callee).mp member
  exact ⟨atCallee, represents.callee_iff.mp atCallee.mem⟩

theorem Analysis.Prepared.exists_demandRun {natives : NativeTable} {initial : FlowGraph}
    {events : List Event} {callees : List (CallId × VertexId)}
    (prepared : Prepared program natives initial events callees) {shared : List VertexId}
    (isShared : initial.sharedSlots program = .ok shared) (depth : Nat) :
    ∃ final analysis, DemandRun program natives depth initial shared callees final analysis := by
  obtain ⟨built, looked, represents, mem_callees⟩ := prepared
  obtain ⟨final, ran, converged, rounds⟩ := Demand.convergeIn_converged
    (represents.calleesOf mem_callees) (fun _ => List.Perm.refl callees)
    (Demand.first_bounded represents.wellFormed shared depth)
  rw [Demand.convergeIn_const] at ran
  obtain ⟨calls, computed, _, _⟩ := converged.callGraph_eq
  have reported : ∃ reports, demand program natives depth = .ok ⟨final.graph, calls, reports⟩ := by
    have ran' : Demand.converge program shared depth callees
        { graph := initial, linked := [], added := [], resolved := [] } = .ok final := ran
    simp only [demand, built, Checked.ok_bind, isShared, looked, ran', computed]
    exact ⟨_, rfl⟩
  obtain ⟨reports, analysed⟩ := reported
  refine ⟨final, ⟨final.graph, calls, reports⟩, represents, isShared, mem_callees, ran, converged,
    ?_, analysed, rfl, computed⟩
  have kept : initial.edgeCount + final.added.length ≤ 1 + final.graph.edgeCount := by
    simpa [Demand.first, Nat.add_comm] using rounds
  omega

theorem Analysis.demandRun_of_slotsKnown (inRange : program.InRange) (known : program.SlotsKnown)
    (natives : NativeTable) (depth : Nat) :
    ∃ initial events shared callees final analysis,
      bodyGraph program natives = .ok (initial, events) ∧
      DemandRun program natives depth initial shared callees final analysis := by
  obtain ⟨initial, events, callees, prepared⟩ := exists_prepared inRange natives
  obtain ⟨shared, isShared, _⟩ := known.sharedSlots_eq initial
  obtain ⟨final, analysis, run⟩ := prepared.exists_demandRun isShared depth
  exact ⟨initial, events, shared, callees, final, analysis, prepared.built, run⟩

theorem Analysis.demand_converged (inRange : program.InRange) (parents : program.ParentsFirst)
    (natives : NativeTable) (depth : Nat) :
    ∃ initial events shared callees final analysis,
      bodyGraph program natives = .ok (initial, events) ∧
      DemandRun program natives depth initial shared callees final analysis :=
  demandRun_of_slotsKnown inRange (inRange.slotsKnown parents) natives depth

theorem Analysis.slotsKnown_of_demand {natives : NativeTable} {depth : Nat} {analysis : Analysis}
    (ran : demand program natives depth = .ok analysis) : program.SlotsKnown := by
  obtain ⟨_, _, further⟩ := Checked.bind_eq_ok.mp ran
  obtain ⟨_, isShared, _⟩ := Checked.bind_eq_ok.mp further
  exact Program.slotsKnown_of_sharedSlots isShared

theorem Analysis.demandRun_of_demand (inRange : program.InRange) {natives : NativeTable}
    {depth : Nat} {analysis : Analysis} (ran : demand program natives depth = .ok analysis) :
    ∃ initial events shared callees final, bodyGraph program natives = .ok (initial, events) ∧
      DemandRun program natives depth initial shared callees final analysis := by
  obtain ⟨initial, events, shared, callees, final, _, built, run⟩ :=
    demandRun_of_slotsKnown inRange (slotsKnown_of_demand ran) natives depth
  cases ran.symm.trans run.demand
  exact ⟨initial, events, shared, callees, final, built, run⟩

theorem Analysis.demand_ends (inRange : program.InRange) (known : program.SlotsKnown)
    (natives : NativeTable) (depth : Nat) :
    ∃ analysis, demand program natives depth = .ok analysis := by
  obtain ⟨_, _, _, _, _, analysis, _, run⟩ := demandRun_of_slotsKnown inRange known natives depth
  exact ⟨analysis, run.demand⟩

theorem Analysis.demand_fails (unknown : ¬ program.SlotsKnown) (natives : NativeTable)
    (depth : Nat) : ∃ failure, demand program natives depth = .error failure := by
  cases ran : demand program natives depth with
  | ok analysis => exact absurd (slotsKnown_of_demand ran) unknown
  | error failure => exact ⟨failure, rfl⟩

/-- The smallest graph above `initial` in which every call is linked to what its query finds. -/
structure FlowGraph.LeastLinked (program : Program) (shared : List VertexId) (depth : Nat)
    (initial graph : FlowGraph) : Prop where
  wellFormed : graph.WellFormed
  within : initial.Within graph
  linksFound : graph.LinksFound program shared depth
  least : ∀ large : FlowGraph, large.WellFormed → initial.Within large →
    large.LinksFound program shared depth → graph.Within large

namespace Analysis.DemandRun

variable {natives : NativeTable} {depth : Nat} {initial : FlowGraph} {shared : List VertexId}
  {callees : List (CallId × VertexId)} {final : Demand} {analysis : Analysis}
  (run : DemandRun program natives depth initial shared callees final analysis)
include run

theorem leastLinked : initial.LeastLinked program shared depth final.graph where
  wellFormed := run.converged.bounded.wellFormed
  within := run.converged.bounded.within
  linksFound := run.converged.linksFound fun call callee => (run.mem_callees call callee).mpr
  least := run.converged.bounded.least

theorem increasing : analysis.callGraph.Increasing := by
  obtain ⟨_, computed, increasing, _⟩ := run.converged.callGraph_eq
  cases run.callGraph.symm.trans computed
  exact increasing

theorem mem_pairs {pair : Vertex × Vertex} :
    pair ∈ analysis.callGraph.pairs ↔ ∃ call callee target, pair.1 = .callee call ∧
      initial.At callee (.callee call) ∧ Query.Finds final.graph depth shared callee target ∧
      initial.At target pair.2 := by
  obtain ⟨calls, computed, _, mem_calls⟩ := run.converged.callGraph_eq
  cases run.callGraph.symm.trans computed
  simp only [mem_calls, run.mem_callees, run.converged.bounded.at_iff]

theorem order_irrelevant {orders : Nat → List (CallId × VertexId)}
    (sameCalls : ∀ n, (orders n).Perm callees) :
    ∃ other, (Demand.first initial).convergeIn program shared depth orders = .ok other ∧
      (∀ edge, edge ∈ other.graph.edges ↔ edge ∈ final.graph.edges) ∧
      other.callGraph = .ok analysis.callGraph := by
  obtain ⟨other, ran, otherConverged, _⟩ := Demand.convergeIn_converged
    (run.represents.calleesOf run.mem_callees) sameCalls
    (Demand.first_bounded run.represents.wellFormed shared depth)
  obtain ⟨sameEdges, sameCallGraph⟩ := run.converged.unique
    (fun call callee => (run.mem_callees call callee).mpr) otherConverged
  exact ⟨other, ran, sameEdges, sameCallGraph.trans run.callGraph⟩

end Analysis.DemandRun

/-- A function literal that is called where it stands, with another one, which it calls. -/
def callback : Program where
  files := #["a.js"]
  functions := #[
    { (default : FunctionDef) with
      params := [some 0]
      scope := 1
      body := [.expr (.call 3 1 (.ident 4 ⟨"f", 1, .declared 0⟩) [])] },
    { (default : FunctionDef) with id := 1, scope := 2 }]
  calls := #[
    { (default : CallSite) with arity := 1 },
    { (default : CallSite) with id := 1, enclosing := some 0 }]
  decls := #[{ (default : Declaration) with name := "f", kind := .parameter 0 1, scope := 1 }]
  scopes := #[
    { kind := .file, parent := none, names := .empty },
    { id := 1, kind := .function, parent := some 0, names := ⟨[("f", 0)]⟩ },
    { id := 2, kind := .function, parent := some 0, names := .empty }]
  modules := #[{
    file := 0
    scope := 0
    body := [.expr (.call 0 0 (.function 1 0) [.function 2 1])] }]
  nextNode := 5

theorem callback_bodies : callback.bodies = [
    (none, [.expr (.call 0 0 (.function 1 0) [.function 2 1])]),
    (some 0, [.expr (.call 3 1 (.ident 4 ⟨"f", 1, .declared 0⟩) [])]), (some 1, [])] := rfl

theorem callback_exprs : callback.exprs = [
    .call 0 0 (.function 1 0) [.function 2 1], .function 1 0, .function 2 1,
    .call 3 1 (.ident 4 ⟨"f", 1, .declared 0⟩) [], .ident 4 ⟨"f", 1, .declared 0⟩] := rfl

namespace FlowGraph.Represents

variable {natives : NativeTable} {initial : FlowGraph}
  (represents : initial.Represents callback natives)
include represents

theorem arrow_callback : initial.Arrow (.function 0) (.callee 0) ∧
    initial.Arrow (.function 1) (.slot (.arg 0 1)) ∧
    initial.Arrow (.slot (.param 0 1)) (.callee 1) := by
  have passes : .call 0 0 (.function 1 0) [.function 2 1] ∈ callback.exprs := by
    rw [callback_exprs]
    exact List.mem_cons_self
  have calls : .call 3 1 (.ident 4 ⟨"f", 1, .declared 0⟩) [] ∈ callback.exprs := by
    rw [callback_exprs]
    exact List.mem_append_right [_, _, _] List.mem_cons_self
  exact ⟨(represents.into (.callee passes) rfl).resolve_left (by simp),
    (represents.into (.argument passes rfl) rfl).resolve_left (by simp),
    (represents.into (.callee calls) rfl).resolve_left (by simp)⟩

theorem not_arrow_callback : ¬ initial.Arrow (.slot (.arg 0 1)) (.slot (.param 0 1)) := by
  intro arrow
  rcases represents.arrow_cases arrow with ⟨_, _, same, _⟩ | ⟨expr, into, held⟩
  · cases same
  generalize isTarget : Vertex.slot (.param 0 1) = target at into
  cases into with
  | assigned member =>
    rw [callback_exprs] at member
    simp at member
  | declared isBody inside =>
    simp only [callback_bodies, List.mem_cons, Prod.mk.injEq, List.not_mem_nil, or_false] at isBody
    rcases isBody with ⟨_, rfl⟩ | ⟨_, rfl⟩ | ⟨_, rfl⟩ <;> simp at inside
  | _ => cases isTarget

end FlowGraph.Represents

/-- The call in the literal is found to call the other literal, by way of an edge that a round
adds. -/
theorem FlowGraph.LeastLinked.callback {natives : NativeTable} {initial graph : FlowGraph}
    {shared : List VertexId} {depth : Nat}
    (least : initial.LeastLinked callback shared depth graph)
    (represents : initial.Represents callback natives) :
    graph.Arrow (.slot (.arg 0 1)) (.slot (.param 0 1)) ∧ ∃ callee value,
      initial.At callee (.callee 1) ∧ initial.At value (.function 1) ∧
      Query.Finds graph depth shared callee value := by
  obtain ⟨⟨literal, outer, atLiteral, atOuter, calledEdge⟩, ⟨value, argument, atValue, atArgument,
    passedEdge⟩, ⟨param, callee, atParam, atCallee, readEdge⟩⟩ := represents.arrow_callback
  have kept {id : VertexId} {vertex : Vertex} : initial.At id vertex → graph.At id vertex :=
    least.within.kept
  have findsOuter : Query.Finds graph depth shared outer literal :=
    ⟨⟨outer, []⟩, .start, least.within.edges calledEdge, _, kept atLiteral, rfl⟩
  have linked : (argument, param) ∈ graph.edges :=
    least.linksFound.edge least.wellFormed (kept atOuter) findsOuter
      ⟨0, _, _, _, kept atLiteral, rfl, by decide, kept atArgument, kept atParam⟩
  -- no call is pending at the callee, and none becomes so on the way back to the argument
  have toParam : Query.Crosses graph depth shared ⟨callee, []⟩ ⟨param, []⟩ := by
    refine .cross (least.within.edges readEdge) (kept atParam) (kept atCallee) rfl ?_
    unfold Query.stepBack
    split <;> rfl
  have toArgument : Query.Crosses graph depth shared ⟨param, []⟩ ⟨argument, []⟩ := by
    refine .cross linked (kept atArgument) (kept atParam) rfl ?_
    unfold Query.stepBack
    split <;> rfl
  exact ⟨⟨argument, param, kept atArgument, kept atParam, linked⟩, callee, value, atCallee,
    atValue, ⟨argument, []⟩, .step (.step .start toParam) toArgument,
    least.within.edges passedEdge, _, kept atValue, rfl⟩

end FunctionFlow
