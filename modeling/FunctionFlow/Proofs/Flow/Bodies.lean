import FunctionFlow.Flow.Body
import FunctionFlow.Proofs.Flow.Growth
import FunctionFlow.Proofs.Program.InRange
import Mathlib.Data.List.Forall2

/-!
Contract: the flow of bodies, read off the syntax.

The growth of an expression is defined by recursion on the expression and mentions no graph.
-/

namespace FunctionFlow

variable {id : DeclId}

/-- The slot in which the value of a declaration lives. -/
def Program.slotOf (program : Program) (id : DeclId) : Slot :=
  match program.declVertex id with
  | .ok (.slot slot) => slot
  | _ => .declared id

/-- The slot that a reference reads or writes. -/
def Reference.slot (program : Program) (reference : Reference) : Slot :=
  match reference.binding with
  | .declared decl => program.slotOf decl
  | .global | .unresolved => .named reference.name

/-- Whether the object of a called property becomes the receiver of the call. -/
def Program.passesReceiver (program : Program) (site : CallId) : Bool :=
  program.calls[site]?.any (·.hasReceiver)

namespace Growth

/-- The vertex at which several vertices meet. -/
def meeting (node : NodeId) : List Vertex → Option Vertex
  | [] => none
  | [single] => some single
  | _ :: _ :: _ => some (.slot (.merge node))

/-- The growth of several vertices that meet. -/
def meet (node : NodeId) : List Vertex → Growth
  | [] | [_] => {}
  | sources@(_ :: _ :: _) =>
    .place (.slot (.merge node)) ++
      .sum (sources.map fun source => .arrow source (.slot (.merge node)))

def property : Option String → Growth
  | some name => .place (.named name)
  | none => {}

end Growth

mutual
/-- The vertex that holds the value of an expression, if that value can carry a function. -/
def Expr.holder (program : Program) : Expr → Option Vertex
  | .function _ target => some (.function target)
  | .ident _ reference => some (.slot (reference.slot program))
  | .this _ owner => owner.map fun function => .slot (.param function 0)
  | .member _ _ name => name.map .named
  | .call _ site _ _ => some (.slot (.result site))
  | .assign _ _ value => value.holder program
  | .select node _ values => Growth.meeting node (Expr.holders program values)
  | .object .. | .inert .. => none
def Expr.holders (program : Program) : List Expr → List Vertex
  | [] => []
  | first :: rest => (first.holder program).toList ++ Expr.holders program rest
end

/-- The growth by which the object of a called property becomes the receiver of a call. -/
def Expr.receiverGrowth (program : Program) (site : CallId) : Expr → Growth
  | .member _ receiver _ =>
    if program.passesReceiver site then
      .place (.slot (.arg site 0)) ++ .flow (receiver.holder program) (.slot (.arg site 0))
    else {}
  | _ => {}

mutual
/-- The vertices and arrows of an expression. -/
def Expr.growth (program : Program) : Expr → Growth
  | .function _ target => .place (.function target)
  | .ident _ reference => .place (.slot (reference.slot program))
  | .this _ owner =>
    match owner with
    | some function => .place (.slot (.param function 0))
    | none => {}
  | .member _ object name => object.growth program ++ .property name
  | .call _ site callee arguments =>
    callee.growth program ++ callee.receiverGrowth program site ++
      (.place (.callee site) ++ .flow (callee.holder program) (.callee site)
        ++ Expr.argumentGrowth program site 1 arguments ++ .place (.slot (.result site)))
  | .assign _ target value =>
    value.growth program ++ target.growth program ++
      match target.holder program with
      | some place => .flow (value.holder program) place
      | none => {}
  | .select node guards values =>
    Expr.growths program guards ++ Expr.growths program values
      ++ .meet node (Expr.holders program values)
  | .object _ entries => Property.growths program entries
  | .inert _ parts => Expr.growths program parts
def Expr.growths (program : Program) : List Expr → Growth
  | [] => {}
  | first :: rest => first.growth program ++ Expr.growths program rest
def Expr.argumentGrowth (program : Program) (site : CallId) (index : Nat) : List Expr → Growth
  | [] => {}
  | first :: rest =>
    first.growth program ++ .place (.slot (.arg site index))
      ++ .flow (first.holder program) (.slot (.arg site index))
      ++ Expr.argumentGrowth program site (index + 1) rest
def Property.growths (program : Program) : List Property → Growth
  | [] => {}
  | .mk key value :: rest =>
    value.growth program ++
      (match key with
        | some name => .place (.named name) ++ .flow (value.holder program) (.named name)
        | none => {})
      ++ Property.growths program rest
end

/-- The vertices and arrows of a statement in the body of `function`. -/
def Stmt.growth (program : Program) (function : Option FunctionId) : Stmt → Growth
  | .expr value => value.growth program
  | .declare _ none => {}
  | .declare decl (some initial) =>
    initial.growth program ++ .place (.slot (program.slotOf decl))
      ++ .flow (initial.holder program) (.slot (program.slotOf decl))
  | .result returned =>
    (returned.map (·.growth program)).getD {} ++
      match function with
      | some function =>
        .place (.slot (.returned function))
          ++ .flow (returned.bind (·.holder program)) (.slot (.returned function))
      | none => {}

/-- The vertices and arrows of a program: all functions, all calls, and what the bodies say. -/
def Program.growth (program : Program) : Growth :=
  .sum ((List.range program.functions.size).map fun id => .place (.function id))
    ++ .sum ((List.range program.calls.size).map fun id => .place (.callee id))
    ++ .sum (program.bodies.map fun (owner, body) => .sum (body.map (Stmt.growth program owner)))

theorem Program.slotOf_cases {program : Program} {decl : Declaration}
    (found : program.decls[id]? = some decl) :
    (∃ function index, decl.kind = .parameter function index ∧
      program.slotOf id = .param function index) ∨
      (∃ name, program.slotOf id = .named name) ∨ program.slotOf id = .declared id := by
  unfold Program.slotOf Program.declVertex Program.decl
  rw [fetch_eq_ok.mpr found, Checked.ok_bind]
  cases isKind : decl.kind with
  | parameter function index => exact .inl ⟨function, index, rfl, rfl⟩
  | _ =>
    cases program.isGlobal id with
    | error => exact .inr (.inr rfl)
    | ok isGlobal =>
      cases isGlobal with
      | false => exact .inr (.inr rfl)
      | true => exact .inr (.inl ⟨_, rfl⟩)

def Slot.isMerge : Slot → Bool
  | .merge _ => true
  | _ => false

theorem Program.slotOf_form (program : Program) (id : DeclId) :
    (∃ function index, program.slotOf id = .param function index) ∨
      (∃ name, program.slotOf id = .named name) ∨ program.slotOf id = .declared id := by
  cases found : program.decls[id]? with
  | none =>
    refine .inr (.inr ?_)
    rw [Program.slotOf, Program.declVertex, Program.decl, fetch, found]
    rfl
  | some decl =>
    rcases slotOf_cases found with ⟨function, index, _, same⟩ | other
    · exact .inl ⟨function, index, same⟩
    · exact .inr other

theorem Program.isMerge_slotOf (program : Program) (id : DeclId) :
    (program.slotOf id).isMerge = false := by
  rcases program.slotOf_form id with ⟨_, _, same⟩ | ⟨_, same⟩ | same <;> rw [same] <;> rfl

theorem Reference.isMerge_slot (program : Program) (reference : Reference) :
    (reference.slot program).isMerge = false := by
  unfold Reference.slot
  split
  · exact program.isMerge_slotOf _
  · rfl
  · rfl

namespace Program.InRange

variable {program : Program}

theorem decl_of_lt (inRange : program.InRange) (below : id < program.decls.size) :
    ∃ decl, program.decl id = .ok decl ∧ decl.InRange program.sizes := by
  obtain ⟨decl, member, found⟩ := fetch_of_lt below (.declaration id)
  exact ⟨decl, found, inRange.decls decl member⟩

theorem isGlobal_of_lt (inRange : program.InRange) (below : id < program.decls.size) :
    ∃ answer, program.isGlobal id = .ok answer := by
  obtain ⟨decl, found, declInRange⟩ := inRange.decl_of_lt below
  obtain ⟨scope, _, inside⟩ := fetch_of_lt declInRange.scope (.scope decl.scope)
  unfold Program.isGlobal
  rw [found, Checked.ok_bind]
  split
  · exact ⟨_, rfl⟩
  · rw [Program.scope, inside]
    exact ⟨_, rfl⟩

theorem declVertex_eq (inRange : program.InRange) (below : id < program.decls.size) :
    program.declVertex id = .ok (.slot (program.slotOf id)) := by
  have isSlot : ∃ slot, program.declVertex id = .ok (.slot slot) := by
    obtain ⟨decl, found, _⟩ := inRange.decl_of_lt below
    obtain ⟨isGlobal, answered⟩ := inRange.isGlobal_of_lt below
    unfold Program.declVertex
    rw [found, answered, Checked.ok_bind]
    split
    · exact ⟨_, rfl⟩
    · cases isGlobal
      · exact ⟨_, rfl⟩
      · exact ⟨_, rfl⟩
  obtain ⟨slot, found⟩ := isSlot
  unfold Program.slotOf
  rw [found]

end Program.InRange

/-! ### Building follows the growth -/

namespace Build

variable {program : Program} {graph : FlowGraph}

theorem reference_yields (inRange : program.InRange) (wellFormed : graph.WellFormed)
    {target : Reference} (targetInRange : target.binding.InRange program.sizes) :
    Yields (reference program target) graph fun id after =>
      graph.Grown (.place (.slot (target.slot program))) after ∧
        after.At id (.slot (target.slot program)) := by
  unfold reference Reference.slot
  cases bound : target.binding with
  | declared decl =>
    rw [bound] at targetInRange
    exact .lift_bind (inRange.declVertex_eq targetInRange) (vertex_yields wellFormed _)
  | global => exact vertex_yields wellFormed _
  | unresolved => exact vertex_yields wellFormed _

theorem property_yields (wellFormed : graph.WellFormed) (name : Option String) :
    Yields (property name) graph fun id after =>
      graph.Grown (.property name) after ∧ Option.Rel after.At id (name.map .named) := by
  cases name with
  | none => exact .pure ⟨.refl wellFormed, .none⟩
  | some name =>
    refine (vertex_yields wellFormed (.named name)).bind fun id after ⟨grown, found⟩ => ?_
    exact .pure ⟨grown, .some found⟩

theorem receiver_yields (wellFormed : graph.WellFormed) {site : CallId}
    (siteInRange : site < program.calls.size) {whole : Option VertexId}
    {wholeVertex : Option Vertex} (found : Option.Rel graph.At whole wholeVertex) :
    Yields (receiver program site whole) graph fun _ after =>
      graph.Grown
        (if program.passesReceiver site then
          .place (.slot (.arg site 0)) ++ .flow wholeVertex (.slot (.arg site 0))
        else {}) after := by
  have atSite : program.calls[site]? = some program.calls[site] :=
    Array.getElem?_eq_getElem siteInRange
  refine .lift_bind (fetch_eq_ok.mpr atSite) ?_
  unfold Program.passesReceiver
  rw [atSite, Option.any_some]
  split
  · refine (vertex_yields wellFormed _).bind fun target after ⟨grown, atTarget⟩ => ?_
    exact (flow_yields grown.wellFormed (grown.kept_option found) atTarget).mono
      fun _ _ grownOn => grown.trans grownOn
  · exact .pure (.refl wellFormed)

private theorem edges_yield (wellFormed : graph.WellFormed) {target : VertexId}
    {targetVertex : Vertex} (atTarget : graph.At target targetVertex) {sources : List VertexId}
    {vertices : List Vertex} (found : List.Forall₂ graph.At sources vertices) :
    Yields (sources.forM fun source => discard <| edge source target) graph fun _ after =>
      graph.Grown (.sum (vertices.map fun source => .arrow source targetVertex)) after := by
  induction sources generalizing graph vertices with
  | nil =>
    cases found
    exact .pure (.refl wellFormed)
  | cons source rest inductionHypothesis =>
    cases found with
    | cons atSource found =>
      refine (Yields.discard (edge_yields wellFormed atSource atTarget)).bind
        fun _ after grown => ?_
      exact (inductionHypothesis grown.wellFormed (grown.kept atTarget)
        (found.imp fun _ _ => grown.kept)).mono fun _ _ grownRest => grown.trans grownRest

theorem merge_yields (wellFormed : graph.WellFormed) (node : NodeId) {sources : List VertexId}
    {vertices : List Vertex} (found : List.Forall₂ graph.At sources vertices) :
    Yields (merge node sources) graph fun id after =>
      graph.Grown (.meet node vertices) after ∧
        Option.Rel after.At id (Growth.meeting node vertices) := by
  unfold merge
  match sources, vertices, found with
  | [], [], .nil => exact .pure ⟨.refl wellFormed, .none⟩
  | [_], [_], .cons atSingle .nil => exact .pure ⟨.refl wellFormed, .some atSingle⟩
  | _ :: _ :: _, _ :: _ :: _, found =>
    refine (vertex_yields wellFormed _).bind fun target after ⟨grown, atTarget⟩ => ?_
    refine (edges_yield grown.wellFormed atTarget (found.imp fun _ _ => grown.kept)).bind
      fun _ final grownEdges => ?_
    exact .pure ⟨grown.trans grownEdges, .some (grownEdges.kept atTarget)⟩

/-- Once its callee is known, a call adds its own vertices, the flow to its callee, and its
arguments. -/
private theorem invocation_yields (wellFormed : graph.WellFormed) (site : CallId)
    (arguments : List Expr) {callee : Option VertexId} {calleeVertex : Option Vertex}
    (atCallee : Option.Rel graph.At callee calleeVertex)
    (argumentsYield : ∀ {between : FlowGraph}, between.WellFormed →
      Yields (args program site 1 arguments) between fun _ after =>
        between.Grown (Expr.argumentGrowth program site 1 arguments) after) :
    Yields (do
        flow callee (← vertex (.callee site))
        args program site 1 arguments
        return some (← vertex (.slot (.result site)))) graph fun id after =>
      graph.Grown
          (.place (.callee site) ++ .flow calleeVertex (.callee site)
            ++ Expr.argumentGrowth program site 1 arguments
            ++ .place (.slot (.result site))) after ∧
        Option.Rel after.At id (some (.slot (.result site))) := by
  refine (vertex_yields wellFormed _).bind fun target afterTarget ⟨grown, atTarget⟩ => ?_
  refine (flow_yields grown.wellFormed (grown.kept_option atCallee) atTarget).bind
    fun _ afterFlow grown' => ?_
  refine (argumentsYield grown'.wellFormed).bind fun _ afterArguments grown'' => ?_
  refine (vertex_yields grown''.wellFormed _).bind fun result final ⟨grown₃, atResult⟩ => ?_
  exact .pure ⟨((grown.trans grown').trans grown'').trans grown₃, .some atResult⟩

-- One case for each form of expression: the parts are built one after the other, and what was found
-- before stays where it was.
mutual
theorem expr_yields (inRange : program.InRange) : (expr : Expr) → {graph : FlowGraph} →
    expr.InRange program.sizes → graph.WellFormed →
    Yields (Build.expr program expr) graph fun id after =>
      graph.Grown (expr.growth program) after ∧ Option.Rel after.At id (expr.holder program)
  | .function _ target, graph, _, wellFormed => by
    refine (vertex_yields wellFormed _).bind fun id after ⟨grown, found⟩ => ?_
    exact .pure ⟨grown, .some found⟩
  | .ident _ reference, graph, exprInRange, wellFormed => by
    refine (reference_yields inRange wellFormed (Expr.inRange_ident.mp exprInRange).2).bind
      fun id after ⟨grown, found⟩ => ?_
    exact .pure ⟨grown, .some found⟩
  | .this _ (some function), graph, _, wellFormed => by
    refine (vertex_yields wellFormed _).bind fun id after ⟨grown, found⟩ => ?_
    exact .pure ⟨grown, .some found⟩
  | .this _ none, graph, _, wellFormed => .pure ⟨.refl wellFormed, .none⟩
  | .member _ whole name, graph, exprInRange, wellFormed => by
    have wholeInRange := Expr.inRange_member.mp exprInRange
    refine (Yields.discard ((expr_yields inRange whole wholeInRange wellFormed).mono
      fun _ _ both => both.1)).bind fun _ middle grown => ?_
    refine (property_yields grown.wellFormed name).mono fun id after ⟨grownName, found⟩ => ?_
    exact ⟨grown.trans grownName, found⟩
  | .call _ site callee arguments, graph, exprInRange, wellFormed => by
    obtain ⟨siteInRange, calleeInRange, argumentsInRange⟩ := Expr.inRange_call.mp exprInRange
    have argumentsYield := @args_yield inRange site 1 arguments
    cases callee with
    | member _ whole name =>
      have wholeInRange := Expr.inRange_member.mp calleeInRange
      refine (expr_yields inRange whole wholeInRange wellFormed).bind
        fun wholeId afterWhole ⟨grown, atWhole⟩ => ?_
      refine (receiver_yields grown.wellFormed siteInRange atWhole).bind
        fun _ afterReceiver grown' => ?_
      refine (property_yields grown'.wellFormed name).bind
        fun nameId afterName ⟨grown'', atName⟩ => ?_
      refine (invocation_yields grown''.wellFormed site arguments atName
        (argumentsYield argumentsInRange)).mono
        fun id after ⟨grownCall, atResult⟩ => ⟨?_, atResult⟩
      -- The receiver is passed on before the property is looked at; as sets the two commute.
      refine (((grown.trans grown').trans grown'').trans grownCall).congr ?_ ?_
      · intro vertex
        simp only [Expr.growth, Expr.receiverGrowth, Expr.holder, Growth.places_append,
          List.mem_append]
        tauto
      · intro pair
        simp only [Expr.growth, Expr.receiverGrowth, Expr.holder, Growth.arrows_append,
          List.mem_append]
        tauto
    | _ =>
      refine (expr_yields inRange _ calleeInRange wellFormed).bind
        fun calleeId afterCallee ⟨grown, atCallee⟩ => ?_
      refine (invocation_yields grown.wellFormed site arguments atCallee
        (argumentsYield argumentsInRange)).mono
        fun id after ⟨grownCall, atResult⟩ => ⟨?_, atResult⟩
      exact (grown.trans (.refl grown.wellFormed)).trans grownCall
  | .assign _ target value, graph, exprInRange, wellFormed => by
    obtain ⟨targetInRange, valueInRange⟩ := Expr.inRange_assign.mp exprInRange
    refine (expr_yields inRange value valueInRange wellFormed).bind
      fun valueId afterValue ⟨grown, atValue⟩ => ?_
    refine (expr_yields inRange target targetInRange grown.wellFormed).bind
      fun targetId afterTarget ⟨grown', atTarget⟩ => ?_
    have atValue' := grown'.kept_option atValue
    rw [Expr.growth, Expr.holder]
    generalize target.holder program = place at atTarget ⊢
    cases atTarget with
    | none => exact .pure ⟨(grown.trans grown').trans (.refl grown'.wellFormed), atValue'⟩
    | some atTarget =>
      refine (flow_yields grown'.wellFormed atValue' atTarget).bind fun _ after grown'' => ?_
      exact .pure ⟨(grown.trans grown').trans grown'', grown''.kept_option atValue'⟩
  | .select node guards values, graph, exprInRange, wellFormed => by
    obtain ⟨guardsInRange, valuesInRange⟩ := Expr.inRange_select.mp exprInRange
    refine (Yields.discard ((exprs_yields inRange guards guardsInRange wellFormed).mono
      fun _ _ both => both.1)).bind fun _ middle grown => ?_
    refine (exprs_yields inRange values valuesInRange grown.wellFormed).bind
      fun ids afterValues ⟨grown', found⟩ => ?_
    refine (merge_yields grown'.wellFormed node found).mono fun id after ⟨grownMeet, atMeet⟩ => ?_
    exact ⟨(grown.trans grown').trans grownMeet, atMeet⟩
  | .object _ entries, graph, exprInRange, wellFormed => by
    refine (properties_yields inRange entries (Expr.inRange_object.mp exprInRange) wellFormed).bind
      fun _ after grown => ?_
    exact .pure ⟨grown, .none⟩
  | .inert _ parts, graph, exprInRange, wellFormed => by
    have partsYield := exprs_yields inRange parts (Expr.inRange_inert.mp exprInRange) wellFormed
    refine (Yields.discard (partsYield.mono fun _ _ both => both.1)).bind fun _ after grown => ?_
    exact .pure ⟨grown, .none⟩
theorem exprs_yields (inRange : program.InRange) : (exprs : List Expr) → {graph : FlowGraph} →
    (∀ expr ∈ exprs, expr.InRange program.sizes) → graph.WellFormed →
    Yields (Build.exprs program exprs) graph fun ids after =>
      graph.Grown (Expr.growths program exprs) after ∧
        List.Forall₂ after.At ids (Expr.holders program exprs)
  | [], graph, _, wellFormed => .pure ⟨.refl wellFormed, .nil⟩
  | first :: rest, graph, exprsInRange, wellFormed => by
    obtain ⟨firstInRange, restInRange⟩ := List.forall_mem_cons.mp exprsInRange
    refine (expr_yields inRange first firstInRange wellFormed).bind
      fun id middle ⟨grown, atFirst⟩ => ?_
    refine (exprs_yields inRange rest restInRange grown.wellFormed).bind
      fun ids after ⟨grown', atRest⟩ => ?_
    refine .pure ⟨grown.trans grown', ?_⟩
    rw [Expr.holders]
    replace atFirst := grown'.kept_option atFirst
    generalize first.holder program = place at atFirst ⊢
    cases atFirst with
    | none => exact atRest
    | some atFirst => exact .cons atFirst atRest
theorem args_yield (inRange : program.InRange) (site : CallId) : (index : Nat) →
    (arguments : List Expr) → {graph : FlowGraph} →
    (∀ argument ∈ arguments, argument.InRange program.sizes) → graph.WellFormed →
    Yields (args program site index arguments) graph fun _ after =>
      graph.Grown (Expr.argumentGrowth program site index arguments) after
  | _, [], graph, _, wellFormed => .pure (.refl wellFormed)
  | index, first :: rest, graph, argumentsInRange, wellFormed => by
    obtain ⟨firstInRange, restInRange⟩ := List.forall_mem_cons.mp argumentsInRange
    refine (expr_yields inRange first firstInRange wellFormed).bind
      fun id afterValue ⟨grown, atValue⟩ => ?_
    refine (vertex_yields grown.wellFormed _).bind fun slot afterSlot ⟨grown', atSlot⟩ => ?_
    refine (flow_yields grown'.wellFormed (grown'.kept_option atValue) atSlot).bind
      fun _ afterFlow grown'' => ?_
    exact (args_yield inRange site (index + 1) rest restInRange grown''.wellFormed).mono
      fun _ _ grownRest => ((grown.trans grown').trans grown'').trans grownRest
theorem properties_yields (inRange : program.InRange) : (entries : List Property) →
    {graph : FlowGraph} → (∀ key value, .mk key value ∈ entries → value.InRange program.sizes) →
    graph.WellFormed →
    Yields (properties program entries) graph fun _ after =>
      graph.Grown (Property.growths program entries) after
  | [], graph, _, wellFormed => .pure (.refl wellFormed)
  | .mk key value :: rest, graph, entriesInRange, wellFormed => by
    have valueInRange := entriesInRange key value List.mem_cons_self
    have restInRange := fun key value member =>
      entriesInRange key value (List.mem_cons_of_mem _ member)
    refine (expr_yields inRange value valueInRange wellFormed).bind
      fun id afterValue ⟨grown, atValue⟩ => ?_
    cases key with
    | none =>
      exact (properties_yields inRange rest restInRange grown.wellFormed).mono
        fun _ _ grownRest => (grown.trans (.refl grown.wellFormed)).trans grownRest
    | some name =>
      refine (vertex_yields grown.wellFormed _).bind fun slot afterSlot ⟨grown', atSlot⟩ => ?_
      refine (flow_yields grown'.wellFormed (grown'.kept_option atValue) atSlot).bind
        fun _ afterFlow grown'' => ?_
      exact (properties_yields inRange rest restInRange grown''.wellFormed).mono
        fun _ _ grownRest => (grown.trans (grown'.trans grown'')).trans grownRest
end

private theorem returned_yields (owner : Option FunctionId) (wellFormed : graph.WellFormed)
    {value : Option VertexId} {valueVertex : Option Vertex}
    (atValue : Option.Rel graph.At value valueVertex) :
    Yields
      (match owner with
        | some function => do flow value (← vertex (.slot (.returned function)))
        | none => return ()) graph fun _ after =>
      graph.Grown
        (match owner with
          | some function =>
            .place (.slot (.returned function)) ++ .flow valueVertex (.slot (.returned function))
          | none => {}) after := by
  cases owner with
  | none => exact .pure (.refl wellFormed)
  | some function =>
    refine (vertex_yields wellFormed _).bind fun slot afterSlot ⟨grown, atSlot⟩ => ?_
    exact (flow_yields grown.wellFormed (grown.kept_option atValue) atSlot).mono
      fun _ _ grown' => grown.trans grown'

theorem stmt_yields (inRange : program.InRange) (wellFormed : graph.WellFormed)
    (owner : Option FunctionId) {stmt : Stmt} (stmtInRange : stmt.InRange program.sizes) :
    Yields (Build.stmt program owner stmt) graph fun _ after =>
      graph.Grown (stmt.growth program owner) after := by
  cases stmt with
  | expr value =>
    exact .discard ((expr_yields inRange value stmtInRange wellFormed).mono fun _ _ both => both.1)
  | declare decl initial =>
    cases initial with
    | none => exact .pure (.refl wellFormed)
    | some initial =>
      refine (expr_yields inRange initial (stmtInRange.2 initial rfl) wellFormed).bind
        fun value afterValue ⟨grown, atValue⟩ => ?_
      refine .lift_bind (inRange.declVertex_eq stmtInRange.1) ?_
      refine (vertex_yields grown.wellFormed _).bind fun slot afterSlot ⟨grown', atSlot⟩ => ?_
      exact (flow_yields grown'.wellFormed (grown'.kept_option atValue) atSlot).mono
        fun _ _ grown'' => (grown.trans grown').trans grown''
  | result returned =>
    cases returned with
    | none =>
      exact (returned_yields owner wellFormed .none).mono
        fun _ _ grown => (FlowGraph.Grown.refl wellFormed).trans grown
    | some value =>
      refine (expr_yields inRange value (stmtInRange value rfl) wellFormed).bind
        fun value _ ⟨grown, atValue⟩ => ?_
      exact (returned_yields owner grown.wellFormed atValue).mono
        fun _ _ grown' => grown.trans grown'

theorem bodies_yield (inRange : program.InRange) (wellFormed : graph.WellFormed) :
    Yields (bodies program) graph fun _ after => graph.Grown program.growth after := by
  have vertexYields (vertex : Vertex) {between : FlowGraph} (wellFormed : between.WellFormed) :
      Yields (discard <| Build.vertex vertex) between fun _ after =>
        between.Grown (.place vertex) after :=
    .discard ((vertex_yields wellFormed vertex).mono fun _ _ both => both.1)
  refine (forM_yields wellFormed fun id _ _ => vertexYields (.function id)).bind
    fun _ afterFunctions grown => ?_
  refine (forM_yields grown.wellFormed fun id _ _ => vertexYields (.callee id)).bind
    fun _ afterCalls grown' => ?_
  refine (forM_yields grown'.wellFormed ?_).mono
    fun _ after grown'' => (grown.trans grown').trans grown''
  rintro ⟨owner, body⟩ isBody between wellFormed
  exact forM_yields wellFormed fun stmt inside _ wellFormed =>
    stmt_yields inRange wellFormed owner (inRange.body isBody inside)

end Build

theorem FlowGraph.addBodies_grown {program : Program} {graph : FlowGraph}
    (inRange : program.InRange) (wellFormed : graph.WellFormed) :
    ∃ after, graph.addBodies program = .ok after ∧ graph.Grown program.growth after := by
  obtain ⟨_, after, ran, grown⟩ := Build.bodies_yield inRange wellFormed
  refine ⟨after, ?_, grown⟩
  rw [FlowGraph.addBodies, ran]
  rfl

end FunctionFlow
