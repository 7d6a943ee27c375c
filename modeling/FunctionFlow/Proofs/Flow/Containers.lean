import FunctionFlow.Proofs.Analysis.Direct
import FunctionFlow.Proofs.Flow.Linking
import FunctionFlow.Proofs.Flow.Requests

/-!
Contract: the containers of a flow graph stay in step.
-/

namespace FunctionFlow

namespace FlowGraph

/-- The containers of a graph say the same about its vertices and edges. -/
structure InStep (graph : FlowGraph) : Prop where
  index_iff : ∀ vertex id, graph.lookup vertex = some id ↔ graph.vertices[id]? = some vertex
  edges_distinct : graph.edges.toList.Nodup
  edgeSet_iff : ∀ edge, edge ∈ graph.edgeSet ↔ edge ∈ graph.edges
  hasEdge_iff : ∀ source target,
    graph.hasEdge source target = true ↔ (source, target) ∈ graph.edges
  edges_below : ∀ edge ∈ graph.edges, edge.1 < graph.size ∧ edge.2 < graph.size
  successors_eq : ∀ id < graph.size,
    graph.successors id = .ok (targetsIn graph.edges.toList id)
  predecessors_eq : ∀ id < graph.size,
    graph.predecessors id = .ok (sourcesIn graph.edges.toList id)

theorem WellFormed.inStep {graph : FlowGraph} (wellFormed : graph.WellFormed) : graph.InStep where
  index_iff _ _ := wellFormed.lookup_eq_some
  edges_distinct := wellFormed.edgesDistinct
  edgeSet_iff _ := wellFormed.edgeSetListed.mem_iff.trans Array.mem_toList_iff
  hasEdge_iff _ _ := wellFormed.hasEdge_eq_true
  edges_below := wellFormed.edgesInside
  successors_eq _ below := wellFormed.successors_eq below
  predecessors_eq _ below := wellFormed.predecessors_eq below

end FlowGraph

/-! ### Computations that extend a graph -/

namespace Build

def Asks {α : Type} (compute : Build α) : Prop :=
  ∀ graph answer after, compute.run graph = .ok (answer, after) → graph.Evolves after

namespace Asks

variable {α β : Type}

theorem pure (answer : α) : Asks (Pure.pure answer) := by
  intro graph result after ran
  cases ran
  exact .refl _

theorem lift (lookup : Checked α) : Asks (liftM lookup : Build α) := by
  intro graph result after ran
  cases lookup with
  | error failure => cases ran
  | ok value =>
    cases ran
    exact .refl _

theorem bind {first : Build α} {next : α → Build β} (begins : Asks first)
    (goesOn : ∀ answer, Asks (next answer)) : Asks (first >>= next) := by
  intro graph result after ran
  rw [StateT.run_bind] at ran
  obtain ⟨⟨answer, between⟩, ranFirst, ranNext⟩ := Checked.bind_eq_ok.mp ran
  exact (begins _ _ _ ranFirst).trans (goesOn answer _ _ _ ranNext)

theorem discard {compute : Build α} (asks : Asks compute) : Asks (Functor.discard compute) :=
  asks.bind fun _ => .pure ()

theorem forM {items : List α} {step : α → Build Unit} (each : ∀ item, Asks (step item)) :
    Asks (items.forM step) := by
  induction items with
  | nil => exact .pure ()
  | cons first rest inductionHypothesis =>
    exact (each first).bind fun _ => inductionHypothesis

end Asks

theorem vertex_asks (vertex : Vertex) : Asks (Build.vertex vertex) := by
  intro graph id after ran
  cases ran
  exact FlowGraph.evolves_of_serve (show graph.serve (.vertex vertex) = _ from rfl)

theorem edge_asks (source target : VertexId) : Asks (edge source target) := by
  intro graph answer after ran
  simp only [edge, StateT.run_bind, StateT.run_get, StateT.run_monadLift, pure_bind,
    monadLift_self] at ran
  obtain ⟨_, lifted, stored⟩ := Checked.bind_eq_ok.mp ran
  obtain ⟨⟨isNew, grown⟩, added, same⟩ := Checked.bind_eq_ok.mp lifted
  cases same
  cases stored
  exact FlowGraph.evolves_addEdge added

theorem flow_asks (source : Option VertexId) (target : VertexId) : Asks (flow source target) := by
  cases source with
  | none => exact .pure ()
  | some source =>
    by_cases same : source = target
    · rw [flow, if_pos same]
      exact .pure ()
    · rw [flow, if_neg same]
      exact (edge_asks source target).discard

variable (program : Program)

theorem reference_asks (target : Reference) : Asks (reference program target) := by
  unfold reference
  cases target.binding with
  | declared decl => exact (Asks.lift _).bind fun _ => vertex_asks _
  | global => exact vertex_asks _
  | unresolved => exact vertex_asks _

theorem property_asks (name : Option String) : Asks (property name) := by
  cases name with
  | none => exact .pure none
  | some name => exact (vertex_asks _).bind fun _ => .pure _

theorem receiver_asks (site : CallId) (object : Option VertexId) :
    Asks (receiver program site object) := by
  refine (Asks.lift _).bind fun found => ?_
  by_cases hasReceiver : found.hasReceiver
  · rw [if_pos hasReceiver]
    exact (vertex_asks _).bind fun _ => flow_asks _ _
  · rw [if_neg hasReceiver]
    exact .pure ()

theorem merge_asks (node : NodeId) (sources : List VertexId) : Asks (merge node sources) := by
  match sources with
  | [] => exact .pure none
  | [single] => exact .pure (some single)
  | first :: second :: rest =>
    refine (vertex_asks _).bind fun target => ?_
    exact (Asks.forM fun source => (edge_asks source target).discard).bind fun _ => .pure _

mutual
theorem expr_asks : (expr : Expr) → Asks (Build.expr program expr)
  | .function _ _ => (vertex_asks _).bind fun _ => .pure _
  | .ident _ target => (reference_asks program target).bind fun _ => .pure _
  | .this _ none => .pure none
  | .this _ (some _) => (vertex_asks _).bind fun _ => .pure _
  | .member _ object name => (expr_asks object).discard.bind fun _ => property_asks name
  | .call _ site callee arguments => by
    have invocation (value : Option VertexId) : Asks (do
        flow value (← vertex (.callee site))
        args program site 1 arguments
        return some (← vertex (.slot (.result site)))) :=
      (vertex_asks _).bind fun _ => (flow_asks _ _).bind fun _ =>
        (args_ask site 1 arguments).bind fun _ => (vertex_asks _).bind fun _ => .pure _
    cases callee with
    | member node object name =>
      exact (expr_asks object).bind fun _ => (receiver_asks program site _).bind fun _ =>
        (property_asks name).bind invocation
    | _ =>
      exact (expr_asks _).bind invocation
  | .assign _ target value => by
    refine (expr_asks value).bind fun source => (expr_asks target).bind fun sink => ?_
    cases sink with
    | none => exact (Asks.pure ()).bind fun _ => .pure _
    | some sink => exact (flow_asks _ _).bind fun _ => .pure _
  | .select node guards values =>
    (exprs_ask guards).discard.bind fun _ => (exprs_ask values).bind fun _ => merge_asks node _
  | .object _ entries => (properties_ask entries).bind fun _ => .pure none
  | .inert _ parts => (exprs_ask parts).discard.bind fun _ => .pure none
theorem exprs_ask : (exprs : List Expr) → Asks (Build.exprs program exprs)
  | [] => .pure []
  | first :: rest => (expr_asks first).bind fun _ => (exprs_ask rest).bind fun _ => .pure _
theorem args_ask (site : CallId) : (index : Nat) → (arguments : List Expr) →
    Asks (args program site index arguments)
  | _, [] => .pure ()
  | index, first :: rest => (expr_asks first).bind fun _ => (vertex_asks _).bind fun _ =>
      (flow_asks _ _).bind fun _ => args_ask site (index + 1) rest
theorem properties_ask : (entries : List Property) → Asks (properties program entries)
  | [] => .pure ()
  | .mk none value :: rest => (expr_asks value).bind fun _ => properties_ask rest
  | .mk (some _) value :: rest => (expr_asks value).bind fun _ => (vertex_asks _).bind fun _ =>
      (flow_asks _ _).bind fun _ => properties_ask rest
end

theorem stmt_asks (owner : Option FunctionId) (stmt : Stmt) :
    Asks (Build.stmt program owner stmt) := by
  cases stmt with
  | expr value => exact (expr_asks program value).discard
  | declare decl initial =>
    cases initial with
    | none => exact .pure ()
    | some initial =>
      exact (expr_asks program initial).bind fun _ => (Asks.lift _).bind fun _ =>
        (vertex_asks _).bind fun _ => flow_asks _ _
  | result value =>
    cases owner with
    | none =>
      cases value with
      | none => exact (Asks.pure none).bind fun _ => .pure ()
      | some value => exact (expr_asks program value).bind fun _ => .pure ()
    | some function =>
      have returned (value : Option VertexId) :
          Asks (do flow value (← vertex (.slot (.returned function)))) :=
        (vertex_asks _).bind fun _ => flow_asks _ _
      cases value with
      | none => exact (Asks.pure none).bind returned
      | some value => exact (expr_asks program value).bind returned

theorem bodies_ask : Asks (bodies program) := by
  have vertices (kind : Nat → Vertex) (count : Nat) :
      Asks ((List.range count).forM fun id => discard <| vertex (kind id)) :=
    .forM fun id => (vertex_asks (kind id)).discard
  refine (vertices .function _).bind fun _ => (vertices .callee _).bind fun _ => ?_
  exact .forM fun body => .forM fun stmt => stmt_asks program body.1 stmt

theorem natives_ask (entries : List (String × String)) : Asks (natives entries) := by
  induction entries with
  | nil => exact .pure 0
  | cons entry rest inductionHypothesis =>
    exact (vertex_asks _).bind fun _ => (vertex_asks _).bind fun _ => (edge_asks _ _).bind fun _ =>
      inductionHypothesis.bind fun _ => .pure _

theorem direct_asks (calls : List (CallId × Expr)) : Asks (direct program calls) := by
  induction calls with
  | nil => exact .pure 0
  | cons first rest inductionHypothesis =>
    refine (Asks.lift _).bind fun found => ?_
    cases found with
    | none => exact inductionHypothesis
    | some function =>
      exact (vertex_asks _).bind fun _ => (vertex_asks _).bind fun _ =>
        (edge_asks _ _).bind fun _ => inductionHypothesis.bind fun _ => .pure _

end Build

namespace FlowGraph

variable {graph after : FlowGraph}

theorem evolves_addNatives {table : NativeTable} {count : Nat}
    (added : graph.addNatives table = .ok (count, after)) : graph.Evolves after :=
  Build.natives_ask table.entries graph count after added

theorem evolves_addBodies {program : Program} (added : graph.addBodies program = .ok after) :
    graph.Evolves after := by
  obtain ⟨⟨_, built⟩, ran, same⟩ := Checked.bind_eq_ok.mp added
  cases same
  exact Build.bodies_ask program graph () after ran

theorem evolves_addDirect {program : Program} {count : Nat}
    (added : graph.addDirect program = .ok (count, after)) : graph.Evolves after :=
  Build.direct_asks program program.callExpressions graph count after added

/-- After any history of requests that name existing ids, the containers are in step, a vertex was
answered with the same id each time and no other vertex with that id, the edges are those that were
asked for, and what was there before is there at its place. An edge that is asked for next is listed
then, and one more edge is counted just if it is new. Every computation that extends a
well-formed graph leaves one that goes on from it, and it ends well where the program has the ids
that it names. -/
theorem containers_inStep (requests : List Request)
    (admitted : ({} : FlowGraph).AdmitsAll requests) :
    (∃ answers graph, ({} : FlowGraph).serveAll requests = .ok (answers, graph) ∧
      graph.WellFormed ∧ graph.InStep ∧
      (∀ (position : Nat) vertex, requests[position]? = some (.vertex vertex) →
        ∃ id, answers[position]? = some (.id id) ∧ graph.vertices[id]? = some vertex) ∧
      (∀ (position other : Nat) vertex found, requests[position]? = some (.vertex vertex) →
        requests[other]? = some (.vertex found) →
        (answers[position]? = answers[other]? ↔ vertex = found)) ∧
      (∀ source target, (source, target) ∈ graph.edges ↔ .edge source target ∈ requests) ∧
      (∀ earlier later, requests = earlier ++ later → ∃ answers before,
        ({} : FlowGraph).serveAll earlier = .ok (answers, before) ∧ before.ProlongedBy graph) ∧
      ∀ source target, source < graph.size → target < graph.size →
        ∃ isNew after, graph.addEdge source target = .ok (isNew, after) ∧
          (source, target) ∈ after.edges ∧ (isNew = true ↔ (source, target) ∉ graph.edges) ∧
          (isNew = true ↔ after.edgeCount = graph.edgeCount + 1) ∧
          (isNew = false → after = graph)) ∧
    ∀ graph : FlowGraph, graph.WellFormed →
      (∀ after, (∃ table count, graph.addNatives table = .ok (count, after)) ∨
          (∃ program, graph.addBodies program = .ok after) ∨
          (∃ program count, graph.addDirect program = .ok (count, after)) ∨
          (∃ program call target sources,
            graph.link program call target = .ok (sources, after)) →
        after.WellFormed ∧ after.InStep ∧ graph.ProlongedBy after) ∧
      (∀ table, ∃ count after, graph.addNatives table = .ok (count, after)) ∧
      (∀ program : Program, program.InRange → (∃ after, graph.addBodies program = .ok after) ∧
        ∃ count after, graph.addDirect program = .ok (count, after)) ∧
      ∀ (program : Program) (call : CallId) (target : VertexId), call < program.calls.size →
        target < graph.size →
        ∃ sources after, graph.link program call target = .ok (sources, after) := by
  constructor
  · obtain ⟨answers, graph, served⟩ := wellFormed_empty.serveAll admitted
    have wellFormed := wellFormed_empty.of_serveAll served
    refine ⟨answers, graph, served, wellFormed, wellFormed.inStep, ?_, ?_, ?_, ?_, ?_⟩
    · intro position vertex asked
      obtain ⟨id, answered, found⟩ := wellFormed_empty.answer_eq served asked
      exact ⟨id, answered, wellFormed.lookup_eq_some.mp found⟩
    · intro position other vertex found asked askedToo
      obtain ⟨id, answered, looked⟩ := wellFormed_empty.answer_eq served asked
      obtain ⟨id', answered', looked'⟩ := wellFormed_empty.answer_eq served askedToo
      rw [answered, answered']
      constructor
      · intro same
        cases same
        exact (wellFormed.at_of_lookup looked).vertex_unique (wellFormed.at_of_lookup looked')
      · rintro rfl
        cases looked.symm.trans looked'
        rfl
    · intro source target
      rw [wellFormed_empty.mem_edges_serveAll served]
      exact or_iff_right (Array.not_mem_empty _)
    · rintro earlier later rfl
      obtain ⟨early, before, late, servedEarly, servedLate, _⟩ := serveAll_append_eq_ok.mp served
      exact ⟨early, before, servedEarly, prolonged_of_serveAll servedLate⟩
    · intro source target sourceBelow targetBelow
      obtain ⟨isNew, after, added, _⟩ := wellFormed.addEdge sourceBelow targetBelow
      exact ⟨isNew, after, added, (wellFormed.mem_edges_addEdge added).mpr (.inr rfl),
        wellFormed.addEdge_counts added⟩
  · intro graph wellFormed
    refine ⟨?_, ?_, ?_, ?_⟩
    · intro after extended
      have evolves : graph.Evolves after := by
        rcases extended with ⟨_, _, added⟩ | ⟨_, added⟩ | ⟨_, _, added⟩ | ⟨_, _, _, _, linked⟩
        · exact evolves_addNatives added
        · exact evolves_addBodies added
        · exact evolves_addDirect added
        · exact evolves_link linked
      have kept := wellFormed.of_evolves evolves
      exact ⟨kept, kept.inStep, evolves.prolonged⟩
    · intro table
      obtain ⟨count, after, added, _⟩ := Build.natives_yields wellFormed table.entries
      exact ⟨count, after, added⟩
    · intro program inRange
      obtain ⟨after, added, _⟩ := addBodies_grown inRange wellFormed
      obtain ⟨count, direct, addedDirect, _⟩ :=
        Build.direct_yields wellFormed inRange.tellsDirect
      exact ⟨⟨after, added⟩, count, direct, addedDirect⟩
    · intro program call target isCall below
      obtain ⟨sources, after, linked, _⟩ := link_tied wellFormed isCall below
      exact ⟨sources, after, linked⟩

/-- A vertex asked for twice, an edge added twice, and an edge from a vertex to itself. -/
def repeatedRequests : List Request :=
  [.vertex (.function 0), .vertex (.named "f"), .edge 0 1, .edge 0 1, .edge 1 1,
    .vertex (.function 0)]

theorem containers_inStep_repeatedRequests :
    ({} : FlowGraph).AdmitsAll repeatedRequests ∧
      ∃ answers graph, ({} : FlowGraph).serveAll repeatedRequests = .ok (answers, graph) ∧
        graph.InStep ∧ answers[0]? = answers[5]? ∧ answers[0]? ≠ answers[1]? ∧
        (0, 1) ∈ graph.edges ∧ (1, 0) ∉ graph.edges ∧
        ∃ isNew after, graph.addEdge 1 0 = .ok (isNew, after) ∧ isNew = true ∧
          (1, 0) ∈ after.edges ∧ after.edgeCount = graph.edgeCount + 1 := by
  have admitted : ({} : FlowGraph).AdmitsAll repeatedRequests := by decide
  refine ⟨admitted, ?_⟩
  obtain ⟨answers, graph, served, _, inStep, _, sameAnswer, asked, _, extend⟩ :=
    (containers_inStep repeatedRequests admitted).1
  have present : (0, 1) ∈ graph.edges := (asked 0 1).mpr (by decide)
  have absent : (1, 0) ∉ graph.edges := mt (asked 1 0).mp (by decide)
  obtain ⟨zeroBelow, oneBelow⟩ := inStep.edges_below _ present
  obtain ⟨isNew, after, added, listed, isNew_iff, counted, _⟩ := extend 1 0 oneBelow zeroBelow
  have new := isNew_iff.mpr absent
  refine ⟨answers, graph, served, inStep, ?_, ?_, present, absent, isNew, after, added, new, listed,
    counted.mp new⟩
  · exact (sameAnswer 0 5 (.function 0) (.function 0) rfl rfl).mpr rfl
  · intro same
    cases (sameAnswer 0 1 (.function 0) (.named "f") rfl rfl).mp same

end FlowGraph

end FunctionFlow
