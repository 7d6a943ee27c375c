import FunctionFlow.Flow.Link
import FunctionFlow.Proofs.Flow.Growth

/-!
Contract: a flow graph under any history of requests.

A request may name ids that the graph does not have, and then it fails. `Admits` says that it does
not, and a history all of whose requests are admitted is served to its end.
-/

namespace FunctionFlow

inductive Request where
  | vertex (vertex : Vertex)
  | edge (source target : VertexId)
  deriving DecidableEq, Repr

inductive Answer where
  | id (id : VertexId)
  | isNew (isNew : Bool)
  deriving DecidableEq, Repr

namespace FlowGraph

variable {requests : List Request} {answer : Answer}

def serve (graph : FlowGraph) : Request → Checked (Answer × FlowGraph)
  | .vertex vertex => return (.id (graph.intern vertex).1, (graph.intern vertex).2)
  | .edge source target => do
    let (isNew, after) ← graph.addEdge source target
    return (.isNew isNew, after)

def serveAll (graph : FlowGraph) : List Request → Checked (List Answer × FlowGraph)
  | [] => return ([], graph)
  | request :: rest => do
    let (answer, middle) ← graph.serve request
    let (answers, final) ← middle.serveAll rest
    return (answer :: answers, final)

/-- The graph has the ids that the request names. -/
def Admits (graph : FlowGraph) : Request → Prop
  | .vertex _ => True
  | .edge source target => source < graph.size ∧ target < graph.size

/-- Each request names ids that the graph has by then. -/
def AdmitsAll (graph : FlowGraph) : List Request → Prop
  | [] => True
  | request :: rest => graph.Admits request ∧
    ∀ answer middle, graph.serve request = .ok (answer, middle) → middle.AdmitsAll rest

instance (graph : FlowGraph) : (request : Request) → Decidable (graph.Admits request)
  | .vertex _ => .isTrue trivial
  | .edge source target => inferInstanceAs (Decidable (source < graph.size ∧ target < graph.size))

instance decidableAdmitsAll : (requests : List Request) → (graph : FlowGraph) →
    Decidable (graph.AdmitsAll requests)
  | [], _ => .isTrue trivial
  | request :: rest, graph =>
    have (middle : FlowGraph) := decidableAdmitsAll rest middle
    decidable_of_iff (graph.Admits request ∧
        ∀ served ∈ (graph.serve request).toOption, served.2.AdmitsAll rest) <|
      and_congr_right fun _ => by
        cases graph.serve request with
        | error failure => simp [Except.toOption]
        | ok served =>
          obtain ⟨answer, middle⟩ := served
          simp [Except.toOption]

/-- `after` has the vertices and edges of `before`, in the same places, and maybe more. -/
structure ProlongedBy (before after : FlowGraph) : Prop where
  vertices : before.vertices.toList <+: after.vertices.toList
  edges : before.edges.toList <+: after.edges.toList

theorem ProlongedBy.refl (graph : FlowGraph) : graph.ProlongedBy graph :=
  ⟨List.prefix_rfl, List.prefix_rfl⟩

theorem ProlongedBy.trans {first second third : FlowGraph} (left : first.ProlongedBy second)
    (right : second.ProlongedBy third) : first.ProlongedBy third :=
  ⟨left.vertices.trans right.vertices, left.edges.trans right.edges⟩

theorem ProlongedBy.kept {before after : FlowGraph} (prolonged : before.ProlongedBy after)
    {id : VertexId} {vertex : Vertex} (found : before.At id vertex) : after.At id vertex := by
  obtain ⟨added, vertices⟩ := prolonged.vertices
  rw [At, ← Array.getElem?_toList] at found ⊢
  rw [← vertices, List.getElem?_append_left (List.getElem?_eq_some_iff.mp found).1]
  exact found

theorem ProlongedBy.mem_edges {before after : FlowGraph} (prolonged : before.ProlongedBy after)
    {edge : VertexId × VertexId} (member : edge ∈ before.edges) : edge ∈ after.edges :=
  Array.mem_toList_iff.mp (prolonged.edges.subset (Array.mem_toList_iff.mpr member))

theorem ProlongedBy.edgeCount_le {before after : FlowGraph} (prolonged : before.ProlongedBy after) :
    before.edgeCount ≤ after.edgeCount :=
  prolonged.edges.length_le

variable {graph after : FlowGraph}

/-! ### One request -/

theorem serve_edge_eq_ok {source target : VertexId} :
    graph.serve (.edge source target) = .ok (answer, after) ↔
      ∃ isNew, graph.addEdge source target = .ok (isNew, after) ∧ answer = .isNew isNew := by
  constructor
  · intro served
    obtain ⟨⟨isNew, grown⟩, added, answered⟩ := Checked.bind_eq_ok.mp served
    cases answered
    exact ⟨isNew, added, rfl⟩
  · rintro ⟨isNew, added, rfl⟩
    show (graph.addEdge source target >>= fun (isNew, after) => pure (Answer.isNew isNew, after)) = _
    rw [added]
    rfl

theorem WellFormed.rows_size (wellFormed : graph.WellFormed) :
    graph.successorRows.size = graph.size ∧ graph.predecessorRows.size = graph.size := by
  have successors := congrArg List.length wellFormed.successorsListed
  have predecessors := congrArg List.length wellFormed.predecessorsListed
  simp only [Array.length_toList, List.length_map, List.length_range] at successors predecessors
  exact ⟨successors, predecessors⟩

theorem WellFormed.below_of_addEdge (wellFormed : graph.WellFormed) {source target : VertexId}
    {isNew : Bool} (added : graph.addEdge source target = .ok (isNew, after)) :
    source < graph.size ∧ target < graph.size := by
  rcases addEdge_outcome added with ⟨present, _⟩ | ⟨targets, sources, _, _, outOf, into, _⟩
  · exact wellFormed.edgesInside _ (wellFormed.hasEdge_eq_true.mp present)
  · obtain ⟨successors, predecessors⟩ := wellFormed.rows_size
    rw [← successors]
    refine ⟨Table.below outOf, ?_⟩
    rw [successors, ← predecessors]
    exact Table.below into

theorem WellFormed.addEdge_counts (wellFormed : graph.WellFormed) {source target : VertexId}
    {isNew : Bool} (added : graph.addEdge source target = .ok (isNew, after)) :
    (isNew = true ↔ (source, target) ∉ graph.edges) ∧
      (isNew = true ↔ after.edgeCount = graph.edgeCount + 1) ∧ (isNew = false → after = graph) := by
  rcases wellFormed.addEdge_cases added with ⟨rfl, present, rfl⟩ | ⟨rfl, absent, _, edges⟩
  · simp [present]
  · simp [edgeCount, edges, absent]

theorem prolonged_addEdge {source target : VertexId} {isNew : Bool}
    (added : graph.addEdge source target = .ok (isNew, after)) : graph.ProlongedBy after := by
  rcases addEdge_outcome added with ⟨_, _, rfl⟩ | ⟨targets, sources, _, _, _, _, rfl⟩
  · exact .refl _
  · constructor
    · exact List.prefix_rfl
    · rw [Array.toList_push]
      apply List.prefix_append

theorem edges_intern (vertex : Vertex) : (graph.intern vertex).2.edges = graph.edges := by
  unfold intern
  cases graph.lookup vertex <;> rfl

theorem prolonged_intern (vertex : Vertex) : graph.ProlongedBy (graph.intern vertex).2 := by
  unfold intern
  split
  · exact .refl graph
  · constructor
    · rw [push, Array.toList_push]
      apply List.prefix_append
    · exact List.prefix_rfl

theorem WellFormed.serve (wellFormed : graph.WellFormed) {request : Request}
    (admitted : graph.Admits request) :
    ∃ answer after, graph.serve request = .ok (answer, after) := by
  cases request with
  | vertex vertex => exact ⟨_, _, rfl⟩
  | edge source target =>
    obtain ⟨isNew, after, added, _⟩ := wellFormed.addEdge admitted.1 admitted.2
    exact ⟨.isNew isNew, after, serve_edge_eq_ok.mpr ⟨isNew, added, rfl⟩⟩

theorem prolonged_of_serve {request : Request}
    (served : graph.serve request = .ok (answer, after)) : graph.ProlongedBy after := by
  cases request with
  | vertex vertex =>
    cases served
    exact prolonged_intern vertex
  | edge source target =>
    obtain ⟨isNew, added, rfl⟩ := serve_edge_eq_ok.mp served
    exact prolonged_addEdge added

theorem WellFormed.of_serve (wellFormed : graph.WellFormed) {request : Request}
    (served : graph.serve request = .ok (answer, after)) : after.WellFormed := by
  cases request with
  | vertex vertex =>
    cases served
    exact (intern_grown wellFormed vertex).1.wellFormed
  | edge source target =>
    obtain ⟨isNew, added, rfl⟩ := serve_edge_eq_ok.mp served
    obtain ⟨sourceBelow, targetBelow⟩ := wellFormed.below_of_addEdge added
    obtain ⟨_, _, addedToo, afterWellFormed⟩ := wellFormed.addEdge sourceBelow targetBelow
    cases added.symm.trans addedToo
    exact afterWellFormed

theorem WellFormed.mem_edges_serve (wellFormed : graph.WellFormed) {request : Request}
    (served : graph.serve request = .ok (answer, after)) {source target : VertexId} :
    (source, target) ∈ after.edges ↔
      (source, target) ∈ graph.edges ∨ .edge source target = request := by
  cases request with
  | vertex vertex =>
    cases served
    simp [edges_intern]
  | edge origin goal =>
    obtain ⟨isNew, added, rfl⟩ := serve_edge_eq_ok.mp served
    rw [wellFormed.mem_edges_addEdge added, Prod.mk.injEq, Request.edge.injEq]

/-! ### Histories -/

theorem serveAll_cons_eq_ok {request : Request} {rest : List Request} {answers : List Answer} :
    graph.serveAll (request :: rest) = .ok (answers, after) ↔
      ∃ answer middle later, graph.serve request = .ok (answer, middle) ∧
        middle.serveAll rest = .ok (later, after) ∧ answers = answer :: later := by
  constructor
  · intro served
    obtain ⟨⟨answer, middle⟩, first, served⟩ := Checked.bind_eq_ok.mp served
    obtain ⟨⟨later, final⟩, further, served⟩ := Checked.bind_eq_ok.mp served
    cases served
    exact ⟨answer, middle, later, first, further, rfl⟩
  · rintro ⟨answer, middle, later, first, further, rfl⟩
    rw [serveAll, first, Checked.ok_bind]
    show (middle.serveAll rest >>= fun (answers, final) => pure (answer :: answers, final)) = _
    rw [further]
    rfl

theorem serveAll_append_eq_ok {earlier later : List Request} {answers : List Answer} :
    graph.serveAll (earlier ++ later) = .ok (answers, after) ↔
      ∃ early middle late, graph.serveAll earlier = .ok (early, middle) ∧
        middle.serveAll later = .ok (late, after) ∧ answers = early ++ late := by
  induction earlier generalizing graph answers with
  | nil =>
    constructor
    · intro served
      exact ⟨[], graph, answers, rfl, served, rfl⟩
    · rintro ⟨early, middle, late, before, behind, rfl⟩
      cases before
      exact behind
  | cons request rest inductionHypothesis =>
    rw [List.cons_append, serveAll_cons_eq_ok]
    constructor
    · rintro ⟨answer, between, further, served, servedRest, rfl⟩
      obtain ⟨early, middle, late, before, behind, rfl⟩ := inductionHypothesis.mp servedRest
      exact ⟨answer :: early, middle, late,
        serveAll_cons_eq_ok.mpr ⟨answer, between, early, served, before, rfl⟩, behind, rfl⟩
    · rintro ⟨early, middle, late, before, behind, rfl⟩
      obtain ⟨answer, between, further, served, servedRest, rfl⟩ := serveAll_cons_eq_ok.mp before
      exact ⟨answer, between, further ++ late, served,
        inductionHypothesis.mpr ⟨further, middle, late, servedRest, behind, rfl⟩, rfl⟩

theorem WellFormed.serveAll (wellFormed : graph.WellFormed) (admitted : graph.AdmitsAll requests) :
    ∃ answers after, graph.serveAll requests = .ok (answers, after) := by
  induction requests generalizing graph with
  | nil => exact ⟨[], graph, rfl⟩
  | cons request rest inductionHypothesis =>
    obtain ⟨answer, middle, served⟩ := wellFormed.serve admitted.1
    obtain ⟨answers, after, servedRest⟩ :=
      inductionHypothesis (wellFormed.of_serve served) (admitted.2 answer middle served)
    exact ⟨answer :: answers, after, serveAll_cons_eq_ok.mpr
      ⟨answer, middle, answers, served, servedRest, rfl⟩⟩

theorem prolonged_of_serveAll {answers : List Answer}
    (served : graph.serveAll requests = .ok (answers, after)) : graph.ProlongedBy after := by
  induction requests generalizing graph answers with
  | nil =>
    cases served
    exact .refl _
  | cons request rest inductionHypothesis =>
    obtain ⟨answer, middle, later, first, further, rfl⟩ := serveAll_cons_eq_ok.mp served
    exact (prolonged_of_serve first).trans (inductionHypothesis further)

theorem WellFormed.of_serveAll (wellFormed : graph.WellFormed) {answers : List Answer}
    (served : graph.serveAll requests = .ok (answers, after)) : after.WellFormed := by
  induction requests generalizing graph answers with
  | nil =>
    cases served
    exact wellFormed
  | cons request rest inductionHypothesis =>
    obtain ⟨answer, middle, later, first, further, rfl⟩ := serveAll_cons_eq_ok.mp served
    exact inductionHypothesis (wellFormed.of_serve first) further

theorem WellFormed.mem_edges_serveAll (wellFormed : graph.WellFormed) {answers : List Answer}
    (served : graph.serveAll requests = .ok (answers, after)) {source target : VertexId} :
    (source, target) ∈ after.edges ↔
      (source, target) ∈ graph.edges ∨ .edge source target ∈ requests := by
  induction requests generalizing graph answers with
  | nil =>
    cases served
    simp
  | cons request rest inductionHypothesis =>
    obtain ⟨answer, middle, later, first, further, rfl⟩ := serveAll_cons_eq_ok.mp served
    rw [inductionHypothesis (wellFormed.of_serve first) further,
      wellFormed.mem_edges_serve first, or_assoc, List.mem_cons]

theorem WellFormed.answer_eq (wellFormed : graph.WellFormed) {answers : List Answer}
    (served : graph.serveAll requests = .ok (answers, after)) {position : Nat} {vertex : Vertex}
    (asked : requests[position]? = some (.vertex vertex)) :
    ∃ id, answers[position]? = some (.id id) ∧ after.lookup vertex = some id := by
  induction requests generalizing graph answers position with
  | nil => simp at asked
  | cons request rest inductionHypothesis =>
    obtain ⟨answer, middle, later, first, further, rfl⟩ := serveAll_cons_eq_ok.mp served
    have middleWellFormed := wellFormed.of_serve first
    cases position with
    | succ position => exact inductionHypothesis middleWellFormed further asked
    | zero =>
      obtain rfl : request = .vertex vertex := by simpa using asked
      have afterWellFormed := middleWellFormed.of_serveAll further
      cases first
      exact ⟨_, rfl, afterWellFormed.lookup_eq_some.mpr
        ((prolonged_of_serveAll further).kept (intern_grown wellFormed vertex).2)⟩

def Evolves (before after : FlowGraph) : Prop :=
  ∃ requests answers, before.serveAll requests = .ok (answers, after)

theorem Evolves.refl (graph : FlowGraph) : graph.Evolves graph := ⟨[], [], rfl⟩

theorem Evolves.trans {first second third : FlowGraph} (left : first.Evolves second)
    (right : second.Evolves third) : first.Evolves third := by
  obtain ⟨earlier, answers, before⟩ := left
  obtain ⟨later, further, behind⟩ := right
  exact ⟨earlier ++ later, answers ++ further,
    serveAll_append_eq_ok.mpr ⟨answers, second, further, before, behind, rfl⟩⟩

theorem evolves_of_serve {request : Request} (served : graph.serve request = .ok (answer, after)) :
    graph.Evolves after :=
  ⟨[request], [answer], serveAll_cons_eq_ok.mpr ⟨answer, after, [], served, rfl, rfl⟩⟩

theorem evolves_addEdge {source target : VertexId} {isNew : Bool}
    (added : graph.addEdge source target = .ok (isNew, after)) : graph.Evolves after :=
  evolves_of_serve (serve_edge_eq_ok.mpr ⟨isNew, added, rfl⟩)

theorem Evolves.prolonged (evolves : graph.Evolves after) : graph.ProlongedBy after := by
  obtain ⟨requests, answers, served⟩ := evolves
  exact prolonged_of_serveAll served

theorem WellFormed.of_evolves (wellFormed : graph.WellFormed) (evolves : graph.Evolves after) :
    after.WellFormed := by
  obtain ⟨requests, answers, served⟩ := evolves
  exact wellFormed.of_serveAll served

/-! ### Linking -/

theorem evolves_link {program : Program} {call : CallId} {target : VertexId}
    {sources : List VertexId} (linked : graph.link program call target = .ok (sources, after)) :
    graph.Evolves after := by
  exact link_induction (motive := fun graph _ after => graph.Evolves after) .refl
    (fun added further => (evolves_addEdge added).trans further) linked

end FlowGraph

end FunctionFlow
