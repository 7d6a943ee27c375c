import FunctionFlow.Analysis.Query
import FunctionFlow.Analysis.Shared
import FunctionFlow.CallGraph.Basic
import FunctionFlow.Flow.Link

/-!
Contract: demand-driven resolution of calls, in rounds.

The queries of a round all see the graph from before the round. A round that is not the last adds
an edge, and there are finitely many edges to add, hence `converge` ends.
-/

namespace FunctionFlow

/-- The edges that the graph could still take up. -/
def FlowGraph.absentEdges (graph : FlowGraph) : Nat :=
  (cells graph.successorRows.size graph.predecessorRows.size).countP fun cell =>
    !graph.hasEdge cell.1 cell.2

structure Demand where
  graph : FlowGraph
  /-- The calls that are linked, with the values they are linked to. -/
  linked : List (CallId × VertexId)
  /-- The number of edges that each round so far added, the latest first. -/
  added : List Nat
  /-- What the latest queries found for each call. -/
  resolved : List (CallId × List VertexId)
  deriving DecidableEq, Repr, Inhabited

namespace Demand

/-- Links calls to the values found for them, except where they are linked already, and counts the
edges that this adds. -/
def linkFound (program : Program) : (linked : List (CallId × VertexId)) → (graph : FlowGraph) →
    List (CallId × VertexId) → Checked (Nat × List (CallId × VertexId) × FlowGraph)
  | linked, graph, [] => return (0, linked, graph)
  | linked, graph, (call, target) :: rest =>
    if linked.contains (call, target) then linkFound program linked graph rest
    else do
      let (sources, graph) ← graph.link program call target
      let (later, linked, graph) ← linkFound program ((call, target) :: linked) graph rest
      return (sources.length + later, linked, graph)

def queryAll (graph : FlowGraph) (shared : List VertexId) (depth : Nat)
    (callees : List (CallId × VertexId)) : Checked (List (CallId × List VertexId)) :=
  callees.mapM fun (call, callee) => return (call, ← graph.query shared depth callee)

def foundPairs (resolved : List (CallId × List VertexId)) : List (CallId × VertexId) :=
  resolved.flatMap fun (call, targets) => targets.map fun target => (call, target)

/-- One round: query every call, then link what is new. -/
def round (program : Program) (shared : List VertexId) (depth : Nat)
    (callees : List (CallId × VertexId)) (state : Demand) : Checked Demand := do
  let resolved ← queryAll state.graph shared depth callees
  let (added, linked, graph) ← linkFound program state.linked state.graph (foundPairs resolved)
  return { graph, linked, added := added :: state.added, resolved }

private theorem absentEdges_addEdge {graph after : FlowGraph} {source target : VertexId}
    {isNew : Bool} (added : graph.addEdge source target = .ok (isNew, after)) :
    (isNew = false ∧ after = graph) ∨ after.absentEdges < graph.absentEdges := by
  rcases FlowGraph.addEdge_outcome added with
    ⟨_, old, same⟩ | ⟨targets, sources, isAbsent, _, outOf, into, rfl⟩
  · exact .inl ⟨old, same⟩
  · have sourceBelow : source < graph.successorRows.size :=
      (Array.getElem?_eq_some_iff.mp outOf).1
    have targetBelow : target < graph.predecessorRows.size :=
      (Array.getElem?_eq_some_iff.mp into).1
    have inside : (source, target) ∈ cells graph.successorRows.size graph.predecessorRows.size :=
      mem_cells.mpr ⟨sourceBelow, targetBelow⟩
    refine .inr ?_
    unfold FlowGraph.absentEdges
    simp only [Array.size_setIfInBounds]
    refine countP_lt_of_imp inside (fun cell => ?_) ?_ ?_
    · simp only [FlowGraph.hasEdge, List.contains_cons, Bool.not_eq_true', Bool.or_eq_false_iff]
      exact fun both => both.2
    · simpa using isAbsent
    · simp [FlowGraph.hasEdge]

theorem absentEdges_link {program : Program} {call : CallId} {target : VertexId}
    {graph after : FlowGraph} {sources : List VertexId}
    (linked : graph.link program call target = .ok (sources, after)) :
    (sources = [] ∧ after = graph) ∨ after.absentEdges < graph.absentEdges := by
  refine FlowGraph.link_induction (motive := fun graph sources after =>
    (sources = [] ∧ after = graph) ∨ after.absentEdges < graph.absentEdges)
    (fun graph => .inl ⟨rfl, rfl⟩) (fun added further => ?_) linked
  rcases absentEdges_addEdge added with ⟨old, same⟩ | less <;>
    rcases further with ⟨none, same'⟩ | less'
  · exact .inl ⟨by simp [old, none], same'.trans same⟩
  · exact .inr (same ▸ less')
  · exact .inr (same' ▸ less)
  · exact .inr (Nat.lt_trans less' less)

private theorem absentEdges_linkFound {program : Program} {pairs : List (CallId × VertexId)}
    {before after : List (CallId × VertexId)} {graph final : FlowGraph} {added : Nat}
    (linked : linkFound program before graph pairs = .ok (added, after, final)) :
    (added = 0 ∧ final = graph) ∨ final.absentEdges < graph.absentEdges := by
  induction pairs generalizing before graph added with
  | nil =>
    cases linked
    exact .inl ⟨rfl, rfl⟩
  | cons pair rest inductionHypothesis =>
    unfold linkFound at linked
    split at linked
    · exact inductionHypothesis linked
    · obtain ⟨⟨sources, middle⟩, first, linked⟩ := Checked.bind_eq_ok.mp linked
      obtain ⟨⟨later, _, _⟩, further, linked⟩ := Checked.bind_eq_ok.mp linked
      cases linked
      rcases absentEdges_link first with ⟨none, same⟩ | less <;>
        rcases inductionHypothesis further with ⟨zero, same'⟩ | less'
      · exact .inl ⟨by simp [none, zero], same'.trans same⟩
      · exact .inr (same ▸ less')
      · exact .inr (same' ▸ less)
      · exact .inr (Nat.lt_trans less' less)

theorem absentEdges_round {program : Program} {shared : List VertexId} {depth : Nat}
    {callees : List (CallId × VertexId)} {before after : Demand}
    (rounded : before.round program shared depth callees = .ok after)
    (grew : after.added.head? ≠ some 0) : after.graph.absentEdges < before.graph.absentEdges := by
  unfold round at rounded
  obtain ⟨resolved, _, rounded⟩ := Checked.bind_eq_ok.mp rounded
  obtain ⟨⟨added, _, final⟩, linked, rounded⟩ := Checked.bind_eq_ok.mp rounded
  cases rounded
  rcases absentEdges_linkFound linked with ⟨zero, _⟩ | less
  · exact absurd (by simp [zero]) grew
  · exact less

/-- Repeats rounds until one adds no edge. -/
def converge (program : Program) (shared : List VertexId) (depth : Nat)
    (callees : List (CallId × VertexId)) (state : Demand) : Checked Demand :=
  match _next : state.round program shared depth callees with
  | .error failure => .error failure
  | .ok later =>
    if _still : later.added.head? = some 0 then .ok later
    else later.converge program shared depth callees
termination_by state.graph.absentEdges
decreasing_by exact absentEdges_round _next _still

def callGraph (state : Demand) : Checked CallGraph := do
  let pairs ← (foundPairs state.resolved).mapM fun (call, target) => do
    return (Vertex.callee call, ← state.graph.get target)
  return CallGraph.empty.insertAll pairs

end Demand

end FunctionFlow
