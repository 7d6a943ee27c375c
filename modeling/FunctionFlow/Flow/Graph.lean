import FunctionFlow.Flow.Vertex

/-!
Contract: the flow graph.

An edge from `a` to `b` says that a function value at `a` may also be at `b`. Both the vertices
and the edges keep the order in which they were added, and so do the rows of neighbours. Whether a
vertex or an edge is there is answered by an index and by a set of edges, which have no order.
-/

namespace FunctionFlow

structure FlowGraph where
  vertices : Array Vertex := #[]
  index : List (Vertex × VertexId) := vertices.toList.zipIdx
  edges : Array (VertexId × VertexId) := #[]
  edgeSet : List (VertexId × VertexId) := edges.toList
  successorRows : Array (List VertexId) := #[]
  predecessorRows : Array (List VertexId) := #[]
  deriving DecidableEq, Repr, Inhabited

namespace FlowGraph

def size (graph : FlowGraph) : Nat := graph.vertices.size

def edgeCount (graph : FlowGraph) : Nat := graph.edges.size

def lookup (graph : FlowGraph) (vertex : Vertex) : Option VertexId :=
  graph.index.lookup vertex

def get (graph : FlowGraph) (id : VertexId) : Checked Vertex :=
  fetch graph.vertices id (.vertex id)

def push (graph : FlowGraph) (vertex : Vertex) : FlowGraph where
  vertices := graph.vertices.push vertex
  index := (vertex, graph.size) :: graph.index
  edges := graph.edges
  edgeSet := graph.edgeSet
  successorRows := graph.successorRows.push []
  predecessorRows := graph.predecessorRows.push []

/-- The id of a vertex, which is added if the graph does not have it. -/
def intern (graph : FlowGraph) (vertex : Vertex) : VertexId × FlowGraph :=
  match graph.lookup vertex with
  | some id => (id, graph)
  | none => (graph.size, graph.push vertex)

def hasEdge (graph : FlowGraph) (source target : VertexId) : Bool :=
  graph.edgeSet.contains (source, target)

def successors (graph : FlowGraph) (id : VertexId) : Checked (List VertexId) :=
  fetch graph.successorRows id (.vertex id)

def predecessors (graph : FlowGraph) (id : VertexId) : Checked (List VertexId) :=
  fetch graph.predecessorRows id (.vertex id)

/-- Adds an edge, and says whether it is new. -/
def addEdge (graph : FlowGraph) (source target : VertexId) : Checked (Bool × FlowGraph) :=
  if graph.hasEdge source target then return (false, graph)
  else do
    let targets ← graph.successors source
    let sources ← graph.predecessors target
    return (true,
      { graph with
        edges := graph.edges.push (source, target)
        edgeSet := (source, target) :: graph.edgeSet
        successorRows := graph.successorRows.setIfInBounds source (targets ++ [target])
        predecessorRows := graph.predecessorRows.setIfInBounds target (sources ++ [source]) })

/-- An edge that is there changes nothing; any other goes to the end of the edges and of the rows
that its ends have. -/
theorem addEdge_outcome {graph after : FlowGraph} {source target : VertexId} {isNew : Bool}
    (added : graph.addEdge source target = .ok (isNew, after)) :
    (graph.hasEdge source target = true ∧ isNew = false ∧ after = graph) ∨
      ∃ targets sources, graph.hasEdge source target = false ∧ isNew = true ∧
        graph.successorRows[source]? = some targets ∧
        graph.predecessorRows[target]? = some sources ∧
        after = { graph with
          edges := graph.edges.push (source, target)
          edgeSet := (source, target) :: graph.edgeSet
          successorRows := graph.successorRows.setIfInBounds source (targets ++ [target])
          predecessorRows := graph.predecessorRows.setIfInBounds target (sources ++ [source]) } := by
  unfold addEdge at added
  split at added
  · rename_i present
    cases added
    exact .inl ⟨present, rfl, rfl⟩
  · rename_i absent
    obtain ⟨targets, outOf, added⟩ := Checked.bind_eq_ok.mp added
    obtain ⟨sources, into, added⟩ := Checked.bind_eq_ok.mp added
    cases added
    exact .inr ⟨targets, sources, Bool.eq_false_iff.mpr absent, rfl, fetch_eq_ok.mp outOf,
      fetch_eq_ok.mp into, rfl⟩

def valueIds (graph : FlowGraph) : List VertexId :=
  graph.vertices.toList.zipIdx.filterMap fun (vertex, id) => if vertex.isValue then some id else none

def dump (program : Program) (graph : FlowGraph) : Checked (List String) :=
  graph.edges.toList.mapM fun (source, target) => do
    let sourceLabel ← (← graph.get source).label program
    let targetLabel ← (← graph.get target).label program
    return s!"{sourceLabel} => {targetLabel}"

end FlowGraph

abbrev Build := StateT FlowGraph Checked

namespace Build

def vertex (vertex : Vertex) : Build VertexId := do
  let (id, graph) := (← get).intern vertex
  set graph
  return id

def edge (source target : VertexId) : Build Bool := do
  let (isNew, graph) ← (← get).addEdge source target
  set graph
  return isNew

/-- Lets the value at `source`, if there is one, flow to another vertex. -/
def flow (source : Option VertexId) (target : VertexId) : Build Unit :=
  match source with
  | some source => if source = target then return () else discard <| edge source target
  | none => return ()

end Build

end FunctionFlow
