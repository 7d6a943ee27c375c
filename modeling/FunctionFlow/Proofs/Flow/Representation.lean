import FunctionFlow.Flow.Graph

/-!
Contract: the representation invariant of the flow graph.

Ids never show in what a graph means: two well-formed graphs with the same places and the same
arrows differ in numbering only.
-/

namespace FunctionFlow.FlowGraph

variable {vertex : Vertex} {id source target : VertexId}

def targetsIn (edges : List (VertexId × VertexId)) (id : VertexId) : List VertexId :=
  (edges.filter (·.1 == id)).map (·.2)

def sourcesIn (edges : List (VertexId × VertexId)) (id : VertexId) : List VertexId :=
  (edges.filter (·.2 == id)).map (·.1)

/-- The representation invariant. -/
structure WellFormed (graph : FlowGraph) : Prop where
  verticesDistinct : graph.vertices.toList.Nodup
  indexListed : graph.index.Perm graph.vertices.toList.zipIdx
  edgesDistinct : graph.edges.toList.Nodup
  edgeSetListed : graph.edgeSet.Perm graph.edges.toList
  edgesInside : ∀ edge ∈ graph.edges, edge.1 < graph.size ∧ edge.2 < graph.size
  successorsListed :
    graph.successorRows.toList = (List.range graph.size).map (targetsIn graph.edges.toList)
  predecessorsListed :
    graph.predecessorRows.toList = (List.range graph.size).map (sourcesIn graph.edges.toList)

instance (graph : FlowGraph) : Decidable graph.WellFormed :=
  decidable_of_iff
    (graph.vertices.toList.Nodup ∧ graph.index.Perm graph.vertices.toList.zipIdx ∧
      graph.edges.toList.Nodup ∧ graph.edgeSet.Perm graph.edges.toList ∧
      (∀ edge ∈ graph.edges, edge.1 < graph.size ∧ edge.2 < graph.size) ∧
      graph.successorRows.toList = (List.range graph.size).map (targetsIn graph.edges.toList) ∧
      graph.predecessorRows.toList = (List.range graph.size).map (sourcesIn graph.edges.toList))
    ⟨fun ⟨vertices, index, edges, edgeSet, inside, successors, predecessors⟩ =>
        ⟨vertices, index, edges, edgeSet, inside, successors, predecessors⟩,
      fun ⟨vertices, index, edges, edgeSet, inside, successors, predecessors⟩ =>
        ⟨vertices, index, edges, edgeSet, inside, successors, predecessors⟩⟩

/-- The vertex with the given id. -/
abbrev At (graph : FlowGraph) (id : VertexId) (vertex : Vertex) : Prop :=
  graph.vertices[id]? = some vertex

/-- An edge between two vertices, whatever their ids. -/
def Arrow (graph : FlowGraph) (source target : Vertex) : Prop :=
  ∃ sourceId targetId, graph.At sourceId source ∧ graph.At targetId target ∧
    (sourceId, targetId) ∈ graph.edges

theorem mem_targetsIn {edges : List (VertexId × VertexId)} :
    target ∈ targetsIn edges source ↔ (source, target) ∈ edges := by
  simp [targetsIn]

theorem mem_sourcesIn {edges : List (VertexId × VertexId)} :
    source ∈ sourcesIn edges target ↔ (source, target) ∈ edges := by
  simp [sourcesIn]

theorem At.below {graph : FlowGraph} (found : graph.At id vertex) : id < graph.size :=
  (Array.getElem?_eq_some_iff.mp found).1

theorem At.mem {graph : FlowGraph} (found : graph.At id vertex) : vertex ∈ graph.vertices :=
  Array.mem_of_getElem? found

theorem At.vertex_unique {graph : FlowGraph} {other : Vertex} (found : graph.At id vertex)
    (again : graph.At id other) : vertex = other :=
  Option.some.inj (found.symm.trans again)

theorem get_eq_ok {graph : FlowGraph} : graph.get id = .ok vertex ↔ graph.At id vertex :=
  fetch_eq_ok

theorem exists_at_of_below {graph : FlowGraph} (below : id < graph.size) :
    ∃ vertex, graph.At id vertex :=
  ⟨graph.vertices[id], Array.getElem?_eq_getElem below⟩

theorem exists_at_of_mem {graph : FlowGraph} (member : vertex ∈ graph.vertices) :
    ∃ id, graph.At id vertex :=
  Array.mem_iff_getElem?.mp member

theorem Arrow.source_mem {graph : FlowGraph} {source target : Vertex}
    (arrow : graph.Arrow source target) : source ∈ graph.vertices := by
  obtain ⟨_, _, atSource, _, _⟩ := arrow
  exact atSource.mem

theorem Arrow.target_mem {graph : FlowGraph} {source target : Vertex}
    (arrow : graph.Arrow source target) : target ∈ graph.vertices := by
  obtain ⟨_, _, _, atTarget, _⟩ := arrow
  exact atTarget.mem

theorem wellFormed_empty : ({} : FlowGraph).WellFormed := by
  decide

theorem vertices_addEdge {graph after : FlowGraph} {isNew : Bool}
    (added : graph.addEdge source target = .ok (isNew, after)) :
    after.vertices = graph.vertices := by
  rcases addEdge_outcome added with ⟨_, _, rfl⟩ | ⟨targets, sources, _, _, _, _, rfl⟩
  · rfl
  · rfl

namespace WellFormed

variable {graph : FlowGraph}

section

variable (wellFormed : graph.WellFormed)
include wellFormed

theorem id_unique {other : VertexId} (found : graph.At id vertex)
    (again : graph.At other vertex) : id = other := by
  have below : id < graph.vertices.toList.length := found.below
  refine (List.getElem?_inj below wellFormed.verticesDistinct).mp ?_
  rw [Array.getElem?_toList, Array.getElem?_toList, found, again]

theorem mem_index :
    (vertex, id) ∈ graph.index ↔ graph.At id vertex := by
  rw [wellFormed.indexListed.mem_iff, List.mem_zipIdx_iff_getElem?, Array.getElem?_toList]

theorem at_of_lookup (found : graph.lookup vertex = some id) :
    graph.At id vertex := by
  obtain ⟨before, after, listed, _⟩ := List.lookup_eq_some_iff.mp found
  exact wellFormed.mem_index.mp (by simp [listed])

theorem lookup_eq_none :
    graph.lookup vertex = none ↔ vertex ∉ graph.vertices := by
  rw [FlowGraph.lookup, List.lookup_eq_none_iff]
  constructor
  · intro absent member
    obtain ⟨id, found⟩ := exists_at_of_mem member
    simpa using absent (vertex, id) (wellFormed.mem_index.mpr found)
  · rintro absent ⟨other, id⟩ member
    have found := wellFormed.mem_index.mp member
    have apart : vertex ≠ other := fun same => absent (same ▸ found.mem)
    simpa using apart

theorem lookup_eq_some :
    graph.lookup vertex = some id ↔ graph.At id vertex := by
  constructor
  · exact wellFormed.at_of_lookup
  · intro found
    cases looked : graph.lookup vertex with
    | none => exact absurd found.mem (wellFormed.lookup_eq_none.mp looked)
    | some other => rw [wellFormed.id_unique found (wellFormed.at_of_lookup looked)]

theorem ends_of_edge (edge : (source, target) ∈ graph.edges) :
    ∃ sourceVertex targetVertex, graph.At source sourceVertex ∧ graph.At target targetVertex := by
  obtain ⟨sourceBelow, targetBelow⟩ := wellFormed.edgesInside _ edge
  obtain ⟨sourceVertex, atSource⟩ := exists_at_of_below sourceBelow
  obtain ⟨targetVertex, atTarget⟩ := exists_at_of_below targetBelow
  exact ⟨sourceVertex, targetVertex, atSource, atTarget⟩

theorem successors_eq (below : id < graph.size) :
    graph.successors id = .ok (targetsIn graph.edges.toList id) := by
  refine fetch_eq_ok.mpr ?_
  rw [← Array.getElem?_toList, wellFormed.successorsListed]
  simp [below]

theorem predecessors_eq (below : id < graph.size) :
    graph.predecessors id = .ok (sourcesIn graph.edges.toList id) := by
  refine fetch_eq_ok.mpr ?_
  rw [← Array.getElem?_toList, wellFormed.predecessorsListed]
  simp [below]

/-! ### Interning -/

theorem push (isNew : vertex ∉ graph.vertices) :
    (graph.push vertex).WellFormed := by
  have none_leave : targetsIn graph.edges.toList graph.size = [] := by
    refine List.eq_nil_iff_forall_not_mem.mpr fun target member => ?_
    have edge := Array.mem_toList_iff.mp (mem_targetsIn.mp member)
    exact Nat.lt_irrefl _ (wellFormed.edgesInside _ edge).1
  have none_enter : sourcesIn graph.edges.toList graph.size = [] := by
    refine List.eq_nil_iff_forall_not_mem.mpr fun source member => ?_
    have edge := Array.mem_toList_iff.mp (mem_sourcesIn.mp member)
    exact Nat.lt_irrefl _ (wellFormed.edgesInside _ edge).2
  have grown : (graph.push vertex).size = graph.size + 1 := Array.size_push ..
  refine ⟨?_, ?_, wellFormed.edgesDistinct, wellFormed.edgeSetListed, ?_, ?_, ?_⟩
  · simp only [FlowGraph.push, Array.toList_push]
    refine List.nodup_append.mpr ⟨wellFormed.verticesDistinct, by simp, ?_⟩
    rintro other member _ single rfl
    rw [List.mem_singleton] at single
    exact isNew (single ▸ Array.mem_toList_iff.mp member)
  · simp only [FlowGraph.push, Array.toList_push, List.zipIdx_append, List.zipIdx_singleton,
      Nat.zero_add, Array.length_toList]
    exact (wellFormed.indexListed.cons _).trans (List.perm_append_singleton _ _).symm
  · intro edge member
    obtain ⟨sourceBelow, targetBelow⟩ := wellFormed.edgesInside edge member
    rw [grown]
    exact ⟨Nat.lt_succ_of_lt sourceBelow, Nat.lt_succ_of_lt targetBelow⟩
  · rw [grown, List.range_succ, List.map_append]
    simp only [FlowGraph.push, Array.toList_push, wellFormed.successorsListed, List.map_cons,
      List.map_nil, none_leave]
  · rw [grown, List.range_succ, List.map_append]
    simp only [FlowGraph.push, Array.toList_push, wellFormed.predecessorsListed, List.map_cons,
      List.map_nil, none_enter]

/-! ### Adding an edge -/

theorem hasEdge_eq_true :
    graph.hasEdge source target = true ↔ (source, target) ∈ graph.edges := by
  rw [FlowGraph.hasEdge, List.contains_iff_mem, wellFormed.edgeSetListed.mem_iff,
    Array.mem_toList_iff]

theorem addEdge_cases {after : FlowGraph} {isNew : Bool}
    (added : graph.addEdge source target = .ok (isNew, after)) :
    (isNew = false ∧ (source, target) ∈ graph.edges ∧ after = graph) ∨
      (isNew = true ∧ (source, target) ∉ graph.edges ∧ after.vertices = graph.vertices ∧
        after.edges = graph.edges.push (source, target)) := by
  rcases addEdge_outcome added with
    ⟨present, old, same⟩ | ⟨targets, sources, absent, new, _, _, rfl⟩
  · exact .inl ⟨old, wellFormed.hasEdge_eq_true.mp present, same⟩
  · have isAbsent := mt wellFormed.hasEdge_eq_true.mpr (Bool.eq_false_iff.mp absent)
    exact .inr ⟨new, isAbsent, rfl, rfl⟩

theorem mem_edges_addEdge {after : FlowGraph} {isNew : Bool}
    (added : graph.addEdge source target = .ok (isNew, after)) {edge : VertexId × VertexId} :
    edge ∈ after.edges ↔ edge ∈ graph.edges ∨ edge = (source, target) := by
  rcases wellFormed.addEdge_cases added with ⟨_, present, rfl⟩ | ⟨_, _, _, edges⟩
  · constructor
    · exact .inl
    · rintro (old | rfl)
      · exact old
      · exact present
  · rw [edges, Array.mem_push]

end

private theorem rows_set {rows : Array (List VertexId)} {size id : Nat} {last : VertexId}
    {before after : Nat → List VertexId} (listed : rows.toList = (List.range size).map before)
    (atId : after id = before id ++ [last])
    (elsewhere : ∀ other, other ≠ id → after other = before other) :
    (rows.setIfInBounds id (before id ++ [last])).toList = (List.range size).map after := by
  refine List.ext_getElem? fun position => ?_
  rw [Array.toList_setIfInBounds, listed, List.getElem?_set, List.getElem?_map, List.getElem?_map]
  by_cases same : id = position
  · subst same
    simp only [if_true, List.length_map, List.length_range]
    by_cases below : id < size
    · simp [below, atId]
    · simp [below]
  · rw [if_neg same]
    by_cases below : position < size
    · simp [below, elsewhere position fun h => same h.symm]
    · simp [below]

private theorem targetsIn_append (edges : List (VertexId × VertexId))
    (source target id : VertexId) :
    targetsIn (edges ++ [(source, target)]) id =
      targetsIn edges id ++ if source = id then [target] else [] := by
  by_cases same : source = id <;> simp [targetsIn, same]

private theorem sourcesIn_append (edges : List (VertexId × VertexId))
    (source target id : VertexId) :
    sourcesIn (edges ++ [(source, target)]) id =
      sourcesIn edges id ++ if target = id then [source] else [] := by
  by_cases same : target = id <;> simp [sourcesIn, same]

private def withEdge (graph : FlowGraph) (source target : VertexId) : FlowGraph :=
  { graph with
    edges := graph.edges.push (source, target)
    edgeSet := (source, target) :: graph.edgeSet
    successorRows := graph.successorRows.setIfInBounds source
      (targetsIn graph.edges.toList source ++ [target])
    predecessorRows := graph.predecessorRows.setIfInBounds target
      (sourcesIn graph.edges.toList target ++ [source]) }

private theorem withEdge_wellFormed (wellFormed : graph.WellFormed)
    (sourceBelow : source < graph.size) (targetBelow : target < graph.size)
    (absent : (source, target) ∉ graph.edges) : (withEdge graph source target).WellFormed := by
  refine ⟨wellFormed.verticesDistinct, wellFormed.indexListed, ?_, ?_, ?_, ?_, ?_⟩
  · simp only [withEdge, Array.toList_push]
    refine List.nodup_append.mpr ⟨wellFormed.edgesDistinct, by simp, ?_⟩
    rintro other member _ single rfl
    rw [List.mem_singleton] at single
    exact absent (single ▸ Array.mem_toList_iff.mp member)
  · simp only [withEdge, Array.toList_push]
    exact (wellFormed.edgeSetListed.cons _).trans (List.perm_append_singleton _ _).symm
  · intro edge member
    rcases Array.mem_push.mp member with old | rfl
    · exact wellFormed.edgesInside edge old
    · exact ⟨sourceBelow, targetBelow⟩
  · refine rows_set wellFormed.successorsListed ?_ fun other apart => ?_
    · simp [withEdge, targetsIn_append]
    · simp [withEdge, targetsIn_append, apart.symm]
  · refine rows_set wellFormed.predecessorsListed ?_ fun other apart => ?_
    · simp [withEdge, sourcesIn_append]
    · simp [withEdge, sourcesIn_append, apart.symm]

theorem addEdge (wellFormed : graph.WellFormed) (sourceBelow : source < graph.size)
    (targetBelow : target < graph.size) :
    ∃ isNew after, graph.addEdge source target = .ok (isNew, after) ∧ after.WellFormed := by
  by_cases present : graph.hasEdge source target = true
  · refine ⟨false, graph, ?_, wellFormed⟩
    simp only [FlowGraph.addEdge, present, if_true]
    rfl
  · have absent : (source, target) ∉ graph.edges := fun edge =>
      present (wellFormed.hasEdge_eq_true.mpr edge)
    refine ⟨true, withEdge graph source target, ?_,
      wellFormed.withEdge_wellFormed sourceBelow targetBelow absent⟩
    simp only [FlowGraph.addEdge, if_neg present, wellFormed.successors_eq sourceBelow,
      wellFormed.predecessors_eq targetBelow]
    rfl

end WellFormed

end FunctionFlow.FlowGraph
