import FunctionFlow.Flow.Link
import FunctionFlow.Proofs.Flow.Representation
import FunctionFlow.Proofs.Program.InRange

/-!
Contract: what linking a call to a function does to a well-formed graph.

Linking adds no vertex, so which edges a call and a value ask for never changes while edges are
added.
-/

namespace FunctionFlow.FlowGraph

variable {target : VertexId} {program : Program} {sources : List VertexId} {after : FlowGraph}
  {call : CallId}

/-- An edge between the slots that `call` and the function at `target` tie together. -/
def LinkEdge (graph : FlowGraph) (program : Program) (call : CallId) (target : VertexId)
    (edge : VertexId × VertexId) : Prop :=
  ∃ function site source sink, graph.At target (.function function) ∧
    program.calls[call]? = some site ∧ (source, sink) ∈ linkEdges call function site.arity ∧
    graph.At edge.1 (.slot source) ∧ graph.At edge.2 (.slot sink)

theorem linkEdge_congr {graph other : FlowGraph} (same : graph.vertices = other.vertices)
    {edge : VertexId × VertexId} :
    graph.LinkEdge program call target edge ↔ other.LinkEdge program call target edge := by
  unfold LinkEdge At
  rw [same]

theorem linkEdge_cons {graph : FlowGraph} {rest : List (CallId × VertexId)}
    {edge : VertexId × VertexId} :
    (∃ other value, (other, value) ∈ (call, target) :: rest ∧
      graph.LinkEdge program other value edge) ↔
      graph.LinkEdge program call target edge ∨
        ∃ other value, (other, value) ∈ rest ∧ graph.LinkEdge program other value edge := by
  constructor
  · rintro ⟨other, value, member, asked⟩
    rcases List.mem_cons.mp member with same | later
    · cases same
      exact .inl asked
    · exact .inr ⟨other, value, later, asked⟩
  · rintro (asked | ⟨other, value, later, asked⟩)
    · exact ⟨call, target, List.mem_cons_self, asked⟩
    · exact ⟨other, value, List.mem_cons_of_mem _ later, asked⟩

/-- `after` has the edges of `before` and those asked for; `sources` lists where the new ones
start. -/
structure Tied (before : FlowGraph) (asked : VertexId × VertexId → Prop) (sources : List VertexId)
    (after : FlowGraph) : Prop where
  wellFormed : after.WellFormed
  vertices : after.vertices = before.vertices
  mem_edges : ∀ {edge}, edge ∈ after.edges ↔ edge ∈ before.edges ∨ asked edge
  source_of_new : ∀ {edge}, edge ∈ after.edges → edge ∈ before.edges ∨ edge.1 ∈ sources
  sources_below : ∀ source ∈ sources, source < before.size
  edgeCount : after.edgeCount = before.edgeCount + sources.length

variable {graph : FlowGraph}

theorem Tied.none (wellFormed : graph.WellFormed) {asked : VertexId × VertexId → Prop}
    (nothing : ∀ edge, ¬ asked edge) : graph.Tied asked [] graph where
  wellFormed := wellFormed
  vertices := rfl
  mem_edges := by simp [nothing]
  source_of_new := .inl
  sources_below := by simp
  edgeCount := rfl

theorem Tied.trans {before middle : FlowGraph} {asked askedNext : VertexId × VertexId → Prop}
    {later : List VertexId} (tied : before.Tied asked sources middle)
    (further : middle.Tied askedNext later after) :
    before.Tied (fun edge => asked edge ∨ askedNext edge) (sources ++ later) after where
  wellFormed := further.wellFormed
  vertices := further.vertices.trans tied.vertices
  mem_edges := by
    intro edge
    rw [further.mem_edges, tied.mem_edges, or_assoc]
  source_of_new := by
    intro edge member
    rw [List.mem_append]
    rcases further.source_of_new member with old | new
    · rcases tied.source_of_new old with older | new
      · exact .inl older
      · exact .inr (.inl new)
    · exact .inr (.inr new)
  sources_below := by
    intro source member
    rcases List.mem_append.mp member with early | late
    · exact tied.sources_below source early
    · have below := further.sources_below source late
      rwa [size, tied.vertices] at below
  edgeCount := by
    rw [further.edgeCount, tied.edgeCount, List.length_append, Nat.add_assoc]

theorem Tied.congr {before : FlowGraph} {asked same : VertexId × VertexId → Prop}
    (tied : before.Tied asked sources after) (iff : ∀ edge, asked edge ↔ same edge) :
    before.Tied same sources after :=
  { tied with
    mem_edges := by
      intro edge
      rw [tied.mem_edges, iff] }

theorem addEdge_tied (wellFormed : graph.WellFormed) {source : VertexId}
    (sourceBelow : source < graph.size) (targetBelow : target < graph.size) :
    ∃ isNew after, graph.addEdge source target = .ok (isNew, after) ∧
      graph.Tied (· = (source, target)) (if isNew then [source] else []) after := by
  obtain ⟨isNew, after, added, afterWellFormed⟩ := wellFormed.addEdge sourceBelow targetBelow
  refine ⟨isNew, after, added, afterWellFormed, vertices_addEdge added,
    wellFormed.mem_edges_addEdge added, ?_, ?_, ?_⟩
  · intro edge member
    rcases wellFormed.addEdge_cases added with ⟨_, _, rfl⟩ | ⟨rfl, _, _, edges⟩
    · exact .inl member
    · rw [edges, Array.mem_push] at member
      rcases member with old | rfl
      · exact .inl old
      · exact .inr (by simp)
  · cases isNew with
    | false => simp
    | true => simpa using sourceBelow
  · rcases wellFormed.addEdge_cases added with ⟨rfl, _, rfl⟩ | ⟨rfl, _, _, edges⟩
    · rfl
    · simp [edgeCount, edges]

private def PairEdge (graph : FlowGraph) (pairs : List (Slot × Slot)) (edge : VertexId × VertexId) :
    Prop :=
  ∃ pair ∈ pairs, graph.At edge.1 (.slot pair.1) ∧ graph.At edge.2 (.slot pair.2)

private theorem connect_tied (wellFormed : graph.WellFormed) (pairs : List (Slot × Slot)) :
    ∃ sources after, graph.connect pairs = .ok (sources, after) ∧
      graph.Tied (PairEdge graph pairs) sources after := by
  induction pairs generalizing graph with
  | nil => exact ⟨[], graph, rfl, .none wellFormed (by simp [PairEdge])⟩
  | cons pair rest inductionHypothesis =>
    obtain ⟨source, sink⟩ := pair
    unfold connect
    split
    · rename_i sourceId sinkId sourceFound sinkFound
      have atSource := wellFormed.at_of_lookup sourceFound
      have atSink := wellFormed.at_of_lookup sinkFound
      obtain ⟨isNew, grown, added, tied⟩ := addEdge_tied wellFormed atSource.below atSink.below
      obtain ⟨later, final, connected, tiedRest⟩ := inductionHypothesis tied.wellFormed
      refine ⟨(if isNew then [sourceId] else []) ++ later, final, ?_,
        (tied.trans tiedRest).congr fun edge => ?_⟩
      · simp only [added, Checked.ok_bind, connected]
        cases isNew <;> rfl
      · have isFirst : edge = (sourceId, sinkId) ↔
            graph.At edge.1 (.slot source) ∧ graph.At edge.2 (.slot sink) := by
          constructor
          · rintro rfl
            exact ⟨atSource, atSink⟩
          · rintro ⟨atSource', atSink'⟩
            exact Prod.ext (wellFormed.id_unique atSource' atSource)
              (wellFormed.id_unique atSink' atSink)
        simp only [PairEdge, At, tied.vertices, List.mem_cons, exists_eq_or_imp] at isFirst ⊢
        rw [isFirst]
    · rename_i missing
      obtain ⟨sources, after, connected, tied⟩ := inductionHypothesis wellFormed
      refine ⟨sources, after, connected, tied.congr fun edge => ?_⟩
      have notFirst : ¬ (graph.At edge.1 (.slot source) ∧ graph.At edge.2 (.slot sink)) := by
        rintro ⟨atSource, atSink⟩
        exact missing _ _ (wellFormed.lookup_eq_some.mpr atSource)
          (wellFormed.lookup_eq_some.mpr atSink)
      simp only [PairEdge, List.mem_cons, exists_eq_or_imp]
      exact (or_iff_right notFirst).symm

theorem link_tied (wellFormed : graph.WellFormed) (callInRange : call < program.calls.size)
    (below : target < graph.size) :
    ∃ sources after, graph.link program call target = .ok (sources, after) ∧
      graph.Tied (graph.LinkEdge program call target) sources after := by
  obtain ⟨vertex, atTarget⟩ := exists_at_of_below below
  have atCall : program.calls[call]? = some program.calls[call] :=
    Array.getElem?_eq_getElem callInRange
  unfold link
  rw [get_eq_ok.mpr atTarget, Checked.ok_bind]
  split
  · rename_i function
    obtain ⟨sources, after, connected, tied⟩ :=
      connect_tied wellFormed (linkEdges call function program.calls[call].arity)
    refine ⟨sources, after, ?_, tied.congr fun edge => ?_⟩
    · rw [Program.call, fetch_eq_ok.mpr atCall, Checked.ok_bind]
      exact connected
    · unfold PairEdge LinkEdge
      constructor
      · rintro ⟨⟨source, sink⟩, member, atSource, atSink⟩
        exact ⟨function, _, source, sink, atTarget, atCall, member, atSource, atSink⟩
      · rintro ⟨other, site, source, sink, atTarget', atCall', member, atSource, atSink⟩
        cases atTarget.vertex_unique atTarget'
        cases atCall.symm.trans atCall'
        exact ⟨(source, sink), member, atSource, atSink⟩
  · rename_i notFunction
    refine ⟨[], graph, rfl, .none wellFormed ?_⟩
    rintro edge ⟨function, _, _, _, atTarget', _⟩
    exact notFunction function (atTarget.vertex_unique atTarget')

/-! ### Counting, whatever the graph -/

theorem edgeCount_addEdge {source : VertexId} {isNew : Bool}
    (added : graph.addEdge source target = .ok (isNew, after)) :
    after.edgeCount = graph.edgeCount + if isNew then 1 else 0 := by
  rcases addEdge_outcome added with ⟨_, rfl, rfl⟩ | ⟨targets, sources, _, rfl, _, _, rfl⟩
  · rfl
  · simp [edgeCount]

theorem link_counts (linked : graph.link program call target = .ok (sources, after)) :
    after.vertices = graph.vertices ∧ after.edgeCount = graph.edgeCount + sources.length := by
  refine link_induction (motive := fun graph sources after =>
    after.vertices = graph.vertices ∧ after.edgeCount = graph.edgeCount + sources.length)
    (fun graph => ⟨rfl, rfl⟩) (fun {_ _ _ _ _ isNew _} added further => ?_) linked
  obtain ⟨vertices, edgeCount⟩ := further
  refine ⟨vertices.trans (vertices_addEdge added), ?_⟩
  rw [edgeCount, edgeCount_addEdge added]
  cases isNew with
  | false => simp
  | true =>
    simp only [if_true, List.length_cons]
    omega

end FunctionFlow.FlowGraph
