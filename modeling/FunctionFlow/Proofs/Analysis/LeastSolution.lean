import FunctionFlow.Proofs.Analysis.Propagation
import FunctionFlow.Proofs.CallGraph.Order
import FunctionFlow.Proofs.Flow.Heads

/-!
Contract: forward propagation computes the least closed family.
-/

namespace FunctionFlow.Propagation

variable {program : Program} {origin : FlowGraph} {state : Propagation}
  {owed : VertexId → VertexId → VertexId → Prop} {unlinked : CallId → VertexId → Prop}

/-- The state knows just the derived flow of `origin`, and has linked the calls that it implies. -/
structure Solved (program : Program) (origin : FlowGraph) (state : Propagation) : Prop where
  consistent : state.Consistent program origin noDebt allLinked
  holds_iff : ∀ {id value vertex found}, origin.At id vertex → origin.At value found →
    (state.facts.holds id value ↔ Reaches program origin found vertex)

theorem Consistent.complete (consistent : state.Consistent program origin noDebt allLinked)
    (wellFormed : origin.WellFormed) (nothingWaits : state.worklist = [])
    (valuesKnown : ∀ value found, origin.At value found → found.isValue →
      state.facts.holds value value)
    {id value : VertexId} {vertex found : Vertex} (reached : Reaches program origin found vertex)
    (atVertex : origin.At id vertex) (atValue : origin.At value found) :
    state.facts.holds id value := by
  have passes {source target known : VertexId} (edge : (source, target) ∈ state.graph.edges)
      (here : state.facts.holds source known) : state.facts.holds target known := by
    rcases consistent.delivered edge here with waits | arrived | owing
    · have queued := consistent.waitingQueued waits
      rw [nothingWaits] at queued
      cases queued
    · exact arrived
    · exact owing.elim
  induction reached generalizing id value with
  | value _ isValue =>
    cases wellFormed.id_unique atVertex atValue
    exact valuesKnown id _ atValue isValue
  | arrow _ arrow inductionHypothesis =>
    obtain ⟨source, target, atSource, atTarget, edge⟩ := arrow
    cases wellFormed.id_unique atVertex atTarget
    exact passes (consistent.edges.mpr (.inl edge)) (inductionHypothesis atSource atValue)
  | link member isCall called tied reached calledHypothesis inductionHypothesis =>
    -- values leave only vertices that the graph has, so the edge of the pair has both its ends
    obtain ⟨source, atSource⟩ := FlowGraph.exists_at_of_mem (reached.source_mem tied)
    obtain ⟨callee, atCallee⟩ := FlowGraph.exists_at_of_mem member
    obtain ⟨target, atTarget⟩ := FlowGraph.exists_at_of_mem called.isValue.1
    have linked := consistent.linked_of_holds atCallee (calledHypothesis atCallee atTarget)
    have edge : (source, id) ∈ state.graph.edges :=
      consistent.edges.mpr (.inr ⟨_, _, linked, _, _, _, _, atTarget, isCall, tied, atSource,
        atVertex⟩)
    exact passes edge (inductionHypothesis atSource atValue)

theorem run_solved (wellFormed : origin.WellFormed) (namesCalls : origin.NamesCalls program) :
    ∃ first final, start program origin = .ok first ∧ first.run program = .ok final ∧
      final.Solved program origin := by
  obtain ⟨first, started, firstConsistent, valuesKnown⟩ := start_consistent wellFormed namesCalls
  obtain ⟨final, ran, nothingWaits, consistent, extended⟩ :=
    run_consistent namesCalls firstConsistent
  refine ⟨first, final, started, ran, consistent, fun atVertex atValue => ⟨fun known => ?_,
    fun reached => ?_⟩⟩
  · exact consistent.reaches known atVertex atValue
  · exact consistent.complete wellFormed nothingWaits
      (fun value found atFound isValue => extended.facts (valuesKnown value found atFound isValue))
      reached atVertex atValue

/-! ### What a state stands for -/

/-- The values known to reach a vertex, as vertices. -/
def known (state : Propagation) (vertex : Vertex) : Set Vertex :=
  {found | ∃ id value, state.graph.At id vertex ∧ value ∈ state.facts.row id ∧
    state.graph.At value found}

private theorem Consistent.calleeRow_eq (consistent : state.Consistent program origin owed unlinked)
    {id : VertexId} {vertex : Vertex} (atVertex : state.graph.At id vertex) :
    ∃ row, state.calleeRow vertex id = .ok row ∧
      ∀ pair, pair ∈ row ↔ pair.1 = vertex ∧ (∃ call, vertex = .callee call) ∧
        ∃ target ∈ state.facts.row id, state.graph.At target pair.2 := by
  have below : id < state.facts.rows.size :=
    consistent.factRows ▸ (consistent.at_iff.mp atVertex).below
  unfold calleeRow
  split
  · rename_i call
    have total : ∀ target ∈ state.facts.row id, ∃ pair,
        (do return (Vertex.callee call, ← state.graph.get target) : Checked (Vertex × Vertex)) =
          .ok pair := by
      intro target inRow
      obtain ⟨found, atTarget, _⟩ := consistent.isValue (FactTable.mem_row.mp inRow)
      rw [FlowGraph.get_eq_ok.mpr (consistent.at_iff.mpr atTarget)]
      exact ⟨_, rfl⟩
    obtain ⟨row, computed, mem_row⟩ := Checked.mapM_eq_ok total
    refine ⟨row, Checked.bind_eq_ok.mpr ⟨_, FactTable.get_eq_ok below, computed⟩, fun pair => ?_⟩
    rw [mem_row]
    constructor
    · rintro ⟨target, inRow, made⟩
      obtain ⟨found, got, made⟩ := Checked.bind_eq_ok.mp made
      cases made
      exact ⟨rfl, ⟨call, rfl⟩, target, inRow, FlowGraph.get_eq_ok.mp got⟩
    · rintro ⟨same, _, target, inRow, atTarget⟩
      refine ⟨target, inRow, ?_⟩
      rw [FlowGraph.get_eq_ok.mpr atTarget]
      exact congrArg Except.ok (Prod.ext same.symm rfl)
  · rename_i notCallee
    refine ⟨[], rfl, fun pair => ⟨fun member => absurd member List.not_mem_nil, ?_⟩⟩
    rintro ⟨_, ⟨call, same⟩, _⟩
    exact absurd same (notCallee call)

theorem Consistent.callGraph_known (consistent : state.Consistent program origin owed unlinked) :
    ∃ calls, state.callGraph = .ok calls ∧ calls.Increasing ∧ ∀ pair, pair ∈ calls.pairs ↔
      ∃ call, pair.1 = .callee call ∧ pair.2 ∈ state.known (.callee call) := by
  have atItem {vertex : Vertex} {id : VertexId} :
      (vertex, id) ∈ state.graph.vertices.toList.zipIdx ↔ state.graph.At id vertex := by
    rw [List.mem_zipIdx_iff_getElem?, Array.getElem?_toList, FlowGraph.At]
  obtain ⟨rows, computed, mem_rows⟩ := Checked.mapM_eq_ok fun (item : Vertex × VertexId)
    (member : item ∈ state.graph.vertices.toList.zipIdx) =>
      (consistent.calleeRow_eq (atItem.mp member)).imp fun _ => And.left
  refine ⟨CallGraph.empty.insertAll rows.flatten, ?_, CallGraph.increasing_empty.insertAll _,
    fun pair => ?_⟩
  · unfold callGraph calleePairs
    exact congrArg (fun rows => (rows >>= fun rows => pure rows.flatten) >>= fun pairs =>
      pure (CallGraph.empty.insertAll pairs)) computed
  · rw [CallGraph.mem_empty_insertAll, List.mem_flatten]
    constructor
    · rintro ⟨row, member, inRow⟩
      obtain ⟨⟨vertex, id⟩, itemMember, made⟩ := (mem_rows row).mp member
      obtain ⟨row', made', mem_row⟩ := consistent.calleeRow_eq (atItem.mp itemMember)
      cases made.symm.trans made'
      obtain ⟨same, ⟨call, rfl⟩, target, isKnown, atTarget⟩ := (mem_row pair).mp inRow
      exact ⟨call, same, id, target, atItem.mp itemMember, isKnown, atTarget⟩
    · rintro ⟨call, same, id, target, atCallee, isKnown, atTarget⟩
      obtain ⟨row, made, mem_row⟩ := consistent.calleeRow_eq atCallee
      exact ⟨row, (mem_rows row).mpr ⟨(.callee call, id), atItem.mpr atCallee, made⟩,
        (mem_row pair).mpr ⟨same, ⟨call, rfl⟩, target, isKnown, atTarget⟩⟩

namespace Solved

variable (solved : state.Solved program origin)
include solved

theorem mem_known {vertex found : Vertex} (member : vertex ∈ origin.vertices) :
    found ∈ state.known vertex ↔ Reaches program origin found vertex := by
  constructor
  · rintro ⟨id, value, atVertex, inRow, atValue⟩
    rw [solved.consistent.at_iff] at atVertex atValue
    exact (solved.holds_iff atVertex atValue).mp (FactTable.mem_row.mp inRow)
  · intro reached
    obtain ⟨id, atVertex⟩ := FlowGraph.exists_at_of_mem member
    obtain ⟨value, atValue⟩ := FlowGraph.exists_at_of_mem reached.isValue.1
    exact ⟨id, value, solved.consistent.at_iff.mpr atVertex,
      FactTable.mem_row.mpr ((solved.holds_iff atVertex atValue).mpr reached),
      solved.consistent.at_iff.mpr atValue⟩

theorem row_below {id value : VertexId} (inRow : value ∈ state.facts.row id) :
    value < origin.size := by
  obtain ⟨found, atValue, _⟩ := solved.consistent.isValue (FactTable.mem_row.mp inRow)
  exact atValue.below

theorem callGraph_eq :
    ∃ calls, state.callGraph = .ok calls ∧ calls.Increasing ∧ ∀ pair, pair ∈ calls.pairs ↔
      ∃ call, pair.1 = .callee call ∧ Reaches program origin pair.2 (.callee call) := by
  obtain ⟨calls, computed, increasing, mem_calls⟩ := solved.consistent.callGraph_known
  refine ⟨calls, computed, increasing, fun pair => ?_⟩
  rw [mem_calls]
  constructor
  · rintro ⟨call, same, isKnown⟩
    have member : .callee call ∈ origin.vertices := by
      obtain ⟨_, _, atCallee, _⟩ := isKnown
      exact (solved.consistent.at_iff.mp atCallee).mem
    exact ⟨call, same, (solved.mem_known member).mp isKnown⟩
  · rintro ⟨call, same, reached⟩
    have member : .callee call ∈ origin.vertices := reached.arrives.resolve_right id
    exact ⟨call, same, (solved.mem_known member).mpr reached⟩

theorem arrow_iff {source target : Vertex} :
    state.graph.Arrow source target ↔ origin.Arrow source target ∨
      ∃ call site function slot sink, program.calls[call]? = some site ∧
        Reaches program origin (.function function) (.callee call) ∧
        (slot, sink) ∈ linkEdges call function site.arity ∧
        source = .slot slot ∧ target = .slot sink ∧
        source ∈ origin.vertices ∧ target ∈ origin.vertices := by
  constructor
  · rintro ⟨sourceId, targetId, atSource, atTarget, edge⟩
    rw [solved.consistent.at_iff] at atSource atTarget
    rcases solved.consistent.edges.mp edge with old | ⟨call, value, linked, function, site, slot,
      sink, atValue, isCall, tied, atSlot, atSink⟩
    · exact .inl ⟨sourceId, targetId, atSource, atTarget, old⟩
    · obtain ⟨_, found, _, _, atValue', reached⟩ := solved.consistent.linkedReached linked
      cases atValue.vertex_unique atValue'
      exact .inr ⟨call, site, function, slot, sink, isCall, reached, tied,
        atSource.vertex_unique atSlot, atTarget.vertex_unique atSink, atSource.mem, atTarget.mem⟩
  · rintro (⟨sourceId, targetId, atSource, atTarget, edge⟩ | ⟨call, site, function, slot, sink,
      isCall, reached, tied, rfl, rfl, sourceMember, targetMember⟩)
    · exact ⟨sourceId, targetId, solved.consistent.at_iff.mpr atSource,
        solved.consistent.at_iff.mpr atTarget, solved.consistent.edges.mpr (.inl edge)⟩
    · obtain ⟨sourceId, atSource⟩ := FlowGraph.exists_at_of_mem sourceMember
      obtain ⟨targetId, atTarget⟩ := FlowGraph.exists_at_of_mem targetMember
      obtain ⟨callee, atCallee⟩ := FlowGraph.exists_at_of_mem (reached.arrives.resolve_right id)
      obtain ⟨value, atValue⟩ := FlowGraph.exists_at_of_mem reached.isValue.1
      have linked := solved.consistent.linked_of_holds atCallee
        ((solved.holds_iff atCallee atValue).mpr reached)
      exact ⟨sourceId, targetId, solved.consistent.at_iff.mpr atSource,
        solved.consistent.at_iff.mpr atTarget, solved.consistent.edges.mpr (.inr ⟨call, value,
          linked, function, site, slot, sink, atValue, isCall, tied, atSource, atTarget⟩)⟩

end Solved

/-- Propagation over any well-formed graph ends with the least closed family: what it knows at a
vertex of the graph is the set of that vertex, its call graph pairs every callee with its set, and
its edges are those of the graph and those of the pairs, as far as the graph has their ends. -/
theorem propagation_least (program : Program) (graph : FlowGraph) (wellFormed : graph.WellFormed)
    (namesCalls : graph.NamesCalls program) :
    ∃ first final calls family, start program graph = .ok first ∧
      first.run program = .ok final ∧ final.callGraph = .ok calls ∧
      IsLeast {family | graph.Closed program family} family ∧
      (∀ vertex ∈ graph.vertices, final.known vertex = family vertex) ∧
      (∀ id, ∀ value ∈ final.facts.row id, value < graph.size) ∧
      (∀ pair, pair ∈ calls.pairs ↔ ∃ call, pair.1 = .callee call ∧ pair.2 ∈ family pair.1) ∧
      final.graph.vertices = graph.vertices ∧
      ∀ source target, final.graph.Arrow source target ↔ graph.Arrow source target ∨
        ∃ call site function slot sink, program.calls[call]? = some site ∧
          .function function ∈ family (.callee call) ∧
          (slot, sink) ∈ linkEdges call function site.arity ∧
          source = .slot slot ∧ target = .slot sink ∧
          source ∈ graph.vertices ∧ target ∈ graph.vertices := by
  obtain ⟨first, final, started, ran, solved⟩ := run_solved wellFormed namesCalls
  obtain ⟨calls, computed, _, mem_calls⟩ := solved.callGraph_eq
  refine ⟨first, final, calls, _, started, ran, computed, isLeast_reached namesCalls,
    fun vertex member => Set.ext fun found => solved.mem_known member,
    fun _ _ inRow => solved.row_below inRow, fun pair => ?_, solved.consistent.vertices,
    fun _ _ => solved.arrow_iff⟩
  rw [mem_calls]
  constructor
  · rintro ⟨call, same, reached⟩
    exact ⟨call, same, same ▸ reached⟩
  · rintro ⟨call, same, reached⟩
    exact ⟨call, same, same ▸ reached⟩

def oneCall : Program := { calls := #[default] }

def oneCallFlow : FlowGraph where
  vertices := #[.function 0, .callee 0, .slot (.returned 0), .slot (.result 0)]
  edges := #[(0, 1)]
  successorRows := #[[1], [], [], []]
  predecessorRows := #[[], [0], [], []]

theorem namesCalls_oneCallFlow : oneCallFlow.NamesCalls oneCall := by
  intro call member
  have isFirst : call = 0 := by simpa [oneCallFlow] using member
  subst isFirst
  decide

/-- Propagation finds the function at the callee and ties its returned value to the result. -/
theorem propagation_links_oneCall :
    oneCallFlow.WellFormed ∧ ∃ first final calls, start oneCall oneCallFlow = .ok first ∧
      first.run oneCall = .ok final ∧ final.callGraph = .ok calls ∧
      (.callee 0, .function 0) ∈ calls.pairs ∧
      final.graph.Arrow (.slot (.returned 0)) (.slot (.result 0)) := by
  refine ⟨by decide, ?_⟩
  obtain ⟨first, final, calls, family, started, ran, computed, least, _, _, mem_calls, _,
      arrow_iff⟩ :=
    propagation_least oneCall oneCallFlow (by decide) namesCalls_oneCallFlow
  have arrow : oneCallFlow.Arrow (.function 0) (.callee 0) :=
    ⟨0, 1, rfl, rfl, by simp [oneCallFlow]⟩
  have called : .function 0 ∈ family (.callee 0) :=
    least.1.arrows _ _ arrow (least.1.values _ arrow.source_mem rfl)
  exact ⟨first, final, calls, started, ran, computed, (mem_calls _).mpr ⟨0, rfl, called⟩,
    (arrow_iff _ _).mpr (.inr ⟨0, default, 0, _, _, rfl, called, by decide, rfl, rfl,
      by simp [oneCallFlow], by simp [oneCallFlow]⟩)⟩

end FunctionFlow.Propagation

namespace FunctionFlow

theorem FlowGraph.Represents.namesCalls {graph : FlowGraph} {program : Program}
    {natives : NativeTable} (represents : graph.Represents program natives) :
    graph.NamesCalls program :=
  fun _ member => represents.callee_iff.mp member

theorem Analysis.oneShot_solved {program : Program} (inRange : program.InRange)
    (natives : NativeTable) :
    ∃ (graph : FlowGraph) (events : List Event) (final : Propagation) (analysis : Analysis),
      bodyGraph program natives = .ok (graph, events) ∧
      graph.Represents program natives ∧ final.Solved program graph ∧
      oneShot program natives = .ok analysis ∧ analysis.flow = final.graph ∧
      analysis.callGraph.Increasing ∧ ∀ pair, pair ∈ analysis.callGraph.pairs ↔
        ∃ call, pair.1 = .callee call ∧ Reaches program graph pair.2 (.callee call) := by
  obtain ⟨graph, events, built, represents⟩ := bodyGraph_represents inRange natives
  obtain ⟨first, final, started, ran, solved⟩ :=
    Propagation.run_solved represents.wellFormed represents.namesCalls
  obtain ⟨calls, computed, increasing, mem_calls⟩ := solved.callGraph_eq
  refine ⟨graph, events, final,
    ⟨final.graph, calls, events ++ [.fixedPointReached final.steps final.linked.length]⟩, built,
    represents, solved, ?_, rfl, increasing, mem_calls⟩
  simp only [oneShot, built, Checked.ok_bind, started, ran, computed]
  rfl

end FunctionFlow
