import FunctionFlow.Proofs.Analysis.Demand
import FunctionFlow.Proofs.Analysis.LeastSolution
import FunctionFlow.Proofs.Analysis.Walks
import FunctionFlow.Proofs.Flow.Embedding
import FunctionFlow.Proofs.Flow.Flattening
import FunctionFlow.Proofs.Flow.Labels

/-!
Contract: what the analyses find in a graph, they find in every graph that has the same ways between
the vertices that are none of a choice, under other ids.

A query goes back through choices without a trace: no call becomes pending there and none is left.
-/

namespace FunctionFlow

variable {source vertex : Vertex} {function : FunctionId} {ids : Renaming}

def Vertex.isPort : Vertex → Bool
  | .slot (.arg _ _) | .slot (.returned _) => true
  | _ => false

@[simp]
theorem Vertex.isMerge_rename : (vertex.rename ids).isMerge = vertex.isMerge := by
  rcases vertex with _ | _ | _ | (_ | _ | _ | _ | _ | _ | _) <;> rfl

@[simp]
theorem Vertex.isPort_rename : (vertex.rename ids).isPort = vertex.isPort := by
  rcases vertex with _ | _ | _ | (_ | _ | _ | _ | _ | _ | _) <;> rfl

theorem Vertex.isMerge_of_isValue (isValue : vertex.isValue) : vertex.isMerge = false := by
  cases vertex with
  | slot => cases isValue
  | function | callee | native => rfl

theorem linkEdges_rename (ids : Renaming) {call : CallId} {arity : Nat} {source sink : Slot}
    (tied : (source, sink) ∈ linkEdges call function arity) :
    (source.rename ids, sink.rename ids) ∈
      linkEdges (ids .call call) (ids .function function) arity := by
  rcases mem_linkEdges.mp tied with ⟨index, within, rfl, rfl⟩ | ⟨rfl, rfl⟩
  · exact mem_linkEdges.mpr (.inl ⟨index, within, rfl, rfl⟩)
  · exact mem_linkEdges.mpr (.inr ⟨rfl, rfl⟩)

namespace Query

theorem IsPlain.rename {source target : Vertex} (isPlain : IsPlain source target) (ids : Renaming) :
    IsPlain (source.rename ids) (target.rename ids) where
  notResult function call isSource isTarget := by
    rcases source with _ | _ | _ | (_ | _ | _ | _ | _ | _ | _) <;> cases isSource
    rcases target with _ | _ | _ | (_ | _ | _ | _ | _ | _ | _) <;> cases isTarget
    exact isPlain.notResult _ _ rfl rfl
  notArgument call index function position isSource isTarget := by
    rcases source with _ | _ | _ | (_ | _ | _ | _ | _ | _ | _) <;> cases isSource
    rcases target with _ | _ | _ | (_ | _ | _ | _ | _ | _ | _) <;> cases isTarget
    exact isPlain.notArgument _ _ _ _ rfl rfl
  notNamed name isSource := by
    rcases source with _ | _ | _ | (_ | _ | _ | _ | _ | _ | _) <;> cases isSource
    exact isPlain.notNamed name rfl

theorem stepBack_rename {ids : Renaming} (injective : ids.Injective) (depth : Nat) (isShared : Bool)
    (source target : Vertex) (pending : List CallId) :
    stepBack depth isShared (source.rename ids) (target.rename ids) (pending.map (ids .call)) =
      (stepBack depth isShared source target pending).map (List.map (ids .call)) := by
  cases isShared with
  | true => rfl
  | false =>
    rcases edge_cases source target with ⟨function, call, rfl, rfl⟩ |
      ⟨call, index, function, position, rfl, rfl⟩ | ⟨name, rfl⟩ | isPlain
    · have entered : ((ids .call call) :: pending.map (ids .call)).take depth =
          ((call :: pending).take depth).map (ids .call) := by
        rw [← List.map_cons, List.map_take]
      exact congrArg some entered
    · cases pending with
      | nil => rfl
      | cons latest earlier =>
        have sameCall : ids .call latest = ids .call call ↔ latest = call :=
          (injective .call).eq_iff
        simp only [Vertex.rename, Slot.rename, List.map_cons, stepBack, sameCall,
          Bool.false_eq_true, if_false]
        split <;> rfl
    · rfl
    · rw [stepBack_plain isPlain, stepBack_plain (isPlain.rename ids)]
      rfl

theorem stepBack_named (depth : Nat) (isShared : Bool) (name : String) (target : Vertex)
    (pending : List CallId) : stepBack depth isShared (.named name) target pending = some [] := by
  cases isShared <;> rfl

theorem stepBack_merge (isMerge : source.isMerge) (depth : Nat) (target : Vertex)
    (pending : List CallId) : stepBack depth false source target pending = some pending := by
  rcases source with _ | _ | _ | (_ | _ | _ | _ | _ | _ | _) <;> cases isMerge
  rfl

theorem stepBack_target (notPort : source.isPort = false) (depth : Nat) (isShared : Bool)
    (target other : Vertex) (pending : List CallId) :
    stepBack depth isShared source target pending = stepBack depth isShared source other pending := by
  cases isShared
  · rcases source with _ | _ | _ | (_ | _ | _ | _ | _ | _ | _) <;> cases notPort <;>
      simp [stepBack]
  · rfl

end Query

/-- Where a vertex that is none of a choice has a way to another one in the first graph, it has one
in the second graph, under other ids. Links of calls do not go through choices. -/
structure FlowGraph.BridgedIn (ids : Renaming) (graph whole : FlowGraph) : Prop where
  vertices : ∀ {vertex}, vertex.isMerge = false → vertex ∈ graph.vertices →
    vertex.rename ids ∈ whole.vertices
  bridges : ∀ {source target}, source.isMerge = false → target.isMerge = false →
    source.isPort = false → Bridge graph.Arrow source target →
    Bridge whole.Arrow (source.rename ids) (target.rename ids)
  ports : ∀ {source target}, source.isPort → graph.Arrow source target →
    target.isMerge = false ∧ whole.Arrow (source.rename ids) (target.rename ids)

def Program.CallsIn (ids : Renaming) (program whole : Program) : Prop :=
  ∀ {call site}, program.calls[call]? = some site →
    ∃ wholeSite, whole.calls[ids .call call]? = some wholeSite ∧ wholeSite.arity = site.arity

namespace FlowGraph.BridgedIn

variable {graph whole : FlowGraph} (bridged : graph.BridgedIn ids whole)
include bridged

theorem bridge {target : Vertex} (notSource : source.isMerge = false)
    (notTarget : target.isMerge = false) (bridge : Bridge graph.Arrow source target) :
    Bridge whole.Arrow (source.rename ids) (target.rename ids) := by
  cases isPort : source.isPort with
  | false => exact bridged.bridges notSource notTarget isPort bridge
  | true =>
    obtain ⟨last, way, here⟩ := bridge
    rcases way.cases_head with rfl | ⟨next, ⟨first, isMerge⟩, _⟩
    · exact .of_arrow (bridged.ports isPort here).2
    · rw [(bridged.ports isPort first).1] at isMerge
      cases isMerge

/-! ### Values -/

/-- A value that reaches a vertex reaches, in the second graph, a vertex from which only choices are
on the way. -/
theorem reaches {program other : Program} (callsIn : program.CallsIn ids other) {value : Vertex}
    (reached : Reaches program graph value vertex) :
    ∃ origin, origin.isMerge = false ∧ Reaches other whole (value.rename ids) (origin.rename ids) ∧
      Relation.ReflTransGen (fun first next => graph.Arrow first next ∧ next.isMerge) origin
        vertex := by
  have atEnd {origin vertex : Vertex} (notMerge : vertex.isMerge = false)
      (way : Relation.ReflTransGen (fun first next => graph.Arrow first next ∧ next.isMerge) origin
        vertex) : origin = vertex := by
    rcases way.cases_tail with same | ⟨_, _, _, isMerge⟩
    · exact same.symm
    · rw [notMerge] at isMerge
      cases isMerge
  have along {value origin target : Vertex} (reached : Reaches other whole value origin)
      (bridge : Bridge whole.Arrow origin target) : Reaches other whole value target := by
    obtain ⟨last, way, here⟩ := bridge
    refine .arrow ?_ here
    clear here
    induction way with
    | refl => exact reached
    | tail _ step inductionHypothesis => exact .arrow inductionHypothesis step.1
  induction reached with
  | @value vertex member isValue =>
    have notMerge := Vertex.isMerge_of_isValue isValue
    exact ⟨vertex, notMerge, .value (bridged.vertices notMerge member) (by simpa using isValue),
      .refl⟩
  | @arrow value source target _ arrow inductionHypothesis =>
    obtain ⟨origin, notMerge, reached, way⟩ := inductionHypothesis
    cases isMerge : target.isMerge with
    | true => exact ⟨origin, notMerge, reached, way.tail ⟨arrow, isMerge⟩⟩
    | false =>
      exact ⟨target, isMerge, along reached (bridged.bridge notMerge isMerge ⟨source, way, arrow⟩),
        .refl⟩
  | @link value call site function source sink member isCall _ tied _ called reached =>
    obtain ⟨_, _, called, way⟩ := called
    cases atEnd rfl way
    obtain ⟨_, _, reached, way⟩ := reached
    have ends : (Vertex.slot source).isMerge = false ∧ (Vertex.slot sink).isMerge = false := by
      rcases mem_linkEdges.mp tied with ⟨_, _, rfl, rfl⟩ | ⟨rfl, rfl⟩ <;> exact ⟨rfl, rfl⟩
    cases atEnd ends.1 way
    obtain ⟨otherSite, isOtherCall, sameArity⟩ := callsIn isCall
    exact ⟨_, ends.2, .link (bridged.vertices rfl member) isOtherCall called
      (sameArity ▸ linkEdges_rename ids tied) reached, .refl⟩

end FlowGraph.BridgedIn

/-! ### Queries -/

/-- The shared slots of the two graphs correspond to each other, where named slots do not count, and
no choice is among them. -/
structure FlowGraph.SharedSlots (ids : Renaming) (graph whole : FlowGraph)
    (shared wholeShared : List VertexId) : Prop where
  alike : ∀ {id wholeId vertex}, graph.At id vertex → whole.At wholeId (vertex.rename ids) →
    (∀ name, vertex ≠ .named name) → (id ∈ shared ↔ wholeId ∈ wholeShared)
  notMerge : ∀ {id vertex}, graph.At id vertex → vertex.isMerge → id ∉ shared
  notMergeWhole : ∀ {id vertex}, whole.At id vertex → vertex.isMerge → id ∉ wholeShared

namespace FlowGraph.BridgedIn

open Query

variable {graph whole : FlowGraph} {depth : Nat} {shared wholeShared : List VertexId}
  {start wholeStart : VertexId}

/-- A walk goes back through choices without a trace, to where an arrow leaves the given vertex. -/
theorem walks_back (wellFormed : whole.WellFormed)
    (notShared : ∀ {id vertex}, whole.At id vertex → vertex.isMerge → id ∉ wholeShared)
    {target : Vertex} (bridge : Bridge whole.Arrow source target) {place : VertexId}
    (atTarget : whole.At place target) {pending : List CallId}
    (passed : Passes whole depth wholeShared start ⟨place, pending⟩) :
    ∃ next nextPlace, whole.Arrow source next ∧ whole.At nextPlace next ∧
      Passes whole depth wholeShared start ⟨nextPlace, pending⟩ := by
  obtain ⟨last, way, here⟩ := bridge
  induction way generalizing target place with
  | refl => exact ⟨target, place, here, atTarget, passed⟩
  | @tail _ choice _ step inductionHypothesis =>
    obtain ⟨choicePlace, _, atChoice, atTargetToo, edge⟩ := here
    cases wellFormed.id_unique atTarget atTargetToo
    refine inductionHypothesis atChoice (.step passed (.cross edge atChoice atTarget ?_ ?_)) step.1
    · obtain ⟨_, isMerge⟩ := step
      cases choice with
      | slot => rfl
      | function | callee | native => cases isMerge
    · have unshared : wholeShared.contains choicePlace = false := by
        simpa using notShared atChoice step.2
      rw [unshared]
      exact stepBack_merge step.2 depth target pending

variable (bridged : graph.BridgedIn ids whole) (injective : ids.Injective)
  (wellFormed : whole.WellFormed) (slots : graph.SharedSlots ids whole shared wholeShared)
include bridged injective wellFormed slots

/-- Where a walk in the first graph passes, one in the second graph is at a vertex to which only
choices are on the way, with the same calls pending. -/
theorem passes (notMerge : vertex.isMerge = false) (atStart : graph.At start vertex)
    (atWhole : whole.At wholeStart (vertex.rename ids)) {point : Waypoint}
    (passed : Passes graph depth shared start point) :
    ∃ here there place, graph.At point.vertex here ∧ there.isMerge = false ∧
      whole.At place (there.rename ids) ∧
      Passes whole depth wholeShared wholeStart ⟨place, point.pending.map (ids .call)⟩ ∧
      (here = there ∨ here.isMerge ∧ Bridge graph.Arrow here there) := by
  induction passed with
  | start => exact ⟨vertex, vertex, wholeStart, atStart, notMerge, atWhole, .start, .inl rfl⟩
  | @step last _ _ crossed inductionHypothesis =>
    obtain ⟨here, there, place, atHere, notThere, atPlace, passed, onTheWay⟩ := inductionHypothesis
    obtain @⟨source, sourceVertex, _, pending, edge, atSource, atTarget, isPlace, stepped⟩ := crossed
    cases atHere.vertex_unique atTarget
    have arrow : graph.Arrow sourceVertex here := ⟨_, _, atSource, atTarget, edge⟩
    have bridge : Bridge graph.Arrow sourceVertex there := by
      rcases onTheWay with rfl | ⟨isMerge, further⟩
      · exact .of_arrow arrow
      · exact .trans (.of_arrow arrow) isMerge further
    cases isMerge : sourceVertex.isMerge with
    | true =>
      have unshared : shared.contains source = false := by
        simpa using slots.notMerge atSource isMerge
      rw [unshared, stepBack_merge isMerge] at stepped
      cases stepped
      exact ⟨sourceVertex, there, place, atSource, notThere, atPlace, passed,
        .inr ⟨isMerge, bridge⟩⟩
    | false =>
      have renamed := stepBack_rename injective depth (shared.contains source) sourceVertex here
      -- from a port there is no way through choices, and elsewhere the end of an arrow counts not
      obtain ⟨next, nextPlace, wholeArrow, atNext, passedNext, steppedNext⟩ :
          ∃ next nextPlace, whole.Arrow (sourceVertex.rename ids) next ∧ whole.At nextPlace next ∧
            Passes whole depth wholeShared wholeStart ⟨nextPlace, _⟩ ∧
            stepBack depth (shared.contains source) (sourceVertex.rename ids) next _ =
              some (pending.map (ids .call)) := by
        cases isPort : sourceVertex.isPort with
        | true =>
          obtain ⟨notHere, wholeArrow⟩ := bridged.ports isPort arrow
          rcases onTheWay with rfl | ⟨isMerge, _⟩
          · exact ⟨_, place, wholeArrow, atPlace, passed,
              (renamed _).trans (congrArg _ stepped)⟩
          · rw [notHere] at isMerge
            cases isMerge
        | false =>
          obtain ⟨next, nextPlace, wholeArrow, atNext, passedNext⟩ := walks_back wellFormed
            slots.notMergeWhole (bridged.bridge isMerge notThere bridge) atPlace passed
          exact ⟨next, nextPlace, wholeArrow, atNext, passedNext,
            (stepBack_target (by simpa using isPort) depth _ next _ _).trans
              ((renamed _).trans (congrArg _ stepped))⟩
      obtain ⟨wholeSource, _, atWholeSource, atNextToo, wholeEdge⟩ := wholeArrow
      cases wellFormed.id_unique atNext atNextToo
      have crossedWhole : stepBack depth (wholeShared.contains wholeSource)
          (sourceVertex.rename ids) next (last.pending.map (ids .call)) =
            some (pending.map (ids .call)) := by
        by_cases isNamed : ∃ name, sourceVertex = .named name
        · obtain ⟨name, rfl⟩ := isNamed
          exact (stepBack_named ..).trans ((stepBack_named ..).symm.trans steppedNext)
        · have sameShared : wholeShared.contains wholeSource = shared.contains source := by
            rw [Bool.eq_iff_iff, List.contains_iff_mem, List.contains_iff_mem]
            exact (slots.alike atSource atWholeSource (not_exists.mp isNamed)).symm
          rw [sameShared, steppedNext]
      exact ⟨sourceVertex, sourceVertex, wholeSource, atSource, isMerge, atWholeSource,
        .step passedNext (.cross wholeEdge atWholeSource atNext (by simpa using isPlace)
          crossedWhole), .inl rfl⟩

theorem finds {valueVertex : Vertex} {value : VertexId} (notMerge : vertex.isMerge = false)
    (atStart : graph.At start vertex) (atWhole : whole.At wholeStart (vertex.rename ids))
    (found : Finds graph depth shared start value) (atValue : graph.At value valueVertex) :
    ∃ wholeValue, whole.At wholeValue (valueVertex.rename ids) ∧
      Finds whole depth wholeShared wholeStart wholeValue := by
  obtain ⟨point, passed, edge, _, atMet, isValue⟩ := found
  cases atValue.vertex_unique atMet
  obtain ⟨here, there, place, atHere, notThere, atPlace, passed, onTheWay⟩ :=
    bridged.passes injective wellFormed slots notMerge atStart atWhole passed
  have arrow : graph.Arrow valueVertex here := ⟨_, _, atValue, atHere, edge⟩
  have bridge : Bridge graph.Arrow valueVertex there := by
    rcases onTheWay with rfl | ⟨isMerge, further⟩
    · exact .of_arrow arrow
    · exact .trans (.of_arrow arrow) isMerge further
  have notValue := Vertex.isMerge_of_isValue isValue
  obtain ⟨next, nextPlace, wholeArrow, atNext, passedNext⟩ := walks_back wellFormed
    slots.notMergeWhole (bridged.bridge notValue notThere bridge) atPlace passed
  obtain ⟨wholeValue, _, atWholeValue, atNextToo, wholeEdge⟩ := wholeArrow
  cases wellFormed.id_unique atNext atNextToo
  exact ⟨wholeValue, atWholeValue, _, passedNext, wholeEdge, _, atWholeValue,
    by simpa using isValue⟩

end FlowGraph.BridgedIn

/-! ### Links -/

namespace FlowGraph

theorem WellFormed.exists_withEdges {graph : FlowGraph} (wellFormed : graph.WellFormed)
    (edges : List (VertexId × VertexId))
    (inside : ∀ edge ∈ edges, edge.1 < graph.size ∧ edge.2 < graph.size) :
    ∃ large : FlowGraph, large.WellFormed ∧ large.vertices = graph.vertices ∧
      ∀ edge, edge ∈ large.edges ↔ edge ∈ graph.edges ∨ edge ∈ edges := by
  induction edges generalizing graph with
  | nil => exact ⟨graph, wellFormed, rfl, by simp⟩
  | cons first rest inductionHypothesis =>
    obtain ⟨firstInside, restInside⟩ := List.forall_mem_cons.mp inside
    obtain ⟨_, middle, added, middleWellFormed⟩ := wellFormed.addEdge firstInside.1 firstInside.2
    have sameVertices := vertices_addEdge added
    obtain ⟨large, largeWellFormed, largeVertices, mem_edges⟩ := inductionHypothesis
      middleWellFormed (by simpa only [size, sameVertices] using restInside)
    refine ⟨large, largeWellFormed, largeVertices.trans sameVertices, fun edge => ?_⟩
    rw [mem_edges, wellFormed.mem_edges_addEdge added, List.mem_cons, or_assoc]

open Classical in
theorem WellFormed.exists_withArrows {graph : FlowGraph} (wellFormed : graph.WellFormed)
    (allowed : Vertex → Vertex → Prop) :
    ∃ large : FlowGraph, large.WellFormed ∧ large.vertices = graph.vertices ∧
      graph.Within large ∧
      ∀ source target sourceId targetId, graph.At sourceId source → graph.At targetId target →
        ((sourceId, targetId) ∈ large.edges ↔
          (sourceId, targetId) ∈ graph.edges ∨ allowed source target) := by
  let places := List.range graph.size
  let edges := (places.product places).filter fun edge =>
    decide (∃ source target, graph.At edge.1 source ∧ graph.At edge.2 target ∧
      allowed source target)
  have mem_edges {sourceId targetId : VertexId} : (sourceId, targetId) ∈ edges ↔
      ∃ source target, graph.At sourceId source ∧ graph.At targetId target ∧
        allowed source target := by
    simp only [edges, places, List.mem_filter, List.pair_mem_product, List.mem_range,
      decide_eq_true_eq]
    refine and_iff_right_of_imp ?_
    rintro ⟨source, target, atSource, atTarget, _⟩
    exact ⟨atSource.below, atTarget.below⟩
  obtain ⟨large, largeWellFormed, sameVertices, mem_large⟩ := wellFormed.exists_withEdges edges (by
    rintro ⟨sourceId, targetId⟩ member
    obtain ⟨source, target, atSource, atTarget, _⟩ := mem_edges.mp member
    exact ⟨atSource.below, atTarget.below⟩)
  refine ⟨large, largeWellFormed, sameVertices, ⟨?_, fun edge => (mem_large _).mpr (.inl edge)⟩,
    ?_⟩
  · intro id vertex found
    rwa [At, sameVertices]
  · intro source target sourceId targetId atSource atTarget
    rw [mem_large, mem_edges]
    refine or_congr_right ⟨?_, fun isAllowed => ⟨source, target, atSource, atTarget, isAllowed⟩⟩
    rintro ⟨_, _, atSourceToo, atTargetToo, isAllowed⟩
    cases atSource.vertex_unique atSourceToo
    cases atTarget.vertex_unique atTargetToo
    exact isAllowed

/-- Arrows are added to the smallest graph in which calls are linked to what their queries find only
if they are allowed, as soon as all links that queries ask for are allowed. -/
theorem LeastLinked.arrow_cases {program : Program} {depth : Nat} {initial final : FlowGraph}
    {shared : List VertexId} (least : initial.LeastLinked program shared depth final)
    (initialWellFormed : initial.WellFormed) (allowed : Vertex → Vertex → Prop)
    (closed : ∀ large : FlowGraph, large.WellFormed → large.vertices = initial.vertices →
      (∀ source target, large.Arrow source target →
        initial.Arrow source target ∨ allowed source target) →
      ∀ {call callee target function site source sink}, large.At callee (.callee call) →
        Query.Finds large depth shared callee target → large.At target (.function function) →
        program.calls[call]? = some site → (source, sink) ∈ linkEdges call function site.arity →
        .slot source ∈ large.vertices → .slot sink ∈ large.vertices →
        allowed (.slot source) (.slot sink)) :
    (∀ vertex ∈ final.vertices, vertex ∈ initial.vertices) ∧
      ∀ source target, final.Arrow source target →
        initial.Arrow source target ∨ allowed source target := by
  -- the largest graph on the same vertices
  obtain ⟨large, wellFormed, sameVertices, within, mem_edges⟩ :=
    initialWellFormed.exists_withArrows allowed
  have atIff {id : VertexId} {vertex : Vertex} : large.At id vertex ↔ initial.At id vertex := by
    rw [At, sameVertices]
  have arrows (source target : Vertex) (arrow : large.Arrow source target) :
      initial.Arrow source target ∨ allowed source target := by
    obtain ⟨sourceId, targetId, atSource, atTarget, edge⟩ := arrow
    rw [atIff] at atSource atTarget
    exact ((mem_edges _ _ _ _ atSource atTarget).mp edge).imp_left fun old =>
      ⟨sourceId, targetId, atSource, atTarget, old⟩
  have links : large.LinksFound program shared depth := by
    rintro call callee found target atCallee queried inFound ⟨sourceId, sinkId⟩
      ⟨function, site, source, sink, atTarget, isCall, tied, atSource, atSink⟩
    have finds := (exists_query_iff wellFormed atCallee.below).mp ⟨found, queried, inFound⟩
    exact (mem_edges _ _ sourceId sinkId (atIff.mp atSource) (atIff.mp atSink)).mpr (.inr
      (closed large wellFormed sameVertices arrows atCallee finds atTarget isCall tied
        atSource.mem atSink.mem))
  have finalWithin := least.least large wellFormed within links
  refine ⟨fun vertex member => ?_, fun source target arrow =>
    arrows source target (finalWithin.arrow arrow)⟩
  obtain ⟨id, found⟩ := exists_at_of_mem member
  rw [← sameVertices]
  exact (finalWithin.kept found).mem

end FlowGraph

/-- Where arrows do not start at a port, they may be exchanged for those of another graph. -/
theorem Bridge.exchange {arrow other : Vertex → Vertex → Prop}
    (kept : ∀ {source target}, source.isPort = false → arrow source target → other source target)
    {target : Vertex} (notPort : source.isPort = false) (bridge : Bridge arrow source target) :
    Bridge other source target := by
  obtain ⟨last, way, here⟩ := bridge
  have reached : last.isPort = false ∧
      Relation.ReflTransGen (fun first next => other first next ∧ next.isMerge) source last := by
    clear here
    induction way with
    | refl => exact ⟨notPort, .refl⟩
    | @tail _ next _ step inductionHypothesis =>
      refine ⟨?_, inductionHypothesis.2.tail ⟨kept inductionHypothesis.1 step.1, step.2⟩⟩
      obtain ⟨_, isMerge⟩ := step
      rcases next with _ | _ | _ | (_ | _ | _ | _ | _ | _ | _) <;> cases isMerge
      rfl
  exact ⟨last, reached.2, kept reached.1 here⟩

/-- The smallest graph in which calls are linked to what their queries find has its ways in every
such graph of the other program. -/
theorem FlowGraph.LeastLinked.bridgedIn {program other : Program} {depth : Nat}
    {initial final otherInitial otherFinal : FlowGraph} {shared otherShared : List VertexId}
    (least : initial.LeastLinked program shared depth final)
    (otherLeast : otherInitial.LeastLinked other otherShared depth otherFinal)
    (callsIn : program.CallsIn ids other) (injective : ids.Injective)
    (initialWellFormed : initial.WellFormed) (bridged : initial.BridgedIn ids otherInitial)
    (noPorts : ∀ {source target}, initial.Arrow source target → source.isPort = false)
    (slots : initial.SharedSlots ids otherFinal shared otherShared) :
    final.BridgedIn ids otherFinal := by
  let allowed (source target : Vertex) : Prop :=
    source.isPort ∧ target.isMerge = false ∧
      otherFinal.Arrow (source.rename ids) (target.rename ids)
  have within {vertex : Vertex} (member : vertex ∈ otherInitial.vertices) :
      vertex ∈ otherFinal.vertices := by
    obtain ⟨id, found⟩ := exists_at_of_mem member
    exact (otherLeast.within.kept found).mem
  have bridgedOf {graph : FlowGraph} (vertices : ∀ vertex ∈ graph.vertices, vertex ∈ initial.vertices)
      (arrows : ∀ source target, graph.Arrow source target →
        initial.Arrow source target ∨ allowed source target) : graph.BridgedIn ids otherFinal := by
    refine ⟨fun notMerge member => within (bridged.vertices notMerge (vertices _ member)), ?_, ?_⟩
    · intro source target notSource notTarget notPort bridge
      have old : Bridge initial.Arrow source target := bridge.exchange (fun notPort arrow =>
        (arrows _ _ arrow).resolve_right fun ⟨isPort, _⟩ => by
          rw [notPort] at isPort
          cases isPort) notPort
      exact (bridged.bridge notSource notTarget old).exchange
        (fun _ arrow => otherLeast.within.arrow arrow) (by simpa using notPort)
    · intro source target isPort arrow
      rcases arrows _ _ arrow with old | ⟨_, notMerge, here⟩
      · rw [noPorts old] at isPort
        cases isPort
      · exact ⟨notMerge, here⟩
  obtain ⟨vertices, arrows⟩ := least.arrow_cases initialWellFormed allowed
    fun large largeWellFormed sameVertices arrows => by
      intro call callee target function site source sink atCallee finds atTarget isCall tied
        hasSource hasSink
      have largeBridged := bridgedOf (fun vertex => (sameVertices ▸ ·)) arrows
      have atIff {id : VertexId} {vertex : Vertex} : large.At id vertex ↔ initial.At id vertex := by
        rw [At, sameVertices]
      have largeSlots : large.SharedSlots ids otherFinal shared otherShared :=
        ⟨fun atVertex => slots.alike (atIff.mp atVertex),
          fun atVertex => slots.notMerge (atIff.mp atVertex), slots.notMergeWhole⟩
      obtain ⟨otherCallee, atOtherCallee⟩ := exists_at_of_mem (largeBridged.vertices rfl atCallee.mem)
      obtain ⟨otherTarget, atOtherTarget, found⟩ := largeBridged.finds injective
        otherLeast.wellFormed largeSlots rfl atCallee atOtherCallee finds atTarget
      obtain ⟨otherSite, isOtherCall, sameArity⟩ := callsIn isCall
      have ends : (Vertex.slot source).isPort ∧ (Vertex.slot source).isMerge = false ∧
          (Vertex.slot sink).isMerge = false := by
        rcases mem_linkEdges.mp tied with ⟨_, _, rfl, rfl⟩ | ⟨rfl, rfl⟩ <;> exact ⟨rfl, rfl, rfl⟩
      obtain ⟨otherSource, atOtherSource⟩ :=
        exists_at_of_mem (largeBridged.vertices ends.2.1 hasSource)
      obtain ⟨otherSink, atOtherSink⟩ := exists_at_of_mem (largeBridged.vertices ends.2.2 hasSink)
      exact ⟨ends.1, ends.2.2, otherSource, otherSink, atOtherSource, atOtherSink,
        otherLeast.linksFound.edge otherLeast.wellFormed atOtherCallee found
          ⟨_, _, _, _, atOtherTarget, isOtherCall, sameArity ▸ linkEdges_rename ids tied,
            atOtherSource, atOtherSink⟩⟩
  exact bridgedOf vertices arrows

/-! ### The pairs of the analyses -/

def Program.Foreign (program : Program) (vertex : Vertex) : Prop :=
  ∃ owner expr, program.BodyHas owner expr ∧ program.foreignSlot owner expr = .ok (some vertex)

/-- Bodies of the program use the same slots without owning them as those of the whole do; named slots
do not count. -/
def Program.SharesAlike (ids : Renaming) (program whole : Program) : Prop :=
  ∀ {vertex : Vertex}, vertex.InRange program.sizes → (∀ name, vertex ≠ .named name) →
    (program.Foreign vertex ↔ whole.Foreign (vertex.rename ids))

theorem Program.Arrow.notPort {program : Program} {target : Vertex}
    (arrow : program.Arrow source target) : source.isPort = false := by
  obtain ⟨expr, _, held⟩ := Program.into_of_growth arrow
  obtain ⟨part, _, isHeld⟩ := expr.heldBy_of_holder held
  cases isHeld with
  | @ident _ reference =>
    obtain ⟨_, _, binding⟩ := reference
    cases binding with
    | declared id =>
      change (Vertex.slot (program.slotOf id)).isPort = false
      rcases program.slotOf_form id with ⟨_, _, same⟩ | ⟨_, same⟩ | same <;> rw [same] <;> rfl
    | global | unresolved => rfl
  | _ => rfl

theorem FlowGraph.WellFormed.mem_shared {program : Program} {graph : FlowGraph}
    (wellFormed : graph.WellFormed) {shared : List VertexId}
    (isShared : graph.sharedSlots program = .ok shared) {id : VertexId}
    (atVertex : graph.At id vertex) : id ∈ shared ↔ program.Foreign vertex := by
  rw [Program.mem_sharedSlots isShared]
  constructor
  · rintro ⟨owner, expr, other, has, answered, looked⟩
    cases atVertex.vertex_unique (wellFormed.at_of_lookup looked)
    exact ⟨owner, expr, has, answered⟩
  · rintro ⟨owner, expr, has, answered⟩
    exact ⟨owner, expr, vertex, has, answered, wellFormed.lookup_eq_some.mpr atVertex⟩

theorem Program.InRange.foreignSlot_cases {program : Program} (inRange : program.InRange)
    {owner : Option FunctionId} {expr : Expr}
    (answered : program.foreignSlot owner expr = .ok (some vertex)) :
    (∃ name, vertex = .named name) ∨ (∃ decl, vertex = .slot (.declared decl)) ∨
      ∃ function index, vertex = .slot (.param function index) := by
  cases expr with
  | ident node reference =>
    obtain ⟨name, scope, binding⟩ := reference
    cases binding with
    | declared id =>
      obtain ⟨decl, slotOwner, found, _, answer⟩ :=
        inRange.foreignSlot_declared owner node name scope answered
      by_cases own : slotOwner = owner
      · rw [if_pos own] at answer
        cases answer
      · rw [if_neg own] at answer
        cases answer
        rcases Program.slotOf_cases found with ⟨function, index, _, isSlot⟩ | ⟨name, isSlot⟩ | isSlot
        · exact .inr (.inr ⟨function, index, congrArg Vertex.slot isSlot⟩)
        · exact .inl ⟨name, congrArg Vertex.slot isSlot⟩
        · exact .inr (.inl ⟨id, congrArg Vertex.slot isSlot⟩)
    | global | unresolved => cases answered
  | this node receiver =>
    cases receiver with
    | none => cases answered
    | some function =>
      have answer := Except.ok.inj answered
      by_cases own : some function = owner
      · rw [if_pos own] at answer
        cases answer
      · rw [if_neg own] at answer
        cases answer
        exact .inr (.inr ⟨function, 0, rfl⟩)
  | _ => cases answered

theorem Program.InRange.foreign_notMerge {program : Program} (inRange : program.InRange)
    (foreign : program.Foreign vertex) : vertex.isMerge = false := by
  obtain ⟨_, _, _, answered⟩ := foreign
  rcases inRange.foreignSlot_cases answered with ⟨_, rfl⟩ | ⟨_, rfl⟩ | ⟨_, _, rfl⟩ <;> rfl

theorem FlowGraph.Grown.notPort {program : Program} {natives : NativeTable} {graph : FlowGraph}
    (grown : ({} : FlowGraph).Grown (.sum (natives.entries.map Build.nativeGrowth) ++ program.growth)
      graph) {target : Vertex} (arrow : graph.Arrow source target) : source.isPort = false := by
  rcases grown.arrow_natives_iff.mp arrow with ⟨_, _, rfl, _⟩ | inBodies
  · rfl
  · exact Program.Arrow.notPort inBodies

def CallGraph.Embeds (ids : Renaming) (calls wholeCalls : CallGraph) : Prop :=
  ∀ pair ∈ calls.pairs, pair.map (Vertex.rename ids) (Vertex.rename ids) ∈ wholeCalls.pairs

namespace Analysis

variable {program whole : Program} (inRange : program.InRange) (wholeInRange : whole.InRange)
  (callsIn : program.CallsIn ids whole) {natives more : NativeTable}
  (bridged : ∀ {graph wholeGraph : FlowGraph} {events wholeEvents : List Event},
    bodyGraph program natives = .ok (graph, events) →
    bodyGraph whole more = .ok (wholeGraph, wholeEvents) → graph.BridgedIn ids wholeGraph)
  {analysis wholeAnalysis : Analysis}
include inRange wholeInRange callsIn bridged

theorem oneShot_embeds_of_bridged (ran : oneShot program natives = .ok analysis)
    (ranWhole : oneShot whole more = .ok wholeAnalysis) :
    analysis.callGraph.Embeds ids wholeAnalysis.callGraph := by
  obtain ⟨_, _, _, _, built, _, _, ranToo, _, _, mem_pairs⟩ := oneShot_solved inRange natives
  cases ran.symm.trans ranToo
  obtain ⟨_, _, _, _, builtWhole, _, _, ranWholeToo, _, _, mem_wholePairs⟩ :=
    oneShot_solved wholeInRange more
  cases ranWhole.symm.trans ranWholeToo
  rintro ⟨source, target⟩ member
  obtain ⟨call, rfl, reached⟩ := (mem_pairs _).mp member
  obtain ⟨origin, notMerge, reached, way⟩ := (bridged built builtWhole).reaches callsIn reached
  rcases way.cases_tail with same | ⟨_, _, _, isMerge⟩
  · cases same
    exact (mem_wholePairs _).mpr ⟨ids .call call, rfl, reached⟩
  · cases isMerge

/-- Queries find the same where the flow is the same, as long as they see the same shared slots. -/
theorem demand_embeds_of_bridged (injective : ids.Injective)
    (sharesAlike : program.SharesAlike ids whole) {depth : Nat}
    (ran : demand program natives depth = .ok analysis)
    (ranWhole : demand whole more depth = .ok wholeAnalysis) :
    analysis.callGraph.Embeds ids wholeAnalysis.callGraph := by
  obtain ⟨initial, _, shared, _, final, built, run⟩ := demandRun_of_demand inRange ran
  obtain ⟨_, _, builtToo, grown⟩ := bodyGraph_grown inRange natives
  cases built.symm.trans builtToo
  obtain ⟨wholeInitial, _, wholeShared, _, wholeFinal, builtWhole, wholeRun⟩ :=
    demandRun_of_demand wholeInRange ranWhole
  have bounded := run.converged.bounded
  have wholeBounded := wholeRun.converged.bounded
  have initialBridged := bridged built builtWhole
  have mem_shared {id : VertexId} {vertex : Vertex} (atVertex : initial.At id vertex) :=
    run.represents.wellFormed.mem_shared run.sharedSlots atVertex
  have mem_wholeShared {id : VertexId} {vertex : Vertex} (atVertex : wholeFinal.graph.At id vertex) :=
    wholeRun.represents.wellFormed.mem_shared wholeRun.sharedSlots
      (wholeBounded.at_iff.mp atVertex)
  have slots : initial.SharedSlots ids wholeFinal.graph shared wholeShared := by
    refine ⟨fun atVertex atWhole notNamed => ?_, fun atVertex isMerge member => ?_,
      fun atWhole isMerge member => ?_⟩
    · rw [mem_shared atVertex, mem_wholeShared atWhole]
      exact sharesAlike ((bodyGraph_of inRange built).inRange _ atVertex.mem) notNamed
    · rw [inRange.foreign_notMerge ((mem_shared atVertex).mp member)] at isMerge
      cases isMerge
    · rw [wholeInRange.foreign_notMerge ((mem_wholeShared atWhole).mp member)] at isMerge
      cases isMerge
  have finalBridged := run.leastLinked.bridgedIn wholeRun.leastLinked callsIn injective
    run.represents.wellFormed initialBridged grown.notPort slots
  have finalSlots : final.graph.SharedSlots ids wholeFinal.graph shared wholeShared :=
    ⟨fun atVertex => slots.alike (bounded.at_iff.mp atVertex),
      fun atVertex => slots.notMerge (bounded.at_iff.mp atVertex), slots.notMergeWhole⟩
  rintro ⟨source, target⟩ member
  obtain ⟨call, callee, value, rfl, atCallee, finds, atValue⟩ := run.mem_pairs.mp member
  obtain ⟨wholeCallee, atWholeCallee⟩ :=
    FlowGraph.exists_at_of_mem (initialBridged.vertices rfl atCallee.mem)
  obtain ⟨wholeValue, atWholeValue, found⟩ := finalBridged.finds injective wholeBounded.wellFormed
    finalSlots rfl (bounded.at_iff.mpr atCallee) (wholeBounded.at_iff.mpr atWholeCallee) finds
    (bounded.at_iff.mpr atValue)
  exact wholeRun.mem_pairs.mpr ⟨ids .call call, wholeCallee, wholeValue, rfl, atWholeCallee, found,
    wholeBounded.at_iff.mp atWholeValue⟩

end Analysis

/-! ### Programs with the same flow -/

/-- The flow of the first program is that of the second one, the vertices of choices left aside. -/
structure Program.FlowsInto (program other : Program) : Prop where
  same : program.SameTables other
  place : ∀ {vertex}, vertex.isMerge = false → program.growth.Has (.place vertex) →
    other.growth.Has (.place vertex)
  bridge : ∀ {source target}, source.isMerge = false → target.isMerge = false →
    Bridge program.Arrow source target → Bridge other.Arrow source target
  foreign : ∀ {vertex}, program.Foreign vertex ↔ other.Foreign vertex
  slotsKnown : program.SlotsKnown → other.SlotsKnown

namespace Program.FlowsInto

variable {program other : Program} (into : program.FlowsInto other) {natives : NativeTable}
include into

theorem bodyGraph_bridged (inRange : program.InRange) (otherInRange : other.InRange)
    {graph otherGraph : FlowGraph} {events otherEvents : List Event}
    (built : Analysis.bodyGraph program natives = .ok (graph, events))
    (builtOther : Analysis.bodyGraph other natives = .ok (otherGraph, otherEvents)) :
    graph.BridgedIn .refl otherGraph := by
  obtain ⟨_, _, builtToo, grown⟩ := Analysis.bodyGraph_grown inRange natives
  cases built.symm.trans builtToo
  obtain ⟨_, _, builtOtherToo, otherGrown⟩ := Analysis.bodyGraph_grown otherInRange natives
  cases builtOther.symm.trans builtOtherToo
  refine ⟨?vertices, ?bridges, ?ports⟩
  case vertices =>
    intro vertex notMerge member
    rw [grown.mem_vertices, Growth.places_append, List.mem_append] at member
    rw [Vertex.rename_refl, otherGrown.mem_vertices, Growth.places_append, List.mem_append]
    exact member.imp_right (Or.imp_right (into.place notMerge))
  case bridges =>
    rintro source target notSource notTarget notPort ⟨last, way, here⟩
    rw [Vertex.rename_refl, Vertex.rename_refl]
    rcases grown.arrow_natives_iff.mp here with ⟨entry, member, rfl, rfl⟩ | inBodies
    · rcases way.cases_tail with same | ⟨_, _, _, isMerge⟩
      · cases same
        exact .of_arrow (otherGrown.arrow_natives_iff.mpr (.inl ⟨entry, member, rfl, rfl⟩))
      · cases isMerge
    · have inBodies : Bridge program.Arrow source target := by
        refine ⟨last, way.lift id fun _ _ ⟨arrow, isMerge⟩ => ⟨?_, isMerge⟩, inBodies⟩
        refine (grown.arrow_natives_iff.mp arrow).resolve_left ?_
        rintro ⟨_, _, _, rfl⟩
        cases isMerge
      exact (into.bridge notSource notTarget inBodies).exchange
        (fun _ arrow => otherGrown.arrow_natives_iff.mpr (.inr arrow)) notPort
  case ports =>
    intro source target isPort arrow
    rw [grown.notPort arrow] at isPort
    cases isPort

theorem callsIn : program.CallsIn .refl other :=
  fun isCall => ⟨_, into.same.calls ▸ isCall, rfl⟩

theorem sharesAlike : program.SharesAlike .refl other := by
  intro vertex _ _
  rw [Vertex.rename_refl]
  exact into.foreign

end Program.FlowsInto

theorem CallGraph.Embeds.mem_of_refl {calls wholeCalls : CallGraph}
    (embeds : calls.Embeds .refl wholeCalls) {pair : Vertex × Vertex} (member : pair ∈ calls.pairs) :
    pair ∈ wholeCalls.pairs := by
  have kept := embeds pair member
  obtain ⟨source, target⟩ := pair
  rwa [Prod.map_apply, Vertex.rename_refl, Vertex.rename_refl] at kept

/-! ### The same call graphs -/

/-- Both runs succeed, with the same call graph. -/
def Analysis.SameCalls (first second : Checked Analysis) : Prop :=
  ∃ analysis other, first = .ok analysis ∧ second = .ok other ∧
    analysis.callGraph = other.callGraph

/-- The analyses of the two programs have the same call graphs. The demand-driven analyses of the two
both end or both fail, and they end if no chain of scopes runs in a circle. -/
structure Program.SameCalls (program other : Program) : Prop where
  oneShot : ∀ natives, Analysis.SameCalls (Analysis.oneShot program natives)
    (Analysis.oneShot other natives)
  demand : ∀ natives depth, Analysis.SameCalls (Analysis.demand program natives depth)
      (Analysis.demand other natives depth) ∨
    (∃ failure, Analysis.demand program natives depth = .error failure) ∧
      ∃ failure, Analysis.demand other natives depth = .error failure
  ends : program.ParentsFirst → ∀ natives depth,
    Analysis.SameCalls (Analysis.demand program natives depth)
      (Analysis.demand other natives depth)

theorem Analysis.SameCalls.trans {first second third : Checked Analysis}
    (sameCalls : Analysis.SameCalls first second) (further : Analysis.SameCalls second third) :
    Analysis.SameCalls first third := by
  obtain ⟨analysis, _, isFirst, rfl, same⟩ := sameCalls
  obtain ⟨_, other, isSecond, isThird, sameToo⟩ := further
  cases isSecond
  exact ⟨analysis, other, isFirst, isThird, same.trans sameToo⟩

theorem Program.SameCalls.refl {program : Program} (inRange : program.InRange) :
    program.SameCalls program where
  oneShot natives := by
    obtain ⟨_, _, _, analysis, _, _, _, ran, _⟩ := Analysis.oneShot_solved inRange natives
    exact ⟨analysis, analysis, ran, ran, rfl⟩
  demand natives depth := by
    cases ran : Analysis.demand program natives depth with
    | ok analysis => exact .inl ⟨analysis, analysis, rfl, rfl, rfl⟩
    | error failure => exact .inr ⟨⟨failure, rfl⟩, failure, rfl⟩
  ends parents natives depth := by
    obtain ⟨analysis, ran⟩ :=
      Analysis.demand_ends inRange (inRange.slotsKnown parents) natives depth
    exact ⟨analysis, analysis, ran, ran, rfl⟩

theorem Program.SameCalls.trans {first second third : Program} (here : first.SameCalls second)
    (further : second.SameCalls third) : first.SameCalls third where
  oneShot natives := (here.oneShot natives).trans (further.oneShot natives)
  demand natives depth := by
    rcases here.demand natives depth with same | ⟨failed, failure, isFailure⟩ <;>
      rcases further.demand natives depth with sameToo | ⟨⟨failureToo, isFailureToo⟩, failedToo⟩
    · exact .inl (same.trans sameToo)
    · obtain ⟨_, _, _, ran, _⟩ := same
      cases ran.symm.trans isFailureToo
    · obtain ⟨_, _, ran, _⟩ := sameToo
      cases ran.symm.trans isFailure
    · exact .inr ⟨failed, failedToo⟩
  ends parents natives depth := by
    have same := here.ends parents natives depth
    rcases further.demand natives depth with sameToo | ⟨⟨_, isFailure⟩, _⟩
    · exact same.trans sameToo
    · obtain ⟨_, _, _, ran, _⟩ := same
      cases ran.symm.trans isFailure

namespace Program.FlowsInto

variable {program other : Program} (into : program.FlowsInto other)
  (back : other.FlowsInto program) (inRange : program.InRange) (otherInRange : other.InRange)
include into back inRange otherInRange

theorem demand_sameCalls (known : program.SlotsKnown) (natives : NativeTable) (depth : Nat) :
    Analysis.SameCalls (Analysis.demand program natives depth)
      (Analysis.demand other natives depth) := by
  obtain ⟨_, _, _, _, _, analysis, _, run⟩ :=
    Analysis.demandRun_of_slotsKnown inRange known natives depth
  obtain ⟨_, _, _, _, _, otherAnalysis, _, otherRun⟩ :=
    Analysis.demandRun_of_slotsKnown otherInRange (into.slotsKnown known) natives depth
  have injective : Renaming.refl.Injective := fun _ => Function.injective_id
  have there := Analysis.demand_embeds_of_bridged inRange otherInRange into.callsIn
    (into.bodyGraph_bridged inRange otherInRange) injective into.sharesAlike run.demand
    otherRun.demand
  have andBack := Analysis.demand_embeds_of_bridged otherInRange inRange back.callsIn
    (back.bodyGraph_bridged otherInRange inRange) injective back.sharesAlike otherRun.demand
    run.demand
  exact ⟨analysis, otherAnalysis, run.demand, otherRun.demand,
    CallGraph.eq_of_pairs run.increasing otherRun.increasing
      fun _ => ⟨there.mem_of_refl, andBack.mem_of_refl⟩⟩

theorem sameCalls : program.SameCalls other where
  oneShot natives := by
    obtain ⟨_, _, _, analysis, _, _, _, ran, _, increasing, _⟩ :=
      Analysis.oneShot_solved inRange natives
    obtain ⟨_, _, _, otherAnalysis, _, _, _, ranOther, _, otherIncreasing, _⟩ :=
      Analysis.oneShot_solved otherInRange natives
    have there := Analysis.oneShot_embeds_of_bridged inRange otherInRange into.callsIn
      (into.bodyGraph_bridged inRange otherInRange) ran ranOther
    have andBack := Analysis.oneShot_embeds_of_bridged otherInRange inRange back.callsIn
      (back.bodyGraph_bridged otherInRange inRange) ranOther ran
    exact ⟨analysis, otherAnalysis, ran, ranOther, CallGraph.eq_of_pairs increasing otherIncreasing
      fun _ => ⟨there.mem_of_refl, andBack.mem_of_refl⟩⟩
  demand natives depth := by
    by_cases known : program.SlotsKnown
    · exact .inl (into.demand_sameCalls back inRange otherInRange known natives depth)
    · have unknown : ¬ other.SlotsKnown := fun knownToo => known (back.slotsKnown knownToo)
      exact .inr ⟨Analysis.demand_fails known natives depth,
        Analysis.demand_fails unknown natives depth⟩
  ends parents :=
    into.demand_sameCalls back inRange otherInRange (inRange.slotsKnown parents)

end Program.FlowsInto

end FunctionFlow
