import FunctionFlow.Analysis.Demand
import FunctionFlow.Proofs.Analysis.Query
import FunctionFlow.Proofs.CallGraph.Order
import FunctionFlow.Proofs.Flow.Linking
import Mathlib.Data.List.Perm.Subperm

/-!
Contract: rounds of queries lead to the least graph that is closed under linking what is found.

Queries only find more in a larger graph, so linking an answer that is out of date is never wrong;
the last round links nothing, so its answers are those of the final graph.
-/

namespace FunctionFlow

variable {graph : FlowGraph}

namespace FlowGraph

/-- Every call is linked to the values that its query finds. -/
def LinksFound (program : Program) (shared : List VertexId) (depth : Nat) (graph : FlowGraph) :
    Prop :=
  ∀ call callee found target, graph.At callee (.callee call) →
    graph.query shared depth callee = .ok found → target ∈ found →
    ∀ edge, graph.LinkEdge program call target edge → edge ∈ graph.edges

theorem LinksFound.edge {program : Program} {shared : List VertexId} {depth : Nat}
    (links : graph.LinksFound program shared depth) (wellFormed : graph.WellFormed) {call : CallId}
    {callee target : VertexId} (atCallee : graph.At callee (.callee call))
    (finds : Query.Finds graph depth shared callee target) {edge : VertexId × VertexId}
    (asked : graph.LinkEdge program call target edge) : edge ∈ graph.edges := by
  obtain ⟨found, queried, isFound⟩ := (exists_query_iff wellFormed atCallee.below).mpr finds
  exact links call callee found target atCallee queried isFound edge asked

theorem LinkEdge.mono {small large : FlowGraph} (within : small.Within large) {program : Program}
    {call : CallId} {target : VertexId} {edge : VertexId × VertexId}
    (asked : small.LinkEdge program call target edge) :
    large.LinkEdge program call target edge := by
  obtain ⟨function, site, source, sink, atTarget, isCall, tied, atSource, atSink⟩ := asked
  exact ⟨function, site, source, sink, within.kept atTarget, isCall, tied, within.kept atSource,
    within.kept atSink⟩

theorem WellFormed.within_of_count {small large : FlowGraph} (wellFormed : small.WellFormed)
    (within : small.Within large) (vertices : large.vertices = small.vertices)
    (count : large.edgeCount ≤ small.edgeCount) : large.Within small := by
  refine ⟨fun found => ?_, fun {edge} member => ?_⟩
  · rwa [At, ← vertices]
  · have subset : small.edges.toList ⊆ large.edges.toList := by
      intro other inside
      exact Array.mem_toList_iff.mpr (within.edges (Array.mem_toList_iff.mp inside))
    have perm := (List.subperm_of_subset wellFormed.edgesDistinct subset).perm_of_length_le count
    exact Array.mem_toList_iff.mp (perm.mem_iff.mpr (Array.mem_toList_iff.mpr member))

end FlowGraph

namespace Demand

variable {state : Demand} {program : Program} {shared : List VertexId} {depth : Nat}
  {callees : List (CallId × VertexId)} {initial : FlowGraph}

/-! ### One round -/

/-- Linking a list of pairs adds the edges that they ask for, provided that the pairs that are
linked already have theirs. -/
theorem linkFound_spec {linked pairs : List (CallId × VertexId)} (wellFormed : graph.WellFormed)
    (present : ∀ call target, (call, target) ∈ linked →
      ∀ edge, graph.LinkEdge program call target edge → edge ∈ graph.edges)
    (inRange : ∀ call target, (call, target) ∈ pairs →
      call < program.calls.size ∧ target < graph.size) :
    ∃ added linkedAfter after, linkFound program linked graph pairs =
        .ok (added, linkedAfter, after) ∧ after.WellFormed ∧ after.vertices = graph.vertices ∧
      (∀ pair, pair ∈ linkedAfter ↔ pair ∈ linked ∨ pair ∈ pairs) ∧
      (∀ edge, edge ∈ after.edges ↔ edge ∈ graph.edges ∨
        ∃ call target, (call, target) ∈ pairs ∧ graph.LinkEdge program call target edge) ∧
      after.edgeCount = graph.edgeCount + added := by
  induction pairs generalizing linked graph with
  | nil => exact ⟨0, linked, graph, rfl, wellFormed, rfl, by simp, by simp, rfl⟩
  | cons pair rest inductionHypothesis =>
    obtain ⟨call, target⟩ := pair
    have restInRange : ∀ other value, (other, value) ∈ rest →
        other < program.calls.size ∧ value < graph.size := fun other value member =>
      inRange other value (List.mem_cons_of_mem _ member)
    unfold linkFound
    split
    · rename_i already
      have isLinked : (call, target) ∈ linked := List.contains_iff_mem.mp already
      obtain ⟨added, linkedAfter, after, ran, afterWellFormed, vertices, mem_linked, mem_edges,
        count⟩ := inductionHypothesis wellFormed present restInRange
      refine ⟨added, linkedAfter, after, ran, afterWellFormed, vertices, fun pair => ?_,
        fun edge => ?_, count⟩
      · rw [mem_linked, List.mem_cons]
        constructor
        · rintro (old | later)
          · exact .inl old
          · exact .inr (.inr later)
        · rintro (old | rfl | later)
          · exact .inl old
          · exact .inl isLinked
          · exact .inr later
      · rw [mem_edges, FlowGraph.linkEdge_cons, ← or_assoc]
        exact or_congr_left (or_iff_left_of_imp (present call target isLinked edge)).symm
    · obtain ⟨callInRange, targetBelow⟩ := inRange call target List.mem_cons_self
      obtain ⟨sources, middle, linkedOne, tied⟩ :=
        FlowGraph.link_tied wellFormed callInRange targetBelow
      have sameAsked {other : CallId} {value : VertexId} {edge : VertexId × VertexId} :
          middle.LinkEdge program other value edge ↔ graph.LinkEdge program other value edge :=
        FlowGraph.linkEdge_congr tied.vertices
      have presentAfter : ∀ other value, (other, value) ∈ (call, target) :: linked →
          ∀ edge, middle.LinkEdge program other value edge → edge ∈ middle.edges := by
        intro other value member edge asked
        rw [sameAsked] at asked
        rw [tied.mem_edges]
        rcases List.mem_cons.mp member with same | old
        · cases same
          exact .inr asked
        · exact .inl (present other value old edge asked)
      have sameSize : middle.size = graph.size := congrArg Array.size tied.vertices
      obtain ⟨added, linkedAfter, after, ran, afterWellFormed, vertices, mem_linked, mem_edges,
        count⟩ := inductionHypothesis tied.wellFormed presentAfter (sameSize ▸ restInRange)
      refine ⟨sources.length + added, linkedAfter, after, ?_, afterWellFormed,
        vertices.trans tied.vertices, fun pair => ?_, fun edge => ?_, ?_⟩
      · simp only [linkedOne, Checked.ok_bind, ran]
        rfl
      · rw [mem_linked, List.mem_cons, List.mem_cons]
        simp only [or_comm, or_left_comm]
      · rw [mem_edges, tied.mem_edges, FlowGraph.linkEdge_cons, or_assoc]
        simp only [sameAsked]
      · rw [count, tied.edgeCount, Nat.add_assoc]

theorem queryAll_spec (wellFormed : graph.WellFormed)
    (below : ∀ call callee, (call, callee) ∈ callees → callee < graph.size) :
    ∃ resolved, queryAll graph shared depth callees = .ok resolved ∧
      ∀ call target, (call, target) ∈ foundPairs resolved ↔
        ∃ callee, (call, callee) ∈ callees ∧ Query.Finds graph depth shared callee target := by
  have answers {call : CallId} {callee : VertexId} (member : (call, callee) ∈ callees) :=
    FlowGraph.query_finds wellFormed shared depth (below call callee member)
  have total : ∀ item ∈ callees, ∃ result,
      (do return (item.1, ← graph.query shared depth item.2) : Checked (CallId × List VertexId)) =
        .ok result := by
    rintro ⟨call, callee⟩ member
    obtain ⟨found, queried, _⟩ := answers member
    exact ⟨(call, found), by rw [queried]; rfl⟩
  obtain ⟨resolved, computed, mem_resolved⟩ := Checked.mapM_eq_ok total
  refine ⟨resolved, computed, fun call target => ?_⟩
  simp only [foundPairs, List.mem_flatMap, List.mem_map, Prod.exists, Prod.mk.injEq]
  constructor
  · rintro ⟨_, found, inResolved, _, inFound, rfl, rfl⟩
    obtain ⟨⟨other, callee⟩, member, made⟩ := (mem_resolved _).mp inResolved
    obtain ⟨answer, queried, made⟩ := Checked.bind_eq_ok.mp made
    cases made
    obtain ⟨_, queried', mem_found⟩ := answers member
    cases queried.symm.trans queried'
    exact ⟨callee, member, (mem_found _).mp inFound⟩
  · rintro ⟨callee, member, finds⟩
    obtain ⟨found, queried, mem_found⟩ := answers member
    refine ⟨call, found, (mem_resolved _).mpr ⟨(call, callee), member, ?_⟩, target,
      (mem_found target).mpr finds, rfl, rfl⟩
    simp only [queried, Checked.ok_bind]
    rfl

/-- What holds between rounds: the graph lies between the first graph and every larger graph in
which calls are linked to what their queries find. -/
structure Bounded (program : Program) (shared : List VertexId) (depth : Nat) (initial : FlowGraph)
    (state : Demand) : Prop where
  wellFormed : state.graph.WellFormed
  vertices : state.graph.vertices = initial.vertices
  edges : ∀ {edge}, edge ∈ initial.edges → edge ∈ state.graph.edges
  present : ∀ call target, (call, target) ∈ state.linked →
    ∀ edge, state.graph.LinkEdge program call target edge → edge ∈ state.graph.edges
  least : ∀ large : FlowGraph, large.WellFormed → initial.Within large →
    large.LinksFound program shared depth → state.graph.Within large

theorem Bounded.at_iff (bounded : state.Bounded program shared depth initial) {id : VertexId}
    {vertex : Vertex} : state.graph.At id vertex ↔ initial.At id vertex := by
  rw [FlowGraph.At, bounded.vertices]

theorem Bounded.within (bounded : state.Bounded program shared depth initial) :
    initial.Within state.graph :=
  ⟨bounded.at_iff.mpr, bounded.edges⟩

def CalleesOf (program : Program) (initial : FlowGraph) (callees : List (CallId × VertexId)) :
    Prop :=
  ∀ call callee, (call, callee) ∈ callees →
    initial.At callee (.callee call) ∧ call < program.calls.size

/-- A round keeps the bounds, links what its queries found, and counts the edges it adds. -/
theorem round_bounded (calleesOf : CalleesOf program initial callees)
    (bounded : state.Bounded program shared depth initial) :
    ∃ after added, state.round program shared depth callees = .ok after ∧
      after.Bounded program shared depth initial ∧ state.graph.Within after.graph ∧
      after.added = added :: state.added ∧
      after.graph.edgeCount = state.graph.edgeCount + added ∧
      (∀ call target, (call, target) ∈ foundPairs after.resolved ↔
        ∃ callee, (call, callee) ∈ callees ∧ Query.Finds state.graph depth shared callee target) ∧
      ∀ call target, (call, target) ∈ foundPairs after.resolved →
        ∀ edge, after.graph.LinkEdge program call target edge → edge ∈ after.graph.edges := by
  obtain ⟨resolved, queried, mem_found⟩ := queryAll_spec bounded.wellFormed
    fun call callee member => (bounded.at_iff.mpr (calleesOf call callee member).1).below
  have pairsInRange : ∀ call target, (call, target) ∈ foundPairs resolved →
      call < program.calls.size ∧ target < state.graph.size := by
    intro call target member
    obtain ⟨callee, isCallee, finds⟩ := (mem_found call target).mp member
    obtain ⟨vertex, atTarget, _⟩ := finds.isValue
    exact ⟨(calleesOf call callee isCallee).2, atTarget.below⟩
  obtain ⟨added, linkedAfter, graph, ran, wellFormed, vertices, mem_linked, mem_edges, count⟩ :=
    linkFound_spec bounded.wellFormed bounded.present pairsInRange
  have sameAsked {call : CallId} {target : VertexId} {edge : VertexId × VertexId} :
      graph.LinkEdge program call target edge ↔ state.graph.LinkEdge program call target edge :=
    FlowGraph.linkEdge_congr vertices
  have grows : state.graph.Within graph :=
    ⟨fun found => by rwa [FlowGraph.At, vertices], fun old => (mem_edges _).mpr (.inl old)⟩
  have foundLinked : ∀ call target, (call, target) ∈ foundPairs resolved →
      ∀ edge, graph.LinkEdge program call target edge → edge ∈ graph.edges :=
    fun call target member edge asked =>
      (mem_edges edge).mpr (.inr ⟨call, target, member, sameAsked.mp asked⟩)
  refine ⟨{ graph, linked := linkedAfter, added := added :: state.added, resolved }, added, ?_, ?_,
    grows, rfl, count, mem_found, foundLinked⟩
  · simp only [round, queried, Checked.ok_bind, ran]
    rfl
  · constructor
    case wellFormed => exact wellFormed
    case vertices => exact vertices.trans bounded.vertices
    case edges => exact fun old => grows.edges (bounded.edges old)
    case present =>
      intro call target member edge asked
      rcases (mem_linked _).mp member with old | new
      · exact grows.edges (bounded.present call target old edge (sameAsked.mp asked))
      · exact foundLinked call target new edge asked
    case least =>
      -- what is found in the smaller graph is found, hence linked, in every closed larger one
      intro large largeWellFormed isLarger links
      have below := bounded.least large largeWellFormed isLarger links
      refine ⟨fun found => below.kept (by rwa [FlowGraph.At, ← vertices]), fun {edge} member => ?_⟩
      rcases (mem_edges edge).mp member with old | ⟨call, target, inFound, asked⟩
      · exact below.edges old
      · obtain ⟨callee, isCallee, finds⟩ := (mem_found call target).mp inFound
        exact links.edge largeWellFormed (isLarger.kept (calleesOf call callee isCallee).1)
          (finds.mono below) (asked.mono below)

/-! ### All rounds -/

/-- Repeats rounds until one adds no edge. The round after `n` others takes the calls in the order
`orders n`. -/
def convergeIn (program : Program) (shared : List VertexId) (depth : Nat)
    (orders : Nat → List (CallId × VertexId)) (state : Demand) : Checked Demand :=
  match _next : state.round program shared depth (orders state.added.length) with
  | .error failure => .error failure
  | .ok later =>
    if _still : later.added.head? = some 0 then .ok later
    else later.convergeIn program shared depth orders
termination_by state.graph.absentEdges
decreasing_by exact absentEdges_round _next _still

theorem converge_eq (callees : List (CallId × VertexId)) (state : Demand) :
    state.converge program shared depth callees =
      state.round program shared depth callees >>= fun later =>
        if later.added.head? = some 0 then .ok later
        else later.converge program shared depth callees := by
  rw [converge]
  split
  · rename_i failed
    rw [failed]
    rfl
  · rename_i rounded
    rw [rounded, Checked.ok_bind]
    rfl

theorem convergeIn_const (callees : List (CallId × VertexId)) (state : Demand) :
    state.convergeIn program shared depth (fun _ => callees) =
      state.converge program shared depth callees := by
  fun_induction converge program shared depth callees state with
  | case1 state failure failed =>
    rw [convergeIn]
    split
    · rename_i failed'
      exact failed'.symm.trans failed
    · rename_i ran
      exact nomatch failed.symm.trans ran
  | case2 state later ran still =>
    rw [convergeIn]
    split
    · rename_i failed
      exact nomatch failed.symm.trans ran
    · rename_i ran'
      cases ran.symm.trans ran'
      rw [dif_pos still]
  | case3 state later ran notDone inductionHypothesis =>
    rw [convergeIn]
    split
    · rename_i failed
      exact nomatch failed.symm.trans ran
    · rename_i ran'
      cases ran.symm.trans ran'
      rw [dif_neg notDone, inductionHypothesis]

/-- The rounds have ended: the latest answers are those of the final graph, and all are linked. -/
structure Converged (program : Program) (shared : List VertexId) (depth : Nat)
    (callees : List (CallId × VertexId)) (initial : FlowGraph) (final : Demand) : Prop where
  bounded : final.Bounded program shared depth initial
  resolved : ∀ {call target}, (call, target) ∈ foundPairs final.resolved ↔
    ∃ callee, (call, callee) ∈ callees ∧ Query.Finds final.graph depth shared callee target
  linked : ∀ {call target}, (call, target) ∈ foundPairs final.resolved →
    ∀ edge, final.graph.LinkEdge program call target edge → edge ∈ final.graph.edges

/-- The rounds end, whatever the order in which each of them takes the calls, and there is at most
one round more than edges added. -/
theorem convergeIn_converged (calleesOf : CalleesOf program initial callees)
    {orders : Nat → List (CallId × VertexId)} (sameCalls : ∀ n, (orders n).Perm callees)
    (bounded : state.Bounded program shared depth initial) :
    ∃ final, state.convergeIn program shared depth orders = .ok final ∧
      final.Converged program shared depth callees initial ∧
      final.added.length + state.graph.edgeCount ≤
        state.added.length + 1 + final.graph.edgeCount := by
  have ordersOf (n : Nat) : CalleesOf program initial (orders n) := fun call callee member =>
    calleesOf call callee ((sameCalls n).mem_iff.mp member)
  fun_induction convergeIn program shared depth orders state with
  | case1 state failure failed =>
    obtain ⟨after, _, ran, _⟩ := round_bounded (ordersOf state.added.length) bounded
    exact nomatch failed.symm.trans ran
  | case2 state later ran still =>
    obtain ⟨after, added, ran', afterBounded, grows, counted, edgeCount, resolved, linked⟩ :=
      round_bounded (ordersOf state.added.length) bounded
    cases ran.symm.trans ran'
    have none : added = 0 := by simpa [counted] using still
    subst none
    -- no edge was added, so the queries of the round are those of the graph after it
    have shrinks : later.graph.Within state.graph :=
      bounded.wellFormed.within_of_count grows
        (afterBounded.vertices.trans bounded.vertices.symm) (Nat.le_of_eq edgeCount)
    refine ⟨later, rfl, ⟨afterBounded, fun {call target} => ?_, linked _ _⟩, ?_⟩
    · rw [resolved]
      constructor
      · rintro ⟨callee, member, finds⟩
        exact ⟨callee, (sameCalls _).mem_iff.mp member, finds.mono grows⟩
      · rintro ⟨callee, member, finds⟩
        exact ⟨callee, (sameCalls _).mem_iff.mpr member, finds.mono shrinks⟩
    · rw [counted, edgeCount, List.length_cons]
      omega
  | case3 state later ran notDone inductionHypothesis =>
    obtain ⟨after, added, ran', afterBounded, _, counted, edgeCount, _, _⟩ :=
      round_bounded (ordersOf state.added.length) bounded
    cases ran.symm.trans ran'
    have some : added ≠ 0 := by simpa [counted] using notDone
    obtain ⟨final, converged, isConverged, rounds⟩ := inductionHypothesis afterBounded
    refine ⟨final, converged, isConverged, ?_⟩
    rw [counted, edgeCount, List.length_cons] at rounds
    omega

namespace Converged

variable {final : Demand} (converged : final.Converged program shared depth callees initial)
include converged

theorem linksFound (complete : ∀ call callee, initial.At callee (.callee call) →
      (call, callee) ∈ callees) : final.graph.LinksFound program shared depth := by
  intro call callee found target atCallee queried inFound
  have finds := (FlowGraph.exists_query_iff converged.bounded.wellFormed atCallee.below).mp
    ⟨found, queried, inFound⟩
  have member := complete call callee (converged.bounded.at_iff.mp atCallee)
  exact converged.linked (converged.resolved.mpr ⟨callee, member, finds⟩)

theorem callGraph_eq :
    ∃ calls, final.callGraph = .ok calls ∧ calls.Increasing ∧ ∀ pair, pair ∈ calls.pairs ↔
      ∃ call callee target, pair.1 = .callee call ∧ (call, callee) ∈ callees ∧
        Query.Finds final.graph depth shared callee target ∧ final.graph.At target pair.2 := by
  have total : ∀ item ∈ foundPairs final.resolved, ∃ pair,
      (do return (Vertex.callee item.1, ← final.graph.get item.2) : Checked (Vertex × Vertex)) =
        .ok pair := by
    rintro ⟨call, target⟩ member
    obtain ⟨_, _, finds⟩ := converged.resolved.mp member
    obtain ⟨vertex, atTarget, _⟩ := finds.isValue
    exact ⟨_, by rw [FlowGraph.get_eq_ok.mpr atTarget]; rfl⟩
  obtain ⟨pairs, computed, mem_pairs⟩ := Checked.mapM_eq_ok total
  refine ⟨CallGraph.empty.insertAll pairs, ?_, CallGraph.increasing_empty.insertAll pairs,
    fun pair => ?_⟩
  · exact congrArg (· >>= fun pairs => pure (CallGraph.empty.insertAll pairs)) computed
  · rw [CallGraph.mem_empty_insertAll, mem_pairs]
    constructor
    · rintro ⟨⟨call, target⟩, member, made⟩
      obtain ⟨vertex, got, made⟩ := Checked.bind_eq_ok.mp made
      cases made
      obtain ⟨callee, isCallee, finds⟩ := converged.resolved.mp member
      exact ⟨call, callee, target, rfl, isCallee, finds, FlowGraph.get_eq_ok.mp got⟩
    · rintro ⟨call, callee, target, same, isCallee, finds, atTarget⟩
      refine ⟨(call, target), converged.resolved.mpr ⟨callee, isCallee, finds⟩, ?_⟩
      rw [FlowGraph.get_eq_ok.mpr atTarget, ← same]
      rfl

theorem unique (complete : ∀ call callee, initial.At callee (.callee call) →
      (call, callee) ∈ callees) {other : Demand}
    (otherConverged : other.Converged program shared depth callees initial) :
    (∀ edge, edge ∈ other.graph.edges ↔ edge ∈ final.graph.edges) ∧
      other.callGraph = final.callGraph := by
  have left : final.graph.Within other.graph := converged.bounded.least other.graph
    otherConverged.bounded.wellFormed otherConverged.bounded.within
    (otherConverged.linksFound complete)
  have right : other.graph.Within final.graph := otherConverged.bounded.least final.graph
    converged.bounded.wellFormed converged.bounded.within (converged.linksFound complete)
  refine ⟨fun edge => ⟨right.edges, left.edges⟩, ?_⟩
  obtain ⟨calls, computed, increasing, mem_calls⟩ := converged.callGraph_eq
  obtain ⟨otherCalls, otherComputed, otherIncreasing, mem_otherCalls⟩ := otherConverged.callGraph_eq
  rw [computed, otherComputed]
  refine congrArg Except.ok (CallGraph.eq_of_pairs otherIncreasing increasing fun pair => ?_)
  rw [mem_calls, mem_otherCalls]
  constructor
  · rintro ⟨call, callee, target, same, isCallee, finds, atTarget⟩
    exact ⟨call, callee, target, same, isCallee, finds.mono right, right.kept atTarget⟩
  · rintro ⟨call, callee, target, same, isCallee, finds, atTarget⟩
    exact ⟨call, callee, target, same, isCallee, finds.mono left, left.kept atTarget⟩

end Converged

end Demand

end FunctionFlow
