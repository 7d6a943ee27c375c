import FunctionFlow.Flow.Native
import FunctionFlow.Proofs.Checked
import FunctionFlow.Proofs.Flow.Representation

/-!
Contract: what a computation adds to a flow graph, as vertices and arrows.

A growth says nothing about ids or about the graph before, so it is the same wherever the
computation runs.
-/

namespace FunctionFlow

/-- Vertices and arrows to be added to a graph. -/
structure Growth where
  places : List Vertex := []
  arrows : List (Vertex × Vertex) := []
  deriving DecidableEq, Repr

namespace Growth

instance : Append Growth :=
  ⟨fun first second => ⟨first.places ++ second.places, first.arrows ++ second.arrows⟩⟩

def place (vertex : Vertex) : Growth := { places := [vertex] }

def arrow (source target : Vertex) : Growth := { arrows := [(source, target)] }

/-- The arrow from a vertex, if there is one, to another vertex. -/
def flow (source : Option Vertex) (target : Vertex) : Growth :=
  match source with
  | some source => if source = target then {} else arrow source target
  | none => {}

def sum : List Growth → Growth
  | [] => {}
  | first :: rest => first ++ sum rest

@[simp] theorem places_append (first second : Growth) :
    (first ++ second).places = first.places ++ second.places := rfl

@[simp] theorem arrows_append (first second : Growth) :
    (first ++ second).arrows = first.arrows ++ second.arrows := rfl

@[simp] theorem places_place (vertex : Vertex) : (place vertex).places = [vertex] := rfl

@[simp] theorem arrows_place (vertex : Vertex) : (place vertex).arrows = [] := rfl

@[simp] theorem places_arrow (source target : Vertex) : (arrow source target).places = [] := rfl

@[simp] theorem arrows_arrow (source target : Vertex) :
    (arrow source target).arrows = [(source, target)] := rfl

@[simp] theorem places_flow (source : Option Vertex) (target : Vertex) :
    (flow source target).places = [] := by
  unfold flow
  split
  · split <;> rfl
  · rfl

@[simp] theorem mem_arrows_flow {source : Option Vertex} {target : Vertex}
    {pair : Vertex × Vertex} :
    pair ∈ (flow source target).arrows ↔
      source = some pair.1 ∧ pair.2 = target ∧ pair.1 ≠ target := by
  obtain ⟨origin, goal⟩ := pair
  cases source with
  | none => simp [flow]
  | some vertex =>
    by_cases same : vertex = target
    · simp only [flow, same, if_true, List.not_mem_nil, Option.some.injEq, false_iff]
      rintro ⟨rfl, _, apart⟩
      exact apart rfl
    · simp only [flow, if_neg same, arrows_arrow, List.mem_singleton, Prod.mk.injEq,
        Option.some.injEq]
      constructor
      · rintro ⟨rfl, rfl⟩
        exact ⟨rfl, rfl, same⟩
      · rintro ⟨rfl, rfl, _⟩
        exact ⟨rfl, rfl⟩

theorem mem_places_sum {growths : List Growth} {vertex : Vertex} :
    vertex ∈ (sum growths).places ↔ ∃ growth ∈ growths, vertex ∈ growth.places := by
  induction growths with
  | nil => simp [sum]
  | cons first rest inductionHypothesis => simp [sum, inductionHypothesis]

theorem mem_arrows_sum {growths : List Growth} {pair : Vertex × Vertex} :
    pair ∈ (sum growths).arrows ↔ ∃ growth ∈ growths, pair ∈ growth.arrows := by
  induction growths with
  | nil => simp [sum]
  | cons first rest inductionHypothesis => simp [sum, inductionHypothesis]

end Growth

/-- `after` is well formed and differs from `before` by the vertices and arrows of a growth. -/
structure FlowGraph.Grown (before : FlowGraph) (growth : Growth) (after : FlowGraph) : Prop where
  wellFormed : after.WellFormed
  kept : ∀ {id vertex}, before.At id vertex → after.At id vertex
  mem_vertices : ∀ {vertex}, vertex ∈ after.vertices ↔
    vertex ∈ before.vertices ∨ vertex ∈ growth.places
  arrow_iff : ∀ {source target}, after.Arrow source target ↔
    before.Arrow source target ∨ (source, target) ∈ growth.arrows

namespace FlowGraph.Grown

theorem refl {graph : FlowGraph} (wellFormed : graph.WellFormed) : graph.Grown {} graph :=
  ⟨wellFormed, id, by simp, by simp⟩

theorem trans {before middle after : FlowGraph} {first second : Growth}
    (grown : before.Grown first middle) (further : middle.Grown second after) :
    before.Grown (first ++ second) after where
  wellFormed := further.wellFormed
  kept found := further.kept (grown.kept found)
  mem_vertices := by
    intro vertex
    rw [further.mem_vertices, grown.mem_vertices, Growth.places_append, List.mem_append, or_assoc]
  arrow_iff := by
    intro source target
    rw [further.arrow_iff, grown.arrow_iff, Growth.arrows_append, List.mem_append, or_assoc]

theorem congr {before after : FlowGraph} {growth other : Growth} (grown : before.Grown growth after)
    (places : ∀ vertex, vertex ∈ growth.places ↔ vertex ∈ other.places)
    (arrows : ∀ pair, pair ∈ growth.arrows ↔ pair ∈ other.arrows) : before.Grown other after where
  wellFormed := grown.wellFormed
  kept := grown.kept
  mem_vertices := by
    intro vertex
    rw [grown.mem_vertices, places]
  arrow_iff := by
    intro source target
    rw [grown.arrow_iff, arrows]

theorem kept_option {before after : FlowGraph} {growth : Growth} (grown : before.Grown growth after)
    {id : Option VertexId} {vertex : Option Vertex} (found : Option.Rel before.At id vertex) :
    Option.Rel after.At id vertex := by
  cases found with
  | none => exact .none
  | some found => exact .some (grown.kept found)

end FlowGraph.Grown

/-! ### Elementary computations -/

namespace FlowGraph

variable {graph : FlowGraph}

theorem at_push {vertex other : Vertex} {id : VertexId} (found : graph.At id other) :
    (graph.push vertex).At id other := by
  have below : id < graph.vertices.size := found.below
  simp only [At, push, Array.getElem?_push, if_neg (Nat.ne_of_lt below)]
  exact found

theorem arrow_push (wellFormed : graph.WellFormed) {vertex source target : Vertex} :
    (graph.push vertex).Arrow source target ↔ graph.Arrow source target := by
  constructor
  · rintro ⟨sourceId, targetId, atSource, atTarget, edge⟩
    obtain ⟨sourceVertex, targetVertex, oldSource, oldTarget⟩ := wellFormed.ends_of_edge edge
    rw [atSource.vertex_unique (at_push oldSource), atTarget.vertex_unique (at_push oldTarget)]
    exact ⟨sourceId, targetId, oldSource, oldTarget, edge⟩
  · rintro ⟨sourceId, targetId, atSource, atTarget, edge⟩
    exact ⟨sourceId, targetId, at_push atSource, at_push atTarget, edge⟩

theorem intern_grown (wellFormed : graph.WellFormed) (vertex : Vertex) :
    graph.Grown (.place vertex) (graph.intern vertex).2 ∧
      (graph.intern vertex).2.At (graph.intern vertex).1 vertex := by
  unfold intern
  split
  · rename_i id looked
    have found := wellFormed.at_of_lookup looked
    refine ⟨⟨wellFormed, fun old => old, ?_, by simp⟩, found⟩
    intro other
    simp only [Growth.places_place, List.mem_singleton]
    constructor
    · exact .inl
    · rintro (old | rfl)
      · exact old
      · exact found.mem
  · rename_i looked
    have isNew := wellFormed.lookup_eq_none.mp looked
    refine ⟨⟨wellFormed.push isNew, at_push, ?_, ?_⟩, ?_⟩
    · simp [push, or_comm]
    · simp [arrow_push wellFormed]
    · simp [At, push, size]

theorem addEdge_grown (wellFormed : graph.WellFormed) {source target : VertexId}
    {sourceVertex targetVertex : Vertex} (atSource : graph.At source sourceVertex)
    (atTarget : graph.At target targetVertex) :
    ∃ isNew after, graph.addEdge source target = .ok (isNew, after) ∧
      graph.Grown (.arrow sourceVertex targetVertex) after := by
  obtain ⟨isNew, after, added, afterWellFormed⟩ :=
    wellFormed.addEdge atSource.below atTarget.below
  have sameVertices := vertices_addEdge added
  have same : ∀ {id vertex}, after.At id vertex ↔ graph.At id vertex := by
    intro id vertex
    rw [At, sameVertices]
  refine ⟨isNew, after, added, afterWellFormed, same.mpr, by simp [sameVertices], ?_⟩
  intro origin goal
  simp only [Growth.arrows_arrow, List.mem_singleton, Prod.mk.injEq]
  constructor
  · rintro ⟨originId, goalId, atOrigin, atGoal, edge⟩
    rcases (wellFormed.mem_edges_addEdge added).mp edge with old | new
    · exact .inl ⟨originId, goalId, same.mp atOrigin, same.mp atGoal, old⟩
    · cases new
      exact .inr ⟨(same.mp atOrigin).vertex_unique atSource,
        (same.mp atGoal).vertex_unique atTarget⟩
  · rintro (⟨originId, goalId, atOrigin, atGoal, edge⟩ | ⟨rfl, rfl⟩)
    · exact ⟨originId, goalId, same.mpr atOrigin, same.mpr atGoal,
        (wellFormed.mem_edges_addEdge added).mpr (.inl edge)⟩
    · exact ⟨source, target, same.mpr atSource, same.mpr atTarget,
        (wellFormed.mem_edges_addEdge added).mpr (.inr rfl)⟩

end FlowGraph

namespace Build

variable {graph : FlowGraph}

theorem vertex_yields (wellFormed : graph.WellFormed) (vertex : Vertex) :
    Yields (Build.vertex vertex) graph fun id after =>
      graph.Grown (.place vertex) after ∧ after.At id vertex :=
  ⟨_, _, rfl, FlowGraph.intern_grown wellFormed vertex⟩

theorem edge_yields (wellFormed : graph.WellFormed) {source target : VertexId}
    {sourceVertex targetVertex : Vertex} (atSource : graph.At source sourceVertex)
    (atTarget : graph.At target targetVertex) :
    Yields (edge source target) graph fun _ after =>
      graph.Grown (.arrow sourceVertex targetVertex) after := by
  obtain ⟨isNew, after, added, grown⟩ := FlowGraph.addEdge_grown wellFormed atSource atTarget
  refine ⟨isNew, after, ?_, grown⟩
  simp only [edge, StateT.run_bind, StateT.run_get, StateT.run_monadLift, pure_bind, monadLift_self,
    added]
  rfl

theorem flow_yields (wellFormed : graph.WellFormed) {source : Option VertexId} {target : VertexId}
    {sourceVertex : Option Vertex} {targetVertex : Vertex}
    (atSource : Option.Rel graph.At source sourceVertex) (atTarget : graph.At target targetVertex) :
    Yields (flow source target) graph fun _ after =>
      graph.Grown (.flow sourceVertex targetVertex) after := by
  cases atSource with
  | none => exact .pure (.refl wellFormed)
  | @some source sourceVertex atSource =>
    by_cases same : source = target
    · subst same
      rw [atSource.vertex_unique atTarget]
      simp only [flow, Growth.flow, if_true]
      exact .pure (.refl wellFormed)
    · have apart : sourceVertex ≠ targetVertex := by
        rintro rfl
        exact same (wellFormed.id_unique atSource atTarget)
      simp only [flow, Growth.flow, if_neg same, if_neg apart]
      exact .discard (edge_yields wellFormed atSource atTarget)

theorem forM_yields {α : Type} {items : List α} {step : α → Build Unit} {growth : α → Growth}
    (wellFormed : graph.WellFormed)
    (each : ∀ item ∈ items, ∀ {between : FlowGraph}, between.WellFormed →
      Yields (step item) between fun _ after => between.Grown (growth item) after) :
    Yields (items.forM step) graph fun _ after => graph.Grown (.sum (items.map growth)) after := by
  induction items generalizing graph with
  | nil => exact .pure (.refl wellFormed)
  | cons first rest inductionHypothesis =>
    refine (each first List.mem_cons_self wellFormed).bind fun _ after grown => ?_
    refine (inductionHypothesis grown.wellFormed fun item member =>
      each item (List.mem_cons_of_mem _ member)).mono fun _ _ grownRest => ?_
    exact grown.trans grownRest

def nativeGrowth (entry : String × String) : Growth :=
  .place (.native entry.1) ++ .place (.named entry.2) ++ .arrow (.native entry.1) (.named entry.2)

theorem natives_yields (wellFormed : graph.WellFormed) (entries : List (String × String)) :
    Yields (natives entries) graph fun _ after =>
      graph.Grown (.sum (entries.map nativeGrowth)) after := by
  induction entries generalizing graph with
  | nil => exact .pure (.refl wellFormed)
  | cons entry rest inductionHypothesis =>
    refine (vertex_yields wellFormed _).bind fun source afterSource ⟨grown, atSource⟩ => ?_
    refine (vertex_yields grown.wellFormed _).bind fun target afterTarget ⟨grown', atTarget⟩ => ?_
    refine (edge_yields grown'.wellFormed (grown'.kept atSource) atTarget).bind
      fun isNew afterEdge grown'' => ?_
    refine (inductionHypothesis grown''.wellFormed).bind fun later final grownRest => ?_
    exact .pure (((grown.trans grown').trans grown'').trans grownRest)

end Build

end FunctionFlow
