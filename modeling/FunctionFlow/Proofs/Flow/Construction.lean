import FunctionFlow.Proofs.Flow.Containers
import Mathlib.Data.Set.Insert

/-!
Contract: the flow of a program does not depend on the graph that it is added to.

The computation that adds the flow hands ids around and compares them, and the ids are those of the
graph that it runs on. None of this shows in what is added: it is the growth of the program, which
mentions no graph.
-/

namespace FunctionFlow

/-- The vertices that the bodies, functions and calls of a program stand for. -/
def Program.flowKeys (program : Program) : Set Vertex :=
  { vertex | vertex ∈ program.growth.places }

/-- The edges that the bodies of a program stand for, as pairs of vertices. -/
def Program.flowArrows (program : Program) : Set (Vertex × Vertex) :=
  { pair | pair ∈ program.growth.arrows }

namespace FlowGraph

/-- The vertices of a graph, whatever their ids. -/
def keys (graph : FlowGraph) : Set Vertex :=
  { vertex | vertex ∈ graph.vertices }

/-- The edges of a graph as pairs of vertices, whatever their ids. -/
def arrows (graph : FlowGraph) : Set (Vertex × Vertex) :=
  { pair | graph.Arrow pair.1 pair.2 }

variable {graph before middle after : FlowGraph} {growth first second : Growth}

theorem Grown.keys_eq (grown : before.Grown growth after) :
    after.keys = before.keys ∪ { vertex | vertex ∈ growth.places } :=
  Set.ext fun _ => grown.mem_vertices

theorem Grown.arrows_eq (grown : before.Grown growth after) :
    after.arrows = before.arrows ∪ { pair | pair ∈ growth.arrows } :=
  Set.ext fun _ => grown.arrow_iff

theorem Grown.exchange {other final otherFinal : FlowGraph} (grown : graph.Grown first middle)
    (further : middle.Grown second final) (grownOther : graph.Grown second other)
    (furtherOther : other.Grown first otherFinal) :
    final.keys = otherFinal.keys ∧ final.arrows = otherFinal.arrows := by
  constructor
  · rw [further.keys_eq, grown.keys_eq, furtherOther.keys_eq, grownOther.keys_eq,
      Set.union_right_comm]
  · rw [further.arrows_eq, grown.arrows_eq, furtherOther.arrows_eq, grownOther.arrows_eq,
      Set.union_right_comm]

/-! ### Requests that add nothing -/

theorem ProlongedBy.size_le (prolonged : before.ProlongedBy after) : before.size ≤ after.size :=
  prolonged.vertices.length_le

theorem WellFormed.serve_eq_or_larger (wellFormed : graph.WellFormed) {request : Request}
    {answer : Answer} (served : graph.serve request = .ok (answer, after)) :
    after = graph ∨ graph.size < after.size ∨ graph.edgeCount < after.edgeCount := by
  cases request with
  | vertex vertex =>
    cases served
    unfold intern
    cases graph.lookup vertex with
    | some id => exact .inl rfl
    | none =>
      have pushed : (graph.push vertex).size = graph.size + 1 := Array.size_push ..
      exact .inr (.inl (Nat.lt_of_lt_of_eq (Nat.lt_succ_self _) pushed.symm))
  | edge source target =>
    obtain ⟨isNew, added, rfl⟩ := serve_edge_eq_ok.mp served
    obtain ⟨_, counted, unchanged⟩ := wellFormed.addEdge_counts added
    cases isNew with
    | false => exact .inl (unchanged rfl)
    | true =>
      have oneMore := counted.mp rfl
      exact .inr (.inr (Nat.lt_of_lt_of_eq (Nat.lt_succ_self _) oneMore.symm))

theorem Evolves.eq_or_larger (evolves : before.Evolves after) (wellFormed : before.WellFormed) :
    after = before ∨ before.size < after.size ∨ before.edgeCount < after.edgeCount := by
  obtain ⟨requests, answers, served⟩ := evolves
  induction requests generalizing before answers with
  | nil =>
    cases served
    exact .inl rfl
  | cons request rest inductionHypothesis =>
    obtain ⟨answer, middle, later, begun, further, rfl⟩ := serveAll_cons_eq_ok.mp served
    have prolonged := prolonged_of_serveAll further
    rcases wellFormed.serve_eq_or_larger begun with rfl | moreVertices | moreEdges
    · exact inductionHypothesis wellFormed later further
    · exact .inr (.inl (Nat.lt_of_lt_of_le moreVertices prolonged.size_le))
    · exact .inr (.inr (Nat.lt_of_lt_of_le moreEdges prolonged.edgeCount_le))

theorem Evolves.eq_of_known (evolves : before.Evolves after) (wellFormed : before.WellFormed)
    (grown : before.Grown growth after) (places : ∀ vertex ∈ growth.places, vertex ∈ before.vertices)
    (arrows : ∀ pair ∈ growth.arrows, before.Arrow pair.1 pair.2) : after = before := by
  have noVertex : after.size ≤ before.size := by
    refine grown.wellFormed.verticesDistinct.length_le_of_subset fun vertex member => ?_
    rw [Array.mem_toList_iff] at member ⊢
    exact (grown.mem_vertices.mp member).elim id (places vertex)
  have noEdge : after.edgeCount ≤ before.edgeCount := by
    refine grown.wellFormed.edgesDistinct.length_le_of_subset fun edge member => ?_
    rw [Array.mem_toList_iff] at member ⊢
    obtain ⟨source, target, atSource, atTarget⟩ := grown.wellFormed.ends_of_edge member
    have arrow : before.Arrow source target :=
      (grown.arrow_iff.mp ⟨_, _, atSource, atTarget, member⟩).elim id (arrows (source, target))
    obtain ⟨sourceId, targetId, oldSource, oldTarget, old⟩ := arrow
    have sameSource := grown.wellFormed.id_unique atSource (grown.kept oldSource)
    have sameTarget := grown.wellFormed.id_unique atTarget (grown.kept oldTarget)
    obtain ⟨edgeSource, edgeTarget⟩ := edge
    cases sameSource
    cases sameTarget
    exact old
  rcases evolves.eq_or_larger wellFormed with same | moreVertices | moreEdges
  · exact same
  · exact absurd moreVertices (Nat.not_lt_of_le noVertex)
  · exact absurd moreEdges (Nat.not_lt_of_le noEdge)

theorem addBodies_again {program : Program} (inRange : program.InRange)
    (grown : before.Grown program.growth after) : after.addBodies program = .ok after := by
  obtain ⟨again, added, grownAgain⟩ := addBodies_grown inRange grown.wellFormed
  have same : again = after :=
    (evolves_addBodies added).eq_of_known grown.wellFormed grownAgain
      (fun _ member => grown.mem_vertices.mpr (.inr member))
      (fun _ member => grown.arrow_iff.mpr (.inr member))
  rw [added, same]

end FlowGraph

/-- A program stands for a set of vertices and a set of edges. Whatever well-formed graph its flow is
added to, these are what is added; a second time adds nothing; and built-in functions may be added
before or after. -/
theorem construction_independent (program : Program) (inRange : program.InRange)
    (graph : FlowGraph) (wellFormed : graph.WellFormed) :
    ∃ after, graph.addBodies program = .ok after ∧ after.WellFormed ∧
      after.keys = graph.keys ∪ program.flowKeys ∧
      after.arrows = graph.arrows ∪ program.flowArrows ∧
      after.addBodies program = .ok after ∧
      ∀ natives : NativeTable, ∃ countFirst seeded nativesFirst countLast nativesLast,
        graph.addNatives natives = .ok (countFirst, seeded) ∧
        seeded.addBodies program = .ok nativesFirst ∧
        after.addNatives natives = .ok (countLast, nativesLast) ∧
        nativesFirst.keys = nativesLast.keys ∧ nativesFirst.arrows = nativesLast.arrows := by
  obtain ⟨after, added, grown⟩ := FlowGraph.addBodies_grown inRange wellFormed
  refine ⟨after, added, grown.wellFormed, grown.keys_eq, grown.arrows_eq,
    FlowGraph.addBodies_again inRange grown, fun natives => ?_⟩
  obtain ⟨countFirst, seeded, seeds, grownSeeded⟩ :=
    Build.natives_yields wellFormed natives.entries
  obtain ⟨nativesFirst, addedLater, grownLater⟩ :=
    FlowGraph.addBodies_grown inRange grownSeeded.wellFormed
  obtain ⟨countLast, nativesLast, seedsLater, grownLast⟩ :=
    Build.natives_yields grown.wellFormed natives.entries
  exact ⟨countFirst, seeded, nativesFirst, countLast, nativesLast, seeds, addedLater, seedsLater,
    grownSeeded.exchange grownLater grown grownLast⟩

/-- A function is assigned to a global name, and the name to itself. -/
def selfAssigned : Program where
  files := #["a.js"]
  functions := #[default]
  scopes := #[{ kind := .file, parent := none, names := .empty }]
  modules := #[{
    file := 0
    scope := 0
    body := [
      .expr (.assign 0 (.ident 1 ⟨"parse", 0, .global⟩) (.function 2 0)),
      .expr (.assign 3 (.ident 4 ⟨"parse", 0, .global⟩) (.ident 5 ⟨"parse", 0, .global⟩))] }]
  nextNode := 6

/-- The name gets the function and no edge to itself, and a built-in function with that name may be
added before or after. -/
theorem construction_independent_selfAssigned :
    selfAssigned.InRange ∧ ({} : FlowGraph).WellFormed ∧
      ∃ after, ({} : FlowGraph).addBodies selfAssigned = .ok after ∧
        after.keys = {.function 0, .named "parse"} ∧
        after.arrows = {(.function 0, .named "parse")} ∧
        after.addBodies selfAssigned = .ok after ∧
        ∃ countFirst seeded nativesFirst countLast nativesLast,
          ({} : FlowGraph).addNatives ⟨[("JSON_parse", "parse")]⟩ = .ok (countFirst, seeded) ∧
          seeded.addBodies selfAssigned = .ok nativesFirst ∧
          after.addNatives ⟨[("JSON_parse", "parse")]⟩ = .ok (countLast, nativesLast) ∧
          nativesFirst.keys = nativesLast.keys ∧ nativesFirst.arrows = nativesLast.arrows := by
  have inRange : selfAssigned.InRange := by decide
  obtain ⟨after, added, _, keys, arrows, again, either⟩ :=
    construction_independent selfAssigned inRange {} FlowGraph.wellFormed_empty
  refine ⟨inRange, FlowGraph.wellFormed_empty, after, added, ?_, ?_, again, either _⟩
  · have places : selfAssigned.growth.places =
        [.function 0, .function 0, .named "parse", .named "parse", .named "parse"] := by decide
    rw [keys]
    ext vertex
    simp [FlowGraph.keys, Program.flowKeys, places]
  · have pairs : selfAssigned.growth.arrows = [(.function 0, .named "parse")] := by decide
    rw [arrows]
    ext pair
    simp [FlowGraph.arrows, FlowGraph.Arrow, Program.flowArrows, pairs]

end FunctionFlow
