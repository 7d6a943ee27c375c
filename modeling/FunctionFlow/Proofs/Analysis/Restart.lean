import FunctionFlow.Proofs.Analysis.EveryTurn

/-!
Contract: a propagation that is given up can be started again.
-/

namespace FunctionFlow

theorem FlowGraph.WellFormed.mem_edges_of_arrow {graph other : FlowGraph}
    (wellFormed : graph.WellFormed) (otherFormed : other.WellFormed)
    (vertices : graph.vertices = other.vertices)
    (arrows : ∀ {source target}, graph.Arrow source target → other.Arrow source target)
    {edge : VertexId × VertexId} (member : edge ∈ graph.edges) : edge ∈ other.edges := by
  obtain ⟨source, target, atSource, atTarget⟩ := wellFormed.ends_of_edge member
  obtain ⟨sourceId, targetId, atSource', atTarget', member'⟩ :=
    arrows ⟨_, _, atSource, atTarget, member⟩
  rw [At, vertices] at atSource atTarget
  cases otherFormed.id_unique atSource atSource'
  cases otherFormed.id_unique atTarget atTarget'
  exact member'

theorem FlowGraph.ProlongedBy.edges_eq {before after : FlowGraph}
    (prolonged : before.ProlongedBy after) (wellFormed : after.WellFormed)
    (nothingNew : ∀ edge ∈ after.edges, edge ∈ before.edges) : after.edges = before.edges := by
  have longer : after.edges.toList.length ≤ before.edges.toList.length :=
    (wellFormed.edgesDistinct.subperm fun edge member =>
      Array.mem_toList_iff.mpr (nothingNew edge (Array.mem_toList_iff.mp member))).length_le
  exact (Array.toList_inj.mp (prolonged.edges.eq_of_length_le longer)).symm

namespace Propagation

variable {program : Program} {origin : FlowGraph} {state : Propagation}

/-- The graph of a state has the derived flow of the graph that the propagation began with. -/
theorem Consistent.reaches_iff (consistent : state.Consistent program origin noDebt allLinked)
    {value vertex : Vertex} :
    Reaches program state.graph value vertex ↔ Reaches program origin value vertex := by
  constructor
  · intro reached
    induction reached with
    | value member isValue => exact .value (consistent.vertices ▸ member) isValue
    | arrow _ arrow inductionHypothesis =>
      obtain ⟨sourceId, targetId, atSource, atTarget, edge⟩ := arrow
      exact consistent.reaches_edge edge (consistent.at_iff.mp atSource)
        (consistent.at_iff.mp atTarget) inductionHypothesis
    | link member isCall _ tied _ calledHypothesis inductionHypothesis =>
      exact .link (consistent.vertices ▸ member) isCall calledHypothesis tied inductionHypothesis
  · intro reached
    induction reached with
    | value member isValue => exact .value (consistent.vertices ▸ member) isValue
    | arrow _ arrow inductionHypothesis =>
      obtain ⟨sourceId, targetId, atSource, atTarget, edge⟩ := arrow
      exact .arrow inductionHypothesis ⟨sourceId, targetId, consistent.at_iff.mpr atSource,
        consistent.at_iff.mpr atTarget, consistent.edges.mpr (.inl edge)⟩
    | link member isCall _ tied _ calledHypothesis inductionHypothesis =>
      exact .link (consistent.vertices ▸ member) isCall calledHypothesis tied inductionHypothesis

/-- Two states have the same call graph, the same facts and the same set of edges. -/
structure SameResult (left right : Propagation) : Prop where
  calls : ∃ calls, left.callGraph = .ok calls ∧ right.callGraph = .ok calls
  facts : left.facts = right.facts
  edges : ∀ edge, edge ∈ left.graph.edges ↔ edge ∈ right.graph.edges

theorem callGraph_congr {left right : Propagation}
    (vertices : left.graph.vertices = right.graph.vertices) (facts : left.facts = right.facts) :
    left.callGraph = right.callGraph := by
  unfold callGraph calleePairs calleeRow FlowGraph.get
  rw [vertices, facts]

theorem Solved.holds_iff_exists (solved : state.Solved program origin) {id value : VertexId}
    {vertex : Vertex} (atVertex : origin.At id vertex) :
    state.facts.holds id value ↔
      ∃ found, origin.At value found ∧ Reaches program origin found vertex := by
  constructor
  · intro known
    obtain ⟨found, atValue, _⟩ := solved.consistent.isValue known
    exact ⟨found, atValue, (solved.holds_iff atVertex atValue).mp known⟩
  · rintro ⟨found, atValue, reached⟩
    exact (solved.holds_iff atVertex atValue).mpr reached

/-- Linking meets a call that a smaller program lacks just if some function reaches its callee. -/
theorem Solved.namesLinked_iff (solved : state.Solved program origin) {smaller : Program} :
    state.NamesLinked smaller ↔ ∀ call function,
      Reaches program origin (.function function) (.callee call) → call < smaller.calls.size := by
  constructor
  · intro named call function reached
    obtain ⟨callee, atCallee⟩ := FlowGraph.exists_at_of_mem (reached.arrives.resolve_right id)
    obtain ⟨target, atTarget⟩ := FlowGraph.exists_at_of_mem reached.isValue.1
    have known := (solved.holds_iff atCallee atTarget).mpr reached
    exact named call target function (solved.consistent.linked_of_holds atCallee known)
      (solved.consistent.at_iff.mpr atTarget)
  · intro isCall call target function linked atTarget
    obtain ⟨callee, found, _, _, atFound, reached⟩ := solved.consistent.linkedReached linked
    cases (solved.consistent.at_iff.mp atTarget).vertex_unique atFound
    exact isCall call function reached

section Restart

variable {final again : Propagation}
  (consistent : state.Consistent program origin noDebt allLinked)
  (solved : final.Solved program origin) (solvedAgain : again.Solved program state.graph)
include consistent solved solvedAgain

theorem Solved.facts_eq (ordered : final.facts.Ordered) (orderedAgain : again.facts.Ordered) :
    again.facts = final.facts := by
  have size : again.facts.rows.size = final.facts.rows.size := by
    rw [solvedAgain.consistent.factRows, solved.consistent.factRows, consistent.size_eq]
  refine orderedAgain.ext ordered size fun id below value => ?_
  rw [solvedAgain.consistent.factRows] at below
  have atVertex : state.graph.At id state.graph.vertices[id] := Array.getElem?_eq_getElem below
  rw [FactTable.mem_row, FactTable.mem_row, solvedAgain.holds_iff_exists atVertex,
    solved.holds_iff_exists (consistent.at_iff.mp atVertex)]
  simp only [consistent.at_iff, consistent.reaches_iff]

theorem Solved.arrow_restart (extended : Extends state final) {source target : Vertex} :
    again.graph.Arrow source target ↔ final.graph.Arrow source target := by
  rw [solvedAgain.arrow_iff]
  simp only [consistent.reaches_iff, consistent.vertices]
  constructor
  · rintro (⟨sourceId, targetId, atSource, atTarget, edge⟩ | linked)
    · rw [FlowGraph.At, ← extended.vertices] at atSource atTarget
      exact ⟨sourceId, targetId, atSource, atTarget, extended.edges edge⟩
    · exact solved.arrow_iff.mpr (.inr linked)
  · intro arrow
    rcases solved.arrow_iff.mp arrow with ⟨sourceId, targetId, atSource, atTarget, edge⟩ | linked
    · exact .inl ⟨sourceId, targetId, consistent.at_iff.mpr atSource,
        consistent.at_iff.mpr atTarget, consistent.edges.mpr (.inl edge)⟩
    · exact .inr linked

theorem Solved.sameResult (extended : Extends state final) (ordered : final.facts.Ordered)
    (orderedAgain : again.facts.Ordered) : again.SameResult final := by
  have vertices : again.graph.vertices = final.graph.vertices := by
    rw [solvedAgain.consistent.vertices, consistent.vertices, solved.consistent.vertices]
  have facts := solved.facts_eq consistent solvedAgain ordered orderedAgain
  obtain ⟨calls, computed, _⟩ := solved.callGraph_eq
  have arrows {source target : Vertex} :
      again.graph.Arrow source target ↔ final.graph.Arrow source target :=
    solved.arrow_restart consistent solvedAgain extended
  refine ⟨⟨calls, (callGraph_congr vertices facts).trans computed, computed⟩, facts, ?_⟩
  intro edge
  constructor
  · exact solvedAgain.consistent.wellFormed.mem_edges_of_arrow solved.consistent.wellFormed vertices
      arrows.mp
  · exact solved.consistent.wellFormed.mem_edges_of_arrow solvedAgain.consistent.wellFormed
      vertices.symm arrows.mpr

end Restart

theorem outcome_wellFormed (wellFormed : origin.WellFormed)
    (ended : outcome program origin = .ok state) : state.graph.WellFormed := by
  obtain ⟨count, taken, _⟩ := outcome_eq_ok.mp ended
  obtain ⟨_, _, _, _, _, consistent⟩ := exists_larger_consistent wellFormed taken
  exact consistent.wellFormed

theorem outcome_restart (wellFormed : origin.WellFormed) {count : Nat}
    (taken : afterTurns program origin count = .ok state) :
    ((∃ final, outcome program origin = .ok final) ↔
      ∃ again, outcome program state.graph = .ok again) ∧
    ∀ final again, outcome program origin = .ok final →
      outcome program state.graph = .ok again → again.SameResult final := by
  -- with all calls of the graph at hand, both propagations succeed
  obtain ⟨larger, within, namesCalls, takenWhole, _, consistent⟩ :=
    exists_larger_consistent wellFormed taken
  have namesCallsAgain : state.graph.NamesCalls larger :=
    fun call member => namesCalls call (consistent.vertices ▸ member)
  obtain ⟨final, ended, solved⟩ := outcome_solved wellFormed namesCalls
  obtain ⟨again, endedAgain, solvedAgain⟩ := outcome_solved consistent.wellFormed namesCallsAgain
  have sameResult : again.SameResult final := by
    have extended := (run_moves ((outcome_eq_run takenWhole).symm.trans ended)).extends
    exact solved.sameResult consistent solvedAgain extended
      ((outcome_moves ended).ordered (FactTable.ordered_unknown _))
      ((outcome_moves endedAgain).ordered (FactTable.ordered_unknown _))
  -- and with the calls of the program, both fail or both succeed
  have named : again.NamesLinked program ↔ final.NamesLinked program := by
    rw [solvedAgain.namesLinked_iff, solved.namesLinked_iff]
    simp only [consistent.reaches_iff]
  have ends := (outcome_restricts within origin).eq_ok_iff ended
  have endsAgain := (outcome_restricts within state.graph).eq_ok_iff endedAgain
  simp only [ends, endsAgain]
  constructor
  · simp [named]
  · rintro _ _ ⟨rfl, _⟩ ⟨rfl, _⟩
    exact sameResult

/-- Taking any number of turns and then starting again over the graph that is left behind fails
just if the uninterrupted propagation does, and otherwise has the same result. Starting again over
the graph of a completed propagation adds no edge. -/
theorem restart_agrees (program : Program) (graph : FlowGraph) (wellFormed : graph.WellFormed) :
    (graph.NamesCalls program →
      (∀ count, ∃ state, afterTurns program graph count = .ok state) ∧
        ∃ final, outcome program graph = .ok final) ∧
    (∀ count state, afterTurns program graph count = .ok state →
      ((∃ final, outcome program graph = .ok final) ↔
        ∃ again, outcome program state.graph = .ok again) ∧
      ∀ final again, outcome program graph = .ok final →
        outcome program state.graph = .ok again → again.SameResult final) ∧
    ∀ final, outcome program graph = .ok final →
      ∃ again, outcome program final.graph = .ok again ∧
        again.graph.edges = final.graph.edges := by
  refine ⟨succeeds wellFormed, fun count state taken => outcome_restart wellFormed taken, ?_⟩
  intro final ended
  obtain ⟨count, taken, _⟩ := outcome_eq_ok.mp ended
  obtain ⟨succeedsToo, sameResult⟩ := outcome_restart wellFormed taken
  obtain ⟨again, endedAgain⟩ := succeedsToo.mp ⟨final, ended⟩
  refine ⟨again, endedAgain, ?_⟩
  have formed := outcome_wellFormed (outcome_wellFormed wellFormed ended) endedAgain
  refine (outcome_moves endedAgain).prolonged.edges_eq formed fun edge member => ?_
  exact ((sameResult final again ended endedAgain).edges edge).mp member

/-- One call of a function literal: the propagation is given up after the turn that links the call,
and started again. -/
theorem restart_agrees_oneCall :
    oneCallFlow.WellFormed ∧ ∃ state final again,
      afterTurns oneCall oneCallFlow 1 = .ok state ∧ state.worklist = [1, 2] ∧
      outcome oneCall oneCallFlow = .ok final ∧ outcome oneCall state.graph = .ok again ∧
      again.SameResult final := by
  obtain ⟨succeeds, agrees, _⟩ := restart_agrees oneCall oneCallFlow (by decide)
  obtain ⟨taken, final, ended⟩ := succeeds namesCalls_oneCallFlow
  obtain ⟨state, taken⟩ := taken 1
  obtain ⟨succeedsToo, sameResult⟩ := agrees 1 state taken
  obtain ⟨again, endedAgain⟩ := succeedsToo.mp ⟨final, ended⟩
  have waits : (afterTurns oneCall oneCallFlow 1).map (·.worklist) = .ok [1, 2] := by decide
  rw [taken] at waits
  injection waits with waits
  exact ⟨by decide, state, final, again, taken, waits, ended, endedAgain,
    sameResult final again ended endedAgain⟩

end Propagation

end FunctionFlow
