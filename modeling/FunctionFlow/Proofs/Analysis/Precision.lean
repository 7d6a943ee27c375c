import FunctionFlow.Proofs.Analysis.Demand
import FunctionFlow.Proofs.Analysis.Direct
import FunctionFlow.Proofs.Analysis.LeastSolution
import FunctionFlow.Proofs.Lowering.Sources

/-!
Contract: the analyses of a program, ordered by the calls that they find.
-/

namespace FunctionFlow

variable {program : Program} {natives : NativeTable} {depth : Nat} {origin : FlowGraph}
  {shared : List VertexId}

/-! ### Queries of a solved graph -/

namespace Propagation.Solved

variable {state : Propagation} (solved : state.Solved program origin)
include solved

theorem reaches_of_arrow {value source target : Vertex} (arrow : state.graph.Arrow source target)
    (reached : Reaches program origin value source) : Reaches program origin value target := by
  rcases solved.arrow_iff.mp arrow with old | ⟨call, site, function, slot, sink, isCall, called,
    tied, rfl, rfl, _, _⟩
  · exact .arrow reached old
  · exact .link (called.arrives.resolve_right id) isCall called tied reached

theorem reaches_of_finds {start value : VertexId} {vertex found : Vertex}
    (finds : Query.Finds state.graph depth shared start value) (atStart : origin.At start vertex)
    (atValue : origin.At value found) : Reaches program origin found vertex := by
  obtain ⟨point, passed, edge, known, atKnown, isValue⟩ := finds
  cases (solved.consistent.at_iff.mp atKnown).vertex_unique atValue
  -- the induction is on the walk: what flows to its end flows to its start
  have onward : ∀ {place}, state.graph.At point.vertex place →
      Reaches program origin found place → Reaches program origin found vertex := by
    clear edge
    induction passed with
    | start =>
      intro place atPlace reached
      cases atPlace.vertex_unique (solved.consistent.at_iff.mpr atStart)
      exact reached
    | step _ crossed inductionHypothesis =>
      obtain ⟨edge, atSource, atTarget, _, _⟩ := crossed
      intro place atPlace reached
      cases atPlace.vertex_unique atSource
      exact inductionHypothesis atTarget
        (solved.reaches_of_arrow ⟨_, _, atSource, atTarget, edge⟩ reached)
  obtain ⟨_, place, _, atPlace⟩ := solved.consistent.wellFormed.ends_of_edge edge
  exact onward atPlace (solved.reaches_of_arrow ⟨_, _, atKnown, atPlace, edge⟩
    (.value atValue.mem isValue))

theorem linksFound (shared : List VertexId) (depth : Nat) :
    state.graph.LinksFound program shared depth := by
  intro call callee found target atCallee queried member edge asked
  have consistent := solved.consistent
  have finds := (FlowGraph.exists_query_iff consistent.wellFormed atCallee.below).mp
    ⟨found, queried, member⟩
  obtain ⟨vertex, atTarget, _⟩ := finds.isValue
  rw [consistent.at_iff] at atCallee atTarget
  have reached := solved.reaches_of_finds finds atCallee atTarget
  have holds := (solved.holds_iff atCallee atTarget).mpr reached
  have linked := consistent.linked_of_holds atCallee holds
  exact consistent.edges.mpr
    (.inr ⟨call, target, linked, (FlowGraph.linkEdge_congr consistent.vertices).mp asked⟩)

theorem within : origin.Within state.graph :=
  ⟨solved.consistent.at_iff.mpr, fun member => solved.consistent.edges.mpr (.inl member)⟩

end Propagation.Solved

/-! ### The demand-driven analysis between the other two -/

namespace Analysis.DemandRun

variable {callees : List (CallId × VertexId)} {final : Demand} {analysis : Analysis}
  (run : DemandRun program natives depth origin shared callees final analysis)
include run

theorem within_solved {state : Propagation} (solved : state.Solved program origin) :
    final.graph.Within state.graph :=
  run.leastLinked.least state.graph solved.consistent.wellFormed solved.within
    (solved.linksFound shared depth)

theorem reaches_of_mem {state : Propagation} (solved : state.Solved program origin)
    {pair : Vertex × Vertex} (member : pair ∈ analysis.callGraph.pairs) :
    ∃ call, pair.1 = .callee call ∧ Reaches program origin pair.2 (.callee call) := by
  obtain ⟨call, callee, target, same, atCallee, finds, atTarget⟩ := run.mem_pairs.mp member
  exact ⟨call, same,
    solved.reaches_of_finds (finds.mono (run.within_solved solved)) atCallee atTarget⟩

theorem mem_of_arrow {call : CallId} {value : Vertex} (isValue : value.isValue)
    (arrow : origin.Arrow value (.callee call)) :
    (.callee call, value) ∈ analysis.callGraph.pairs := by
  obtain ⟨target, start, atTarget, atStart, edge⟩ := arrow
  have finds : Query.Finds origin depth shared start target :=
    ⟨⟨start, []⟩, .start, edge, value, atTarget, isValue⟩
  exact run.mem_pairs.mpr
    ⟨call, start, target, rfl, atStart, finds.mono run.leastLinked.within, atTarget⟩

theorem mem_of_callsDirectly (written : program.LiteralsWritten) {call : CallId}
    {function : FunctionId} (direct : program.CallsDirectly call function) :
    (.callee call, .function function) ∈ analysis.callGraph.pairs := by
  obtain ⟨node, callee, arguments, member, denotes⟩ := direct
  have toCallee : program.Into callee (.callee call) := .callee member
  have within := run.leastLinked.within
  rcases Program.holder_of_directCallee written callee denotes with
    held | ⟨slot, writer, held, into⟩
  · exact run.mem_of_arrow rfl ((run.represents.into toCallee held).resolve_left (by simp))
  · obtain ⟨place, start, atPlace, atStart, edge⟩ :=
      (run.represents.into toCallee held).resolve_left (by simp)
    obtain ⟨value, place', atValue, atPlace', writeEdge⟩ :=
      (run.represents.into into rfl).resolve_left (by simp)
    cases run.represents.wellFormed.id_unique atPlace atPlace'
    -- no call is pending at the callee, and the slot behind it leaves it so
    have stepped : Query.stepBack depth (shared.contains place) (.slot slot) (.callee call) [] =
        some [] := by
      unfold Query.stepBack
      split
      · rfl
      · cases slot <;> rfl
    have finds : Query.Finds origin depth shared start value :=
      ⟨⟨place, []⟩, .step .start (.cross edge atPlace atStart rfl stepped), writeEdge, _, atValue,
        rfl⟩
    exact run.mem_pairs.mpr ⟨call, start, value, rfl, atStart, finds.mono within, atValue⟩

end Analysis.DemandRun

/-- Of every list of files whose trees fit their texts, the demand-driven analysis finds all the
calls that need no flow analysis, and only calls and flow that the one-shot analysis also finds. -/
theorem precision_hierarchy (files : List SourceFile) (natives : NativeTable) (depth : Nat) :
    (∃ failure, Program.ofSources files = .error failure ∧
      ∃ file ∈ files, file.Unreadable failure) ∨
    ∃ (parsed : Parsed) (direct demand oneShot : Analysis),
      Program.ofSources files = .ok parsed ∧
      Analysis.direct parsed.program natives = .ok direct ∧
      Analysis.demand parsed.program natives depth = .ok demand ∧
      Analysis.oneShot parsed.program natives = .ok oneShot ∧
      (∀ pair ∈ direct.callGraph.pairs, pair ∈ demand.callGraph.pairs) ∧
      (∀ pair ∈ demand.callGraph.pairs, pair ∈ oneShot.callGraph.pairs) ∧
      ∀ source target, demand.flow.Arrow source target → oneShot.flow.Arrow source target := by
  have outcome := Program.ofSources_outcome files
  split at outcome
  · rename_i parsed made
    obtain ⟨inRange, written⟩ := outcome
    obtain ⟨direct, ranDirect, mem_direct⟩ := Analysis.direct_eq inRange.tellsDirect natives
    have parents := Program.ofSources_parentsFirst made
    obtain ⟨graph, _, _, _, final, demand, built, run⟩ :=
      Analysis.demand_converged inRange parents natives depth
    obtain ⟨_, _, state, oneShot, built', _, solved, ranOneShot, flow, _, mem_oneShot⟩ :=
      Analysis.oneShot_solved inRange natives
    cases built.symm.trans built'
    refine .inr ⟨parsed, direct, demand, oneShot, made, ranDirect, run.demand, ranOneShot, ?_, ?_,
      ?_⟩
    · intro pair member
      obtain ⟨call, function, calls, rfl⟩ := (mem_direct pair).mp member
      exact run.mem_of_callsDirectly written calls
    · intro pair member
      exact (mem_oneShot pair).mpr (run.reaches_of_mem solved member)
    · intro source target arrow
      rw [run.flow] at arrow
      rw [flow]
      exact (run.within_solved solved).arrow arrow
  · rename_i failure failed
    exact .inl ⟨failure, failed, outcome⟩

def calledInPlace : SourceFile where
  path := "a.js"
  text := "(function () {})();"
  tree := {
    hasErrors := false
    root :=
      .rule "program" 0 19 [] [
        .rule "expression_statement" 0 19 [] [
          .rule "call_expression" 0 18 ["function", "arguments"] [
            .rule "parenthesized_expression" 0 16 [] [
              .rule "function_expression" 1 15 ["parameters", "body"] [
                .rule "formal_parameters" 10 12 [] [],
                .rule "statement_block" 13 15 [] []]],
            .rule "arguments" 16 18 [] []]]] }

/-- The direct analysis finds the call, so the other two find it as well. -/
theorem precision_hierarchy_calledInPlace :
    ∃ (parsed : Parsed) (demand oneShot : Analysis),
      Program.ofSources [calledInPlace] = .ok parsed ∧
      Analysis.demand parsed.program ⟨[]⟩ 0 = .ok demand ∧
      Analysis.oneShot parsed.program ⟨[]⟩ = .ok oneShot ∧
      (.callee 0, .function 0) ∈ demand.callGraph.pairs ∧
      (.callee 0, .function 0) ∈ oneShot.callGraph.pairs := by
  have foundDirectly : (Program.ofSources [calledInPlace] >>= fun parsed =>
      Analysis.direct parsed.program ⟨[]⟩ >>= fun direct => pure direct.callGraph.pairs) =
      .ok [(.callee 0, .function 0)] := by
    decide +kernel
  rcases precision_hierarchy [calledInPlace] ⟨[]⟩ 0 with ⟨failure, failed, _⟩ | ⟨parsed, direct,
    demand, oneShot, made, ranDirect, ranDemand, ranOneShot, toDemand, toOneShot, _⟩
  · rw [failed] at foundDirectly
    cases foundDirectly
  · rw [made, Checked.ok_bind, ranDirect] at foundDirectly
    have member : (.callee 0, .function 0) ∈ direct.callGraph.pairs := by
      rw [Except.ok.inj foundDirectly]
      exact List.mem_singleton_self _
    exact ⟨parsed, demand, oneShot, made, ranDemand, ranOneShot, toDemand _ member,
      toOneShot _ (toDemand _ member)⟩

end FunctionFlow
