import FunctionFlow.Proofs.Analysis.Constraints
import FunctionFlow.Proofs.Analysis.Precision
import FunctionFlow.Proofs.Analysis.Walks

/-!
Contract: what the depth of the demand-driven analysis decides.
-/

namespace FunctionFlow

variable {program : Program} {natives : NativeTable} {origin : FlowGraph} {shared : List VertexId}

/-! ### Deeper analyses -/

theorem FlowGraph.LinksFound.forget {graph : FlowGraph} {shallow deep : Nat}
    (lower : shallow ≤ deep) (wellFormed : graph.WellFormed)
    (links : graph.LinksFound program shared shallow) : graph.LinksFound program shared deep := by
  intro call callee found target atCallee queried member edge asked
  have finds := (exists_query_iff wellFormed atCallee.below).mp ⟨found, queried, member⟩
  exact links.edge wellFormed atCallee (finds.forget lower) asked

namespace Analysis.DemandRun

theorem shared_unique {depth otherDepth : Nat} {otherShared : List VertexId}
    {callees otherCallees : List (CallId × VertexId)} {final otherFinal : Demand}
    {analysis otherAnalysis : Analysis}
    (run : DemandRun program natives depth origin shared callees final analysis)
    (other : DemandRun program natives otherDepth origin otherShared otherCallees otherFinal
      otherAnalysis) : otherShared = shared :=
  Except.ok.inj (other.sharedSlots.symm.trans run.sharedSlots)

variable {shallow deep : Nat} {coarseCallees fineCallees : List (CallId × VertexId)}
  {coarse fine : Demand} {coarseAnalysis fineAnalysis : Analysis}

theorem within_of_le (lower : shallow ≤ deep)
    (runFine : DemandRun program natives deep origin shared fineCallees fine fineAnalysis)
    (runCoarse : DemandRun program natives shallow origin shared coarseCallees coarse
      coarseAnalysis) : fine.graph.Within coarse.graph := by
  have large := runCoarse.leastLinked
  have links := large.linksFound.forget lower large.wellFormed
  exact runFine.leastLinked.least coarse.graph large.wellFormed large.within links

end Analysis.DemandRun

/-- Of two demand-driven analyses of a program, the one that remembers more pending calls finds no
call and no flow that the other one misses. One of them ends just if the other one does, and both do
if no chain of scopes runs in a circle. -/
theorem demand_antitone (program : Program) (natives : NativeTable) {shallow deep : Nat}
    (lower : shallow ≤ deep) (inRange : program.InRange) :
    (∀ fine coarse, Analysis.demand program natives deep = .ok fine →
      Analysis.demand program natives shallow = .ok coarse →
        (∀ pair ∈ fine.callGraph.pairs, pair ∈ coarse.callGraph.pairs) ∧
        fine.flow.vertices = coarse.flow.vertices ∧
        ∀ edge ∈ fine.flow.edges, edge ∈ coarse.flow.edges) ∧
    ((∃ fine, Analysis.demand program natives deep = .ok fine) ↔
      ∃ coarse, Analysis.demand program natives shallow = .ok coarse) ∧
    (program.ParentsFirst → ∃ fine coarse, Analysis.demand program natives deep = .ok fine ∧
      Analysis.demand program natives shallow = .ok coarse) := by
  refine ⟨fun fine coarse ranFine ranCoarse => ?_, ⟨?_, ?_⟩, fun parents => ?_⟩
  · obtain ⟨_, _, shared, _, fineFinal, built, runFine⟩ :=
      Analysis.demandRun_of_demand inRange ranFine
    obtain ⟨_, _, _, _, coarseFinal, built', runCoarse⟩ :=
      Analysis.demandRun_of_demand inRange ranCoarse
    cases built.symm.trans built'
    obtain rfl := runFine.shared_unique runCoarse
    have within := runFine.within_of_le lower runCoarse
    refine ⟨?_, ?_, ?_⟩
    · intro pair member
      obtain ⟨call, callee, target, same, atCallee, finds, atTarget⟩ := runFine.mem_pairs.mp member
      have findsCoarse := (finds.mono within).forget lower
      exact runCoarse.mem_pairs.mpr ⟨call, callee, target, same, atCallee, findsCoarse, atTarget⟩
    · rw [runFine.flow, runCoarse.flow, runFine.converged.bounded.vertices,
        runCoarse.converged.bounded.vertices]
    · rw [runFine.flow, runCoarse.flow]
      intro edge member
      exact within.edges member
  · rintro ⟨fine, ran⟩
    exact Analysis.demand_ends inRange (Analysis.slotsKnown_of_demand ran) natives shallow
  · rintro ⟨coarse, ran⟩
    exact Analysis.demand_ends inRange (Analysis.slotsKnown_of_demand ran) natives deep
  · have known := inRange.slotsKnown parents
    obtain ⟨fine, ranFine⟩ := Analysis.demand_ends inRange known natives deep
    obtain ⟨coarse, ranCoarse⟩ := Analysis.demand_ends inRange known natives shallow
    exact ⟨fine, coarse, ranFine, ranCoarse⟩

theorem Analysis.DemandRun.mem_callback {depth : Nat} {callees : List (CallId × VertexId)}
    {final : Demand} {analysis : Analysis}
    (run : DemandRun callback natives depth origin shared callees final analysis) :
    (.callee 1, .function 1) ∈ analysis.callGraph.pairs := by
  obtain ⟨_, callee, value, atCallee, atValue, finds⟩ := run.leastLinked.callback run.represents
  exact run.mem_pairs.mpr ⟨1, callee, value, rfl, atCallee, finds, atValue⟩

/-- The call that a deep analysis of `callback` finds is also found at depth zero. -/
theorem demand_antitone_callback :
    callback.InRange ∧ callback.ParentsFirst ∧ ∃ fine coarse,
      Analysis.demand callback .empty 3 = .ok fine ∧
      Analysis.demand callback .empty 0 = .ok coarse ∧
      (.callee 1, .function 1) ∈ fine.callGraph.pairs ∧
      (.callee 1, .function 1) ∈ coarse.callGraph.pairs := by
  have inRange : callback.InRange := by decide
  have parents : callback.ParentsFirst := by decide
  obtain ⟨antitone, _, ends⟩ := demand_antitone callback .empty (Nat.zero_le 3) inRange
  obtain ⟨fine, coarse, ranFine, ranCoarse⟩ := ends parents
  obtain ⟨_, _, _, _, _, _, run⟩ := Analysis.demandRun_of_demand inRange ranFine
  have found := run.mem_callback
  exact ⟨inRange, parents, fine, coarse, ranFine, ranCoarse, found,
    (antitone fine coarse ranFine ranCoarse).1 _ found⟩

/-! ### Walks that remember nothing -/

namespace Query

variable {graph : FlowGraph} {depth : Nat} {start value : VertexId}

theorem Passes.trans {middle : VertexId} {point : Waypoint}
    (first : Passes graph depth shared start ⟨middle, []⟩)
    (second : Passes graph depth shared middle point) : Passes graph depth shared start point := by
  induction second with
  | start => exact first
  | step _ crossed inductionHypothesis => exact .step inductionHypothesis crossed

theorem Finds.edge (finds : Finds graph depth shared start value) :
    ∃ source, (source, start) ∈ graph.edges := by
  obtain ⟨point, passed, edge, -⟩ := finds
  induction passed generalizing value with
  | start => exact ⟨value, edge⟩
  | step _ crossed inductionHypothesis =>
    obtain ⟨crossedEdge, _, _, _, _⟩ := crossed
    exact inductionHypothesis crossedEdge

theorem stepBack_zero (isShared : Bool) (source target : Vertex) :
    stepBack 0 isShared source target [] = some [] := by
  unfold stepBack
  by_cases sharedSource : isShared
  · rw [if_pos sharedSource]
  · rw [if_neg sharedSource]
    split <;> rfl

theorem Finds.extend {source target : VertexId} {sourceVertex targetVertex : Vertex}
    (edge : (source, target) ∈ graph.edges) (atSource : graph.At source sourceVertex)
    (atTarget : graph.At target targetVertex) (isPlace : sourceVertex.isValue = false)
    (finds : Finds graph 0 shared source value) : Finds graph 0 shared target value := by
  obtain ⟨point, passed, meets⟩ := finds
  have crossed : Crosses graph 0 shared ⟨target, []⟩ ⟨source, []⟩ :=
    .cross edge atSource atTarget isPlace (stepBack_zero _ _ _)
  have first : Passes graph 0 shared target ⟨source, []⟩ := .step .start crossed
  exact ⟨point, first.trans passed, meets⟩

end Query

/-! ### Flow into values -/

theorem Program.Into.isPlace {expr : Expr} {target : Vertex} (into : program.Into expr target)
    (notFunction : ∀ function, target ≠ .function function) : target.isValue = false := by
  cases into with
  | assigned _ held =>
    obtain ⟨_, _, isHeld⟩ := Expr.heldBy_of_holder _ held
    cases isHeld with
    | function => exact absurd rfl (notFunction _)
    | _ => rfl
  | _ => rfl

theorem Program.Into.ne_function (toPlaces : ∀ expr ∈ program.exprs, expr.assignsToPlace)
    {expr : Expr} {target : Vertex} (into : program.Into expr target) (function : FunctionId) :
    target ≠ .function function := by
  rintro rfl
  cases into with
  | assigned member held =>
    obtain ⟨slot, _, same⟩ := Expr.assignedSlot_of_holder (toPlaces _ member) held
    cases same

def FlowGraph.ValuesAreSources (graph : FlowGraph) : Prop :=
  ∀ source target, graph.Arrow source target → target.isValue = false

theorem Analysis.bodyGraph_valuesAreSources (inRange : program.InRange) {graph bodies : FlowGraph}
    {events : List Event} (built : bodyGraph program natives = .ok (graph, events))
    (builtBodies : ({} : FlowGraph).addBodies program = .ok bodies)
    (noEntry : ∀ source function, ¬ bodies.Arrow source (.function function)) :
    graph.ValuesAreSources := by
  obtain ⟨_, _, built', whole⟩ := bodyGraph_grown inRange natives
  rw [built] at built'
  cases built'
  obtain ⟨_, builtBodies', grown⟩ :=
    FlowGraph.addBodies_grown inRange FlowGraph.wellFormed_empty
  rw [builtBodies] at builtBodies'
  cases builtBodies'
  intro source target arrow
  rcases whole.arrow_natives_iff.mp arrow with ⟨entry, _, _, rfl⟩ | inBodies
  · rfl
  · obtain ⟨expr, into, _⟩ := Program.into_of_growth inBodies
    apply into.isPlace
    rintro function rfl
    exact noEntry source function (grown.arrow_iff.mpr (.inr inBodies))

/-! ### Depth zero -/

namespace Analysis.DemandRun

variable {depth : Nat} {callees : List (CallId × VertexId)} {final : Demand} {analysis : Analysis}
  {state : Propagation}

theorem valuesAreSources
    (run : DemandRun program natives depth origin shared callees final analysis)
    (solved : state.Solved program origin) (sources : origin.ValuesAreSources) :
    final.graph.ValuesAreSources := by
  intro source target arrow
  rcases solved.arrow_iff.mp ((run.within_solved solved).arrow arrow) with
    old | ⟨_, _, _, _, _, _, _, _, _, rfl, _, _⟩
  · exact sources source target old
  · rfl

variable (run : DemandRun program natives 0 origin shared callees final analysis)
  (sources : final.graph.ValuesAreSources)
include run sources

theorem finds_of_edge {value sourceId targetId : VertexId} {found source target : Vertex}
    (edge : (sourceId, targetId) ∈ final.graph.edges) (atSource : final.graph.At sourceId source)
    (atTarget : final.graph.At targetId target) (atValue : final.graph.At value found)
    (isValue : found.isValue)
    (atSourceOrFound : found = source ∨ Query.Finds final.graph 0 shared sourceId value) :
    Query.Finds final.graph 0 shared targetId value := by
  rcases atSourceOrFound with rfl | finds
  · obtain rfl := run.leastLinked.wellFormed.id_unique atValue atSource
    exact ⟨⟨targetId, []⟩, .start, edge, found, atValue, isValue⟩
  · obtain ⟨before, entering⟩ := finds.edge
    obtain ⟨_, _, atBefore, atSource'⟩ := run.leastLinked.wellFormed.ends_of_edge entering
    have isPlace := sources _ _ ⟨before, sourceId, atBefore, atSource', entering⟩
    exact finds.extend edge atSource' atTarget isPlace

theorem finds_of_reaches {found vertex : Vertex} (reached : Reaches program origin found vertex)
    {value id : VertexId} (atValue : origin.At value found) (atId : origin.At id vertex) :
    found = vertex ∨ Query.Finds final.graph 0 shared id value := by
  have within := run.leastLinked.within
  induction reached generalizing value id with
  | value => exact .inl rfl
  | arrow reached arrow inductionHypothesis =>
    obtain ⟨sourceId, targetId, atSource, atTarget, edge⟩ := arrow
    obtain rfl := run.represents.wellFormed.id_unique atTarget atId
    exact .inr (run.finds_of_edge sources (within.edges edge) (within.kept atSource)
      (within.kept atTarget) (within.kept atValue) reached.isValue.2
      (inductionHypothesis atValue atSource))
  | link member isCall called tied reached calledHypothesis inductionHypothesis =>
    obtain ⟨callee, atCallee⟩ := FlowGraph.exists_at_of_mem member
    obtain ⟨function, atFunction⟩ := FlowGraph.exists_at_of_mem called.isValue.1
    obtain ⟨sourceId, atSource⟩ := FlowGraph.exists_at_of_mem (Reaches.source_mem tied reached)
    have findsFunction := (calledHypothesis atFunction atCallee).resolve_left (by simp)
    have asked : final.graph.LinkEdge program _ function (sourceId, id) :=
      ⟨_, _, _, _, within.kept atFunction, isCall, tied, within.kept atSource, within.kept atId⟩
    have edge := run.leastLinked.linksFound.edge run.leastLinked.wellFormed (within.kept atCallee)
      findsFunction asked
    exact .inr (run.finds_of_edge sources edge (within.kept atSource) (within.kept atId)
      (within.kept atValue) reached.isValue.2 (inductionHypothesis atValue atSource))

theorem finds_callee {call : CallId} {found : Vertex} {callee target : VertexId}
    (reached : Reaches program origin found (.callee call))
    (atCallee : origin.At callee (.callee call)) (atTarget : origin.At target found) :
    Query.Finds final.graph 0 shared callee target := by
  apply (run.finds_of_reaches sources reached atTarget atCallee).resolve_left
  rintro rfl
  cases reached.isValue.2

theorem solved_within (solved : state.Solved program origin) :
    state.graph.Within final.graph := by
  have least := run.leastLinked
  refine ⟨fun found => least.within.kept (solved.consistent.at_iff.mp found),
    fun {edge} member => ?_⟩
  rcases solved.consistent.edges.mp member with old | ⟨call, value, linked, asked⟩
  · exact least.within.edges old
  · obtain ⟨callee, found, atCallee, _, atFound, reached⟩ := solved.consistent.linkedReached linked
    have finds := run.finds_callee sources reached atCallee atFound
    exact least.linksFound.edge least.wellFormed (least.within.kept atCallee) finds
      (asked.mono least.within)

theorem mem_pairs_zero (solved : state.Solved program origin) {pair : Vertex × Vertex} :
    pair ∈ analysis.callGraph.pairs ↔
      ∃ call, pair.1 = .callee call ∧ Reaches program origin pair.2 (.callee call) := by
  constructor
  · exact run.reaches_of_mem solved
  · rintro ⟨call, same, reached⟩
    obtain ⟨callee, atCallee⟩ := FlowGraph.exists_at_of_mem (reached.arrives.resolve_right id)
    obtain ⟨target, atTarget⟩ := FlowGraph.exists_at_of_mem reached.isValue.1
    have finds := run.finds_callee sources reached atCallee atTarget
    exact run.mem_pairs.mpr ⟨call, callee, target, same, atCallee, finds, atTarget⟩

end Analysis.DemandRun

end FunctionFlow
