import FunctionFlow.Proofs.Analysis.UnknownCalls

/-!
Contract: what holds of a propagation after any number of turns.
-/

namespace FunctionFlow.Propagation

variable {program larger : Program} {origin : FlowGraph} {state : Propagation}

theorem turns_consistent (namesCalls : origin.NamesCalls program)
    (consistent : state.Consistent program origin noDebt allLinked) (count : Nat) :
    ∃ after, turns program count state = .ok after ∧
      after.Consistent program origin noDebt allLinked := by
  induction count generalizing state with
  | zero => exact ⟨state, rfl, consistent⟩
  | succ count inductionHypothesis =>
    rcases step_consistent namesCalls consistent with ⟨_, done⟩ | ⟨later, stepped, kept, _⟩
    · exact ⟨state, turns_succ_eq_ok.mpr (.inl ⟨done, rfl⟩), consistent⟩
    · obtain ⟨after, taken, afterConsistent⟩ := inductionHypothesis kept
      exact ⟨after, turns_succ_eq_ok.mpr (.inr ⟨later, stepped, taken⟩), afterConsistent⟩

theorem afterTurns_consistent (wellFormed : origin.WellFormed)
    (namesCalls : origin.NamesCalls program) (count : Nat) :
    ∃ state, afterTurns program origin count = .ok state ∧
      state.Consistent program origin noDebt allLinked := by
  obtain ⟨first, started, consistent, _⟩ := start_consistent wellFormed namesCalls
  obtain ⟨state, taken, kept⟩ := turns_consistent namesCalls consistent count
  refine ⟨state, ?_, kept⟩
  rw [afterTurns, started, Checked.ok_bind]
  exact taken

/-- A program with all calls of the graph takes the turns that a program takes, and there the state
is consistent. -/
theorem exists_larger_consistent (wellFormed : origin.WellFormed) {count : Nat}
    (taken : afterTurns program origin count = .ok state) :
    ∃ larger, program.CallsWithin larger ∧ origin.NamesCalls larger ∧
      afterTurns larger origin count = .ok state ∧ state.NamesLinked program ∧
      state.Consistent larger origin noDebt allLinked := by
  obtain ⟨larger, within, namesCalls⟩ := origin.exists_namesCalls program
  obtain ⟨takenWhole, named⟩ := (afterTurns_restricts within origin count state).mp taken
  obtain ⟨same, takenSame, consistent⟩ := afterTurns_consistent wellFormed namesCalls count
  cases takenWhole.symm.trans takenSame
  exact ⟨larger, within, namesCalls, takenWhole, named, consistent⟩

theorem outcome_solved (wellFormed : origin.WellFormed) (namesCalls : origin.NamesCalls program) :
    ∃ final, outcome program origin = .ok final ∧ final.Solved program origin := by
  obtain ⟨first, final, started, ran, solved⟩ := run_solved wellFormed namesCalls
  refine ⟨final, ?_, solved⟩
  rw [outcome, started, Checked.ok_bind]
  exact ran

theorem succeeds (wellFormed : origin.WellFormed) (namesCalls : origin.NamesCalls program) :
    (∀ count, ∃ state, afterTurns program origin count = .ok state) ∧
      ∃ final, outcome program origin = .ok final := by
  constructor
  · intro count
    obtain ⟨state, taken, _⟩ := afterTurns_consistent wellFormed namesCalls count
    exact ⟨state, taken⟩
  · obtain ⟨final, ended, _⟩ := outcome_solved wellFormed namesCalls
    exact ⟨final, ended⟩

/-- What holds of a propagation between any two turns. -/
structure Invariant (program : Program) (state : Propagation) : Prop where
  distinct : state.worklist.Nodup
  queue : ∀ vertex, vertex ∈ state.worklist ↔ state.queued[vertex]? = some true
  waitingKnown : ∀ vertex, state.waiting vertex ⊆ state.facts.row vertex
  waitingQueued : ∀ vertex, state.waiting vertex ≠ [] → state.queued[vertex]? = some true
  /-- What does not wait at a vertex has passed all edges out of it. -/
  delivered : ∀ source target, (source, target) ∈ state.graph.edges →
    ∀ value ∈ state.facts.row source, value ∉ state.waiting source →
      value ∈ state.facts.row target
  /-- Facts are about values, which arrive along the edges there are. -/
  path : ∀ vertex, ∀ value ∈ state.facts.row vertex,
    (∃ found, state.graph.At value found ∧ found.isValue) ∧ state.graph.Path value vertex
  /-- A call is linked to the functions known to reach its callee. -/
  linked : ∀ callee call target function, state.graph.At callee (.callee call) →
    target ∈ state.facts.row callee → state.graph.At target (.function function) →
    (call, target) ∈ state.linked ∧ ∃ site, program.calls[call]? = some site ∧
      ∀ slot sink, (slot, sink) ∈ linkEdges call function site.arity →
        ∀ sourceId sinkId, state.graph.At sourceId (.slot slot) →
          state.graph.At sinkId (.slot sink) → (sourceId, sinkId) ∈ state.graph.edges

theorem Consistent.invariant (consistent : state.Consistent larger origin noDebt allLinked)
    (within : program.CallsWithin larger) (named : state.NamesLinked program) :
    state.Invariant program where
  distinct := consistent.distinct
  queue := fun _ => consistent.queue
  waitingKnown := fun _ _ waits => FactTable.mem_row.mpr (consistent.waitingKnown waits)
  waitingQueued := by
    intro vertex someWait
    obtain ⟨value, waits⟩ := List.exists_mem_of_ne_nil _ someWait
    exact consistent.queue.mp (consistent.waitingQueued waits)
  delivered := by
    intro source target edge value known notWaiting
    rcases consistent.delivered edge (FactTable.mem_row.mp known) with waits | arrived | owing
    · exact absurd waits notWaiting
    · exact FactTable.mem_row.mpr arrived
    · exact owing.elim
  path := by
    intro vertex value known
    have holds := FactTable.mem_row.mp known
    obtain ⟨found, atValue, isValue⟩ := consistent.isValue holds
    exact ⟨⟨found, consistent.at_iff.mpr atValue, isValue⟩, consistent.path holds⟩
  linked := by
    intro callee call target function atCallee known atTarget
    have linked := consistent.linked_of_holds (consistent.at_iff.mp atCallee)
      (FactTable.mem_row.mp known)
    have isCall := Array.getElem?_eq_getElem (named call target function linked atTarget)
    refine ⟨linked, _, isCall, fun slot sink tied sourceId sinkId atSource atSink => ?_⟩
    rw [consistent.at_iff] at atTarget atSource atSink
    exact consistent.edges.mpr (.inr ⟨call, target, linked, function, _, slot, sink, atTarget,
      within _ _ isCall, tied, atSource, atSink⟩)

/-- The later state has the facts, the edges and the call graph of the earlier one, and maybe
more. -/
structure GrowsTo (before after : Propagation) : Prop where
  facts : ∀ vertex, before.facts.row vertex ⊆ after.facts.row vertex
  edges : ∀ edge ∈ before.graph.edges, edge ∈ after.graph.edges
  calls : ∃ calls laterCalls, before.callGraph = .ok calls ∧ after.callGraph = .ok laterCalls ∧
    calls.pairs ⊆ laterCalls.pairs

theorem Extends.known {before after : Propagation} (extended : Extends before after)
    (vertex : Vertex) : before.known vertex ⊆ after.known vertex := by
  rintro found ⟨id, value, atVertex, isKnown, atFound⟩
  refine ⟨id, value, ?_, FactTable.mem_row.mpr (extended.facts (FactTable.mem_row.mp isKnown)), ?_⟩
  · rwa [FlowGraph.At, extended.vertices]
  · rwa [FlowGraph.At, extended.vertices]

theorem Consistent.growsTo {after : Propagation}
    (consistent : state.Consistent program origin noDebt allLinked)
    (afterConsistent : after.Consistent program origin noDebt allLinked)
    (extended : Extends state after) : state.GrowsTo after where
  facts := fun _ _ isKnown =>
    FactTable.mem_row.mpr (extended.facts (FactTable.mem_row.mp isKnown))
  edges := fun _ => extended.edges
  calls := by
    obtain ⟨calls, computed, _, mem_calls⟩ := consistent.callGraph_known
    obtain ⟨laterCalls, laterComputed, _, mem_laterCalls⟩ := afterConsistent.callGraph_known
    refine ⟨calls, laterCalls, computed, laterComputed, fun pair member => ?_⟩
    obtain ⟨call, isCallee, isKnown⟩ := (mem_calls pair).mp member
    exact (mem_laterCalls pair).mpr ⟨call, isCallee, extended.known _ isKnown⟩

/-- Over a well-formed graph, the state after any number of turns satisfies the invariant, and it
grows with the next turn and up to the end. Turns fail only where a callee of the graph belongs to
no call of the program. -/
theorem invariant_afterTurns (program : Program) (graph : FlowGraph)
    (wellFormed : graph.WellFormed) :
    (graph.NamesCalls program →
      (∀ count, ∃ state, afterTurns program graph count = .ok state) ∧
        ∃ final, outcome program graph = .ok final) ∧
    ∀ count state, afterTurns program graph count = .ok state →
      state.Invariant program ∧
      (∀ later, state.step program = .ok (some later) → state.GrowsTo later) ∧
      ∀ final, outcome program graph = .ok final → state.GrowsTo final := by
  refine ⟨succeeds wellFormed, ?_⟩
  intro count state taken
  obtain ⟨larger, within, namesCalls, _, named, consistent⟩ :=
    exists_larger_consistent wellFormed taken
  refine ⟨consistent.invariant within named, fun later stepped => ?_, fun final ended => ?_⟩
  · have steppedWhole := ((step_restricts within named).mp stepped).1
    rcases step_consistent namesCalls consistent with ⟨_, done⟩ | ⟨after, steppedSame,
      afterConsistent, extended⟩
    · cases steppedWhole.symm.trans done
    · cases steppedWhole.symm.trans steppedSame
      exact consistent.growsTo afterConsistent extended
  · rw [outcome_eq_run taken] at ended
    have endedWhole := ((run_restricts within named final).mp ended).1
    obtain ⟨after, ran, _, finalConsistent, extended⟩ := run_consistent namesCalls consistent
    cases endedWhole.symm.trans ran
    exact consistent.growsTo finalConsistent extended

/-- After the first of three turns the call is linked already, and two vertices wait. -/
theorem invariant_afterTurns_oneCall :
    oneCallFlow.WellFormed ∧ ∃ state final, afterTurns oneCall oneCallFlow 1 = .ok state ∧
      state.worklist = [1, 2] ∧ state.graph.edges = #[(0, 1), (2, 3)] ∧
      state.Invariant oneCall ∧ outcome oneCall oneCallFlow = .ok final ∧ state.GrowsTo final := by
  obtain ⟨succeeds, holds⟩ := invariant_afterTurns oneCall oneCallFlow (by decide)
  obtain ⟨taken, final, ended⟩ := succeeds namesCalls_oneCallFlow
  obtain ⟨state, taken⟩ := taken 1
  obtain ⟨invariant, _, grows⟩ := holds 1 state taken
  have shown : (afterTurns oneCall oneCallFlow 1).map
      (fun state => (state.worklist, state.graph.edges)) =
        .ok ([1, 2], #[(0, 1), (2, 3)]) := by decide
  rw [taken] at shown
  injection shown with shown
  injection shown with waits edges
  exact ⟨by decide, state, final, taken, waits, edges, invariant, ended, grows final ended⟩

end FunctionFlow.Propagation
