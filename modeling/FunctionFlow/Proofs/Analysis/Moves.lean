import FunctionFlow.Proofs.Analysis.Facts
import FunctionFlow.Proofs.Analysis.LeastSolution
import FunctionFlow.Proofs.Flow.Requests

/-!
Contract: the moves that a propagation is made of.

A vertex waits again only if it took up a fact or got a new edge. So the number of times that
vertices begin to wait, and with it the number of turns, is at most the number of facts and of new
edges.
-/

namespace FunctionFlow.Propagation

variable {graph : FlowGraph}

/-- The ways in which a propagation changes its state. -/
inductive Move (program : Program) : Propagation → Propagation → Prop
  | ensure {state : Propagation} {vertex : VertexId} : Move program state (state.ensure vertex)
  /-- A vertex takes up facts, not all of them known, and waits to pass the new ones on. -/
  | takeUp {state after : Propagation} {vertex : VertexId} {values fresh : List VertexId}
    {facts : FactTable} (inserted : state.facts.insertAll vertex values = .ok (fresh, facts))
    (someFresh : fresh ≠ []) (sent : Sent vertex fresh { state with facts } after) :
    Move program state after
  /-- A call is linked to a value, and the sources of new edges wait to pass on all their facts. -/
  | link {state after : Propagation} {call : CallId} {target : VertexId} {sources : List VertexId}
    {graph : FlowGraph} (linked : state.graph.link program call target = .ok (sources, graph))
    (resent : sources.foldlM resend
      { state with graph, linked := (call, target) :: state.linked } = .ok after) :
    Move program state after
  | turn {state : Propagation} {vertex : VertexId} {rest : List VertexId}
    (queue : state.worklist = vertex :: rest) : Move program state (state.dequeue vertex rest)

abbrev Moves (program : Program) : Propagation → Propagation → Prop :=
  Relation.ReflTransGen (Move program)

variable {program : Program} {before after : Propagation}

/-! ### Operations are moves -/

theorem linkAll_moves {call : CallId} {targets : List VertexId}
    (linked : linkAll program call before targets = .ok after) : Moves program before after := by
  induction targets generalizing before with
  | nil =>
    cases linked
    exact .refl
  | cons target rest inductionHypothesis =>
    unfold linkAll at linked
    split at linked
    · exact inductionHypothesis linked
    · obtain ⟨⟨sources, graph⟩, first, linked⟩ := Checked.bind_eq_ok.mp linked
      obtain ⟨middle, resent, linked⟩ := Checked.bind_eq_ok.mp linked
      exact .head (.link first resent) (inductionHypothesis linked)

theorem linkAt_moves {vertex : VertexId} {targets : List VertexId}
    (linked : before.linkAt program vertex targets = .ok after) : Moves program before after := by
  obtain ⟨found, _, linked⟩ := Checked.bind_eq_ok.mp linked
  split at linked
  · exact linkAll_moves linked
  · cases linked
    exact .refl

theorem addFacts_moves {vertex : VertexId} {values : List VertexId}
    (added : before.addFacts program vertex values = .ok after) : Moves program before after := by
  obtain ⟨fresh, facts, inserted, ⟨_, rfl⟩ | ⟨someFresh, middle, sent, linked⟩⟩ :=
    addFacts_eq_ok.mp added
  · exact .single .ensure
  · exact .head .ensure (.head (.takeUp inserted someFresh (sent_of_send sent))
      (linkAt_moves linked))

theorem passOn_moves {values targets : List VertexId}
    (passed : passOn program values before targets = .ok after) : Moves program before after := by
  induction targets generalizing before with
  | nil =>
    cases passed
    exact .refl
  | cons target rest inductionHypothesis =>
    obtain ⟨middle, added, passed⟩ := Checked.bind_eq_ok.mp passed
    exact (addFacts_moves added).trans (inductionHypothesis passed)

theorem step_moves (stepped : before.step program = .ok (some after)) :
    Moves program before after := by
  obtain ⟨vertex, rest, queue, _, _, ⟨_, rfl⟩ | ⟨_, successors, _, passed⟩⟩ :=
    step_eq_some.mp stepped
  · exact .single (.turn queue)
  · exact .head (.turn queue) (passOn_moves passed)

theorem seed_moves {values : List VertexId} (seeded : seed program before values = .ok after) :
    Moves program before after := by
  induction values generalizing before with
  | nil =>
    cases seeded
    exact .refl
  | cons value rest inductionHypothesis =>
    obtain ⟨middle, added, seeded⟩ := Checked.bind_eq_ok.mp seeded
    exact (addFacts_moves added).trans (inductionHypothesis seeded)

/-! ### Turns -/

/-- Takes `count` turns, or as many as there are. -/
def turns (program : Program) : Nat → Propagation → Checked Propagation
  | 0, state => return state
  | count + 1, state => do
    match ← state.step program with
    | none => return state
    | some later => turns program count later

theorem turns_succ_eq_ok {count : Nat} :
    turns program (count + 1) before = .ok after ↔
      (before.step program = .ok none ∧ before = after) ∨
        ∃ later, before.step program = .ok (some later) ∧
          turns program count later = .ok after := by
  rw [turns, Checked.bind_eq_ok]
  constructor
  · rintro ⟨answer, stepped, taken⟩
    cases answer with
    | none =>
      cases taken
      exact .inl ⟨stepped, rfl⟩
    | some later => exact .inr ⟨later, stepped, taken⟩
  · rintro (⟨done, rfl⟩ | ⟨later, stepped, taken⟩)
    · exact ⟨none, done, rfl⟩
    · exact ⟨some later, stepped, taken⟩

theorem turns_moves {count : Nat} (taken : turns program count before = .ok after) :
    Moves program before after := by
  induction count generalizing before with
  | zero =>
    cases taken
    exact .refl
  | succ count inductionHypothesis =>
    rcases turns_succ_eq_ok.mp taken with ⟨_, rfl⟩ | ⟨later, stepped, taken⟩
    · exact .refl
    · exact (step_moves stepped).trans (inductionHypothesis taken)

theorem run_of_none {state : Propagation} (done : state.step program = .ok none) :
    state.run program = .ok state := by
  rw [run]
  split
  · rename_i failed
    cases failed.symm.trans done
  · rfl
  · rename_i stepped
    cases stepped.symm.trans done

theorem run_of_some {state later : Propagation} (stepped : state.step program = .ok (some later)) :
    state.run program = later.run program := by
  rw [run]
  split
  · rename_i failed
    cases failed.symm.trans stepped
  · rename_i done
    cases done.symm.trans stepped
  · rename_i steppedToo
    cases steppedToo.symm.trans stepped
    rfl

theorem run_of_turns {count : Nat} (taken : turns program count before = .ok after) :
    before.run program = after.run program := by
  induction count generalizing before with
  | zero =>
    cases taken
    rfl
  | succ count inductionHypothesis =>
    rcases turns_succ_eq_ok.mp taken with ⟨_, rfl⟩ | ⟨later, stepped, taken⟩
    · rfl
    · exact (run_of_some stepped).trans (inductionHypothesis taken)

theorem run_eq_ok {state final : Propagation} :
    state.run program = .ok final ↔
      ∃ count, turns program count state = .ok final ∧ final.worklist = [] := by
  constructor
  · intro ran
    fun_induction run program state with
    | case1 state failure failed => cases ran
    | case2 state done =>
      cases ran
      exact ⟨0, rfl, step_eq_none.mp done⟩
    | case3 state later stepped inductionHypothesis =>
      obtain ⟨count, taken, nothing⟩ := inductionHypothesis ran
      exact ⟨count + 1, turns_succ_eq_ok.mpr (.inr ⟨later, stepped, taken⟩), nothing⟩
  · rintro ⟨count, taken, nothing⟩
    exact (run_of_turns taken).trans (run_of_none (step_eq_none.mpr nothing))

theorem run_moves (ran : before.run program = .ok after) : Moves program before after := by
  obtain ⟨count, taken, _⟩ := run_eq_ok.mp ran
  exact turns_moves taken

/-- The state after `count` turns of a propagation over `graph`. -/
def afterTurns (program : Program) (graph : FlowGraph) (count : Nat) : Checked Propagation := do
  turns program count (← start program graph)

def outcome (program : Program) (graph : FlowGraph) : Checked Propagation := do
  (← start program graph).run program

theorem outcome_eq_run {count : Nat} {state : Propagation}
    (taken : afterTurns program graph count = .ok state) :
    outcome program graph = state.run program := by
  obtain ⟨first, started, taken⟩ := Checked.bind_eq_ok.mp taken
  rw [outcome, started, Checked.ok_bind]
  exact run_of_turns taken

theorem afterTurns_moves {count : Nat} {state : Propagation}
    (taken : afterTurns program graph count = .ok state) : Moves program (blank graph) state := by
  obtain ⟨first, started, taken⟩ := Checked.bind_eq_ok.mp taken
  exact (seed_moves started).trans (turns_moves taken)

theorem outcome_eq_ok {final : Propagation} :
    outcome program graph = .ok final ↔
      ∃ count, afterTurns program graph count = .ok final ∧ final.worklist = [] := by
  constructor
  · intro ended
    obtain ⟨first, started, ran⟩ := Checked.bind_eq_ok.mp ended
    obtain ⟨count, taken, nothing⟩ := run_eq_ok.mp ran
    exact ⟨count, Checked.bind_eq_ok.mpr ⟨first, started, taken⟩, nothing⟩
  · rintro ⟨count, taken, nothing⟩
    rw [outcome_eq_run taken]
    exact run_of_none (step_eq_none.mpr nothing)

theorem outcome_moves {final : Propagation} (ended : outcome program graph = .ok final) :
    Moves program (blank graph) final := by
  obtain ⟨count, taken, _⟩ := outcome_eq_ok.mp ended
  exact afterTurns_moves taken

/-! ### What moves keep -/

theorem Move.prolonged (move : Move program before after) :
    before.graph.ProlongedBy after.graph := by
  cases move with
  | ensure =>
    rw [graph_ensure]
    exact .refl _
  | takeUp inserted someFresh sent =>
    rw [sent.graph]
    exact .refl _
  | link linked resent =>
    rw [(resends_sameKnowledge resent).graph]
    exact (FlowGraph.evolves_link linked).prolonged
  | turn => exact .refl _

theorem SameKnowledge.extends (same : SameKnowledge before after) : Extends before after :=
  ⟨congrArg FlowGraph.vertices same.graph, same.holds_iff.mpr, fun member => same.graph ▸ member,
    fun member => same.linked ▸ member⟩

theorem Move.extends (move : Move program before after) : Extends before after := by
  cases move with
  | @ensure vertex => exact (SameKnowledge.ensure before vertex).extends
  | @takeUp _ vertex values fresh facts inserted someFresh sent =>
    have takenUp : Extends before { before with facts } :=
      ⟨rfl, fun known => (FactTable.holds_insertAll inserted _ _).mpr (.inr known), id, id⟩
    exact takenUp.trans sent.sameKnowledge.extends
  | @link _ call target sources graph linked resent =>
    have tied : Extends before { before with graph, linked := (call, target) :: before.linked } :=
      ⟨(FlowGraph.link_counts linked).1, id,
        (FlowGraph.evolves_link linked).prolonged.mem_edges, List.mem_cons_of_mem _⟩
    exact tied.trans (resends_sameKnowledge resent).extends
  | turn => exact ⟨rfl, id, id, id⟩

theorem SameKnowledge.ordered (same : SameKnowledge before after)
    (ordered : before.facts.Ordered) : after.facts.Ordered := fun vertex =>
  same.rows vertex ▸ ordered vertex

theorem Move.ordered (move : Move program before after) (ordered : before.facts.Ordered) :
    after.facts.Ordered := by
  cases move with
  | @ensure vertex => exact (SameKnowledge.ensure before vertex).ordered ordered
  | takeUp inserted someFresh sent => exact sent.sameKnowledge.ordered (ordered.insertAll inserted)
  | link linked resent => exact (resends_sameKnowledge resent).ordered ordered
  | turn => exact ordered

theorem Moves.prolonged (moves : Moves program before after) :
    before.graph.ProlongedBy after.graph := by
  induction moves with
  | refl => exact .refl before.graph
  | tail _ move inductionHypothesis => exact inductionHypothesis.trans move.prolonged

theorem Moves.extends (moves : Moves program before after) : Extends before after := by
  induction moves with
  | refl => exact .refl before
  | tail _ move inductionHypothesis => exact inductionHypothesis.trans move.extends

theorem Moves.ordered (moves : Moves program before after) (ordered : before.facts.Ordered) :
    after.facts.Ordered := by
  induction moves with
  | refl => exact ordered
  | tail _ move inductionHypothesis => exact move.ordered inductionHypothesis

/-! ### Waiting is paid for -/

def funds (state : Propagation) : Nat := state.facts.count + state.graph.edgeCount

def spent (state : Propagation) : Nat := state.steps + state.worklist.length

theorem SameKnowledge.funds_eq (same : SameKnowledge before after) : after.funds = before.funds := by
  rw [funds, FactTable.count_congr same.rows, same.graph, funds]

theorem spent_ensure (state : Propagation) (vertex : VertexId) :
    (state.ensure vertex).spent = state.spent := by
  by_cases below : vertex < state.facts.rows.size
  · rw [ensure, if_pos below]
  · rw [ensure, if_neg below]
    rfl

theorem Sent.spent_le {vertex : VertexId} {values : List VertexId}
    (sent : Sent vertex values before after) : after.spent ≤ before.spent + 1 := by
  unfold spent
  rw [sent.steps]
  rcases sent.queue with ⟨_, _, sameQueue⟩ | ⟨_, _, longer⟩
  · rw [sameQueue]
    omega
  · rw [longer, List.length_append, List.length_singleton]
    omega

theorem spent_resends {sources : List VertexId}
    (resent : sources.foldlM resend before = .ok after) :
    after.spent ≤ before.spent + sources.length := by
  induction sources generalizing before with
  | nil =>
    cases resent
    exact Nat.le_refl _
  | cons source rest inductionHypothesis =>
    rw [List.foldlM_cons] at resent
    obtain ⟨middle, first, resent⟩ := Checked.bind_eq_ok.mp resent
    obtain ⟨values, _, sent⟩ := Checked.bind_eq_ok.mp first
    have now := (sent_of_send sent).spent_le
    rw [spent_ensure] at now
    have later := inductionHypothesis resent
    rw [List.length_cons]
    omega

theorem Move.balance (move : Move program before after) :
    before.funds + after.spent ≤ after.funds + before.spent := by
  cases move with
  | @ensure vertex =>
    rw [(SameKnowledge.ensure before vertex).funds_eq, spent_ensure]
  | @takeUp _ vertex values fresh facts inserted someFresh sent =>
    have counted := FactTable.count_insertAll inserted
    have atLeastOne : 0 < fresh.length := List.length_pos_of_ne_nil someFresh
    have waits := sent.spent_le
    rw [sent.sameKnowledge.funds_eq]
    show before.facts.count + before.graph.edgeCount + _ ≤
      facts.count + before.graph.edgeCount + before.spent
    have same : ({ before with facts }).spent = before.spent := rfl
    omega
  | @link _ call target sources graph linked resent =>
    have counted := (FlowGraph.link_counts linked).2
    have waits := spent_resends resent
    rw [(resends_sameKnowledge resent).funds_eq]
    show before.facts.count + before.graph.edgeCount + _ ≤
      before.facts.count + graph.edgeCount + before.spent
    have same : ({ before with graph, linked := (call, target) :: before.linked }).spent =
      before.spent := rfl
    omega
  | @turn vertex rest queue =>
    show before.facts.count + before.graph.edgeCount + (before.steps + 1 + rest.length) ≤
      before.facts.count + before.graph.edgeCount + (before.steps + before.worklist.length)
    rw [queue, List.length_cons]
    omega

theorem Moves.balance (moves : Moves program before after) :
    before.funds + after.spent ≤ after.funds + before.spent := by
  induction moves with
  | refl => exact Nat.le_refl _
  | tail _ move inductionHypothesis =>
    have last := move.balance
    omega

/-- A run over a well-formed graph whose callees belong to calls of the program ends with no vertex
waiting, after at most one turn for each fact in the end and for each edge that linking added. -/
theorem steps_bounded (program : Program) (graph : FlowGraph) (wellFormed : graph.WellFormed)
    (namesCalls : graph.NamesCalls program) :
    ∃ first final added, start program graph = .ok first ∧ first.run program = .ok final ∧
      final.worklist = [] ∧ final.graph.vertices = graph.vertices ∧
      final.graph.edgeCount = graph.edgeCount + added ∧
      final.steps ≤
        (∑ vertex ∈ Finset.range graph.size, (final.facts.row vertex).toFinset.card) + added := by
  obtain ⟨first, started, firstConsistent, _⟩ := start_consistent wellFormed namesCalls
  obtain ⟨final, ran, nothing, consistent, _⟩ := run_consistent namesCalls firstConsistent
  have moves : Moves program (blank graph) final := (seed_moves started).trans (run_moves ran)
  have ordered : final.facts.Ordered := moves.ordered (FactTable.ordered_unknown graph.size)
  obtain ⟨added, edgeCount⟩ := Nat.exists_eq_add_of_le moves.prolonged.edgeCount_le
  refine ⟨first, final, added, started, ran, nothing, consistent.vertices, edgeCount, ?_⟩
  have balance := moves.balance
  have nothingKnown : (blank graph).facts.count = 0 := FactTable.count_unknown graph.size
  have nothingWaits : (blank graph).spent = 0 := rfl
  have counted := ordered.count_eq
  rw [consistent.factRows] at counted
  have taken : final.spent = final.steps := by rw [spent, nothing, List.length_nil, Nat.add_zero]
  have begun : (blank graph).graph.edgeCount = graph.edgeCount := rfl
  unfold funds at balance
  omega

/-- One call of a function literal: its propagation ends within the bound. -/
theorem steps_bounded_oneCall :
    oneCallFlow.WellFormed ∧ oneCallFlow.NamesCalls oneCall ∧
      ∃ first final added, start oneCall oneCallFlow = .ok first ∧
        first.run oneCall = .ok final ∧ final.worklist = [] ∧
        final.graph.edgeCount = oneCallFlow.edgeCount + added ∧
        final.steps ≤
          (∑ vertex ∈ Finset.range oneCallFlow.size, (final.facts.row vertex).toFinset.card) +
            added := by
  obtain ⟨first, final, added, started, ran, nothing, _, edgeCount, bounded⟩ :=
    steps_bounded oneCall oneCallFlow (by decide) namesCalls_oneCallFlow
  exact ⟨by decide, namesCalls_oneCallFlow, first, final, added, started, ran, nothing, edgeCount,
    bounded⟩

end FunctionFlow.Propagation
