import FunctionFlow.Proofs.Analysis.Moves

/-!
Contract: propagation over a graph with callees of unknown calls.

A graph may have a callee whose call the program lacks. That does no harm until a function reaches
it: then linking fails. So the turns that a program takes are those of a program that has all calls
of the graph, as long as only its own calls are linked to functions.
-/

namespace FunctionFlow

def Program.CallsWithin (program larger : Program) : Prop :=
  ∀ (call : CallId) site, program.calls[call]? = some site → larger.calls[call]? = some site

theorem exists_above_callees (vertices : List Vertex) :
    ∃ bound, ∀ call, Vertex.callee call ∈ vertices → call < bound := by
  induction vertices with
  | nil => exact ⟨0, by simp⟩
  | cons vertex rest inductionHypothesis =>
    obtain ⟨bound, above⟩ := inductionHypothesis
    by_cases isCallee : ∃ call, vertex = .callee call
    · obtain ⟨call, rfl⟩ := isCallee
      refine ⟨max (call + 1) bound, fun other member => ?_⟩
      rcases List.mem_cons.mp member with same | later
      · cases same
        exact Nat.lt_of_lt_of_le (Nat.lt_succ_self _) (Nat.le_max_left _ _)
      · exact Nat.lt_of_lt_of_le (above other later) (Nat.le_max_right _ _)
    · refine ⟨bound, fun other member => ?_⟩
      rcases List.mem_cons.mp member with same | later
      · exact absurd ⟨other, same.symm⟩ isCallee
      · exact above other later

theorem FlowGraph.exists_namesCalls (graph : FlowGraph) (program : Program) :
    ∃ larger, program.CallsWithin larger ∧ graph.NamesCalls larger := by
  obtain ⟨bound, above⟩ := exists_above_callees graph.vertices.toList
  refine ⟨{ program with calls := program.calls ++ Array.replicate bound default }, ?_, ?_⟩
  · intro call site found
    rw [Array.getElem?_append_left (Table.below found)]
    exact found
  · intro call member
    have below := above call (Array.mem_toList_iff.mpr member)
    simp only [Array.size_append, Array.size_replicate]
    exact Nat.lt_of_lt_of_le below (Nat.le_add_left _ _)

/-- Linking by a program is linking by a larger one, unless a function meets an unknown call. -/
theorem FlowGraph.link_restricts {program larger : Program} (within : program.CallsWithin larger)
    {graph : FlowGraph} {call : CallId} {target : VertexId}
    {answer : List VertexId × FlowGraph} :
    graph.link program call target = .ok answer ↔ graph.link larger call target = .ok answer ∧
      ∀ function, graph.At target (.function function) → call < program.calls.size := by
  unfold link
  cases got : graph.get target with
  | error failure =>
    constructor
    · intro failed
      cases failed
    · rintro ⟨failed, _⟩
      cases failed
  | ok vertex =>
    have atTarget := get_eq_ok.mp got
    rw [Checked.ok_bind, Checked.ok_bind]
    by_cases isFunction : ∃ function, vertex = .function function
    · obtain ⟨function, rfl⟩ := isFunction
      by_cases isCall : call < program.calls.size
      · have found := Array.getElem?_eq_getElem isCall
        rw [Program.call, Program.call, fetch_eq_ok.mpr found,
          fetch_eq_ok.mpr (within _ _ found)]
        exact ⟨fun linked => ⟨linked, fun _ _ => isCall⟩, And.left⟩
      · constructor
        · intro linked
          obtain ⟨site, found, _⟩ := Checked.bind_eq_ok.mp linked
          exact absurd (lt_of_fetch found) isCall
        · rintro ⟨_, named⟩
          exact absurd (named function atTarget) isCall
    · have notFunction : ∀ function, ¬ graph.At target (.function function) :=
        fun function atFunction => isFunction ⟨function, atTarget.vertex_unique atFunction⟩
      cases vertex with
      | function id => exact absurd ⟨id, rfl⟩ isFunction
      | callee | native | slot =>
        exact ⟨fun linked => ⟨linked, fun _ found => absurd found (notFunction _)⟩, And.left⟩

namespace Propagation

def NamesLinked (program : Program) (state : Propagation) : Prop :=
  ∀ call target function, (call, target) ∈ state.linked →
    state.graph.At target (.function function) → call < program.calls.size

variable {program larger : Program}

theorem NamesLinked.of_extends {before after : Propagation} (named : after.NamesLinked program)
    (extends_ : Extends before after) : before.NamesLinked program := by
  intro call target function linked atTarget
  refine named call target function (extends_.linked linked) ?_
  rwa [FlowGraph.At, extends_.vertices]

/-- `part` succeeds just if `whole` does without linking a function to a call that the program
lacks, and then with the same state. -/
def Restricts (program : Program) (part whole : Checked Propagation) : Prop :=
  ∀ after, part = .ok after ↔ whole = .ok after ∧ after.NamesLinked program

theorem Restricts.pure {state : Propagation} (named : state.NamesLinked program) :
    Restricts program (.ok state) (.ok state) := by
  intro after
  constructor
  · intro same
    cases same
    exact ⟨rfl, named⟩
  · exact And.left

theorem Restricts.failure (failure : OutOfRange) :
    Restricts program (.error failure) (.error failure) := by
  intro after
  constructor
  · intro failed
    cases failed
  · rintro ⟨failed, _⟩
    cases failed

theorem Restricts.eq_ok_iff {part whole : Checked Propagation}
    (restricts : Restricts program part whole) {state : Propagation} (ran : whole = .ok state)
    (after : Propagation) : part = .ok after ↔ state = after ∧ state.NamesLinked program := by
  rw [restricts after, ran, Except.ok.injEq]
  exact and_congr_right fun same => same ▸ Iff.rfl

theorem Restricts.bind {first firstWhole : Checked Propagation}
    {next nextWhole : Propagation → Checked Propagation}
    (begins : Restricts program first firstWhole)
    (goesOn : ∀ middle, middle.NamesLinked program →
      Restricts program (next middle) (nextWhole middle))
    (kept : ∀ middle after, nextWhole middle = .ok after → Extends middle after) :
    Restricts program (first >>= next) (firstWhole >>= nextWhole) := by
  intro after
  rw [Checked.bind_eq_ok, Checked.bind_eq_ok]
  constructor
  · rintro ⟨middle, ran, ranOn⟩
    obtain ⟨ranWhole, named⟩ := (begins middle).mp ran
    obtain ⟨ranOnWhole, namedAfter⟩ := (goesOn middle named after).mp ranOn
    exact ⟨⟨middle, ranWhole, ranOnWhole⟩, namedAfter⟩
  · rintro ⟨⟨middle, ranWhole, ranOnWhole⟩, namedAfter⟩
    have named := namedAfter.of_extends (kept middle after ranOnWhole)
    exact ⟨middle, (begins middle).mpr ⟨ranWhole, named⟩,
      (goesOn middle named after).mpr ⟨ranOnWhole, namedAfter⟩⟩

/-! ### Operations -/

theorem NamesLinked.of_sameKnowledge {before after : Propagation}
    (named : before.NamesLinked program) (same : SameKnowledge before after) :
    after.NamesLinked program := by
  intro call target function
  rw [same.linked, same.graph]
  exact named call target function

section Linking

variable {state after : Propagation} {call : CallId} {target : VertexId}
  {sources : List VertexId} {graph : FlowGraph}
  (linked : state.graph.link program call target = .ok (sources, graph))
include linked

theorem NamesLinked.link (named : state.NamesLinked program)
    (isCall : ∀ function, state.graph.At target (.function function) →
      call < program.calls.size) :
    { state with graph, linked := (call, target) :: state.linked }.NamesLinked program := by
  intro other value function member atValue
  rw [FlowGraph.At, (FlowGraph.link_counts linked).1] at atValue
  rcases List.mem_cons.mp member with same | old
  · cases same
    exact isCall function atValue
  · exact named other value function old atValue

theorem NamesLinked.of_link {smaller : Program} (named : after.NamesLinked smaller)
    (same : SameKnowledge { state with graph, linked := (call, target) :: state.linked } after) :
    ∀ function, state.graph.At target (.function function) → call < smaller.calls.size := by
  intro function atTarget
  refine named call target function ?_ ?_
  · rw [same.linked]
    exact List.mem_cons_self
  · rwa [same.graph, FlowGraph.At, (FlowGraph.link_counts linked).1]

end Linking

variable (within : program.CallsWithin larger)
include within

theorem linkAll_restricts {call : CallId} {targets : List VertexId} {state : Propagation}
    (named : state.NamesLinked program) :
    Restricts program (linkAll program call state targets)
      (linkAll larger call state targets) := by
  induction targets generalizing state with
  | nil => exact .pure named
  | cons target rest inductionHypothesis =>
    unfold linkAll
    by_cases already : state.linked.contains (call, target) = true
    · rw [if_pos already, if_pos already]
      exact inductionHypothesis named
    · rw [if_neg already, if_neg already]
      intro after
      rw [Checked.bind_eq_ok, Checked.bind_eq_ok]
      constructor
      · rintro ⟨⟨sources, graph⟩, linked, continued⟩
        obtain ⟨middle, resent, linkedRest⟩ := Checked.bind_eq_ok.mp continued
        obtain ⟨linkedWhole, isCall⟩ := (FlowGraph.link_restricts within).mp linked
        have namedNext :=
          (named.link linked isCall).of_sameKnowledge (resends_sameKnowledge resent)
        obtain ⟨restWhole, namedAfter⟩ := (inductionHypothesis namedNext after).mp linkedRest
        exact ⟨⟨(sources, graph), linkedWhole,
          Checked.bind_eq_ok.mpr ⟨middle, resent, restWhole⟩⟩, namedAfter⟩
      · rintro ⟨⟨⟨sources, graph⟩, linkedWhole, continued⟩, namedAfter⟩
        obtain ⟨middle, resent, restWhole⟩ := Checked.bind_eq_ok.mp continued
        have namedNext := namedAfter.of_extends (linkAll_moves restWhole).extends
        have isCall := namedNext.of_link linkedWhole (resends_sameKnowledge resent)
        exact ⟨(sources, graph), (FlowGraph.link_restricts within).mpr ⟨linkedWhole, isCall⟩,
          Checked.bind_eq_ok.mpr
            ⟨middle, resent, (inductionHypothesis namedNext after).mpr ⟨restWhole, namedAfter⟩⟩⟩

theorem linkAt_restricts {vertex : VertexId} {targets : List VertexId} {state : Propagation}
    (named : state.NamesLinked program) :
    Restricts program (state.linkAt program vertex targets) (state.linkAt larger vertex targets) := by
  unfold linkAt
  cases state.graph.get vertex with
  | error failure => exact .failure failure
  | ok found =>
    rw [Checked.ok_bind, Checked.ok_bind]
    cases found with
    | callee call => exact linkAll_restricts within named
    | function | native | slot => exact .pure named

theorem addFacts_restricts {vertex : VertexId} {values : List VertexId} {state : Propagation}
    (named : state.NamesLinked program) :
    Restricts program (state.addFacts program vertex values)
      (state.addFacts larger vertex values) := by
  have ensured := named.of_sameKnowledge (.ensure state vertex)
  have sends {facts : FactTable} {fresh : List VertexId} {middle : Propagation}
      (sent : { state.ensure vertex with facts }.send vertex fresh = .ok middle) :
      middle.NamesLinked program := by
    have tookUp : { state.ensure vertex with facts }.NamesLinked program := ensured
    exact tookUp.of_sameKnowledge (sent_of_send sent).sameKnowledge
  intro after
  rw [addFacts_eq_ok, addFacts_eq_ok]
  constructor
  · rintro ⟨fresh, facts, inserted, ⟨noneFresh, rfl⟩ | ⟨someFresh, middle, sent, linked⟩⟩
    · exact ⟨⟨fresh, facts, inserted, .inl ⟨noneFresh, rfl⟩⟩, ensured⟩
    · obtain ⟨linkedWhole, namedAfter⟩ := (linkAt_restricts within (sends sent) after).mp linked
      exact ⟨⟨fresh, facts, inserted, .inr ⟨someFresh, middle, sent, linkedWhole⟩⟩, namedAfter⟩
  · rintro ⟨⟨fresh, facts, inserted, ⟨noneFresh, rfl⟩ | ⟨someFresh, middle, sent, linkedWhole⟩⟩,
      namedAfter⟩
    · exact ⟨fresh, facts, inserted, .inl ⟨noneFresh, rfl⟩⟩
    · exact ⟨fresh, facts, inserted, .inr ⟨someFresh, middle, sent,
        (linkAt_restricts within (sends sent) after).mpr ⟨linkedWhole, namedAfter⟩⟩⟩

theorem passOn_restricts {values targets : List VertexId} {state : Propagation}
    (named : state.NamesLinked program) :
    Restricts program (passOn program values state targets)
      (passOn larger values state targets) := by
  induction targets generalizing state with
  | nil => exact .pure named
  | cons target rest inductionHypothesis =>
    exact (addFacts_restricts within named).bind (fun _ namedNext => inductionHypothesis namedNext)
      fun _ _ passed => (passOn_moves passed).extends

theorem seed_restricts {values : List VertexId} {state : Propagation}
    (named : state.NamesLinked program) :
    Restricts program (seed program state values) (seed larger state values) := by
  induction values generalizing state with
  | nil => exact .pure named
  | cons value rest inductionHypothesis =>
    exact (addFacts_restricts within named).bind (fun _ namedNext => inductionHypothesis namedNext)
      fun _ _ seeded => (seed_moves seeded).extends

theorem start_restricts (graph : FlowGraph) :
    Restricts program (start program graph) (start larger graph) :=
  seed_restricts within fun _ _ _ linked => absurd linked List.not_mem_nil

theorem step_restricts {state after : Propagation} (named : state.NamesLinked program) :
    state.step program = .ok (some after) ↔
      state.step larger = .ok (some after) ∧ after.NamesLinked program := by
  have passed (vertex : VertexId) (rest successors : List VertexId) : Restricts program
      (passOn program (state.waiting vertex) (state.dequeue vertex rest) successors)
      (passOn larger (state.waiting vertex) (state.dequeue vertex rest) successors) :=
    passOn_restricts within named
  rw [step_eq_some, step_eq_some]
  constructor
  · rintro ⟨vertex, rest, queue, inQueued, inPending,
      ⟨nothing, rfl⟩ | ⟨something, successors, listed, ran⟩⟩
    · exact ⟨⟨vertex, rest, queue, inQueued, inPending, .inl ⟨nothing, rfl⟩⟩, named⟩
    · obtain ⟨ranWhole, namedAfter⟩ := (passed vertex rest successors after).mp ran
      exact ⟨⟨vertex, rest, queue, inQueued, inPending,
        .inr ⟨something, successors, listed, ranWhole⟩⟩, namedAfter⟩
  · rintro ⟨⟨vertex, rest, queue, inQueued, inPending, turn⟩, namedAfter⟩
    refine ⟨vertex, rest, queue, inQueued, inPending, turn.imp_right ?_⟩
    rintro ⟨something, successors, listed, ranWhole⟩
    exact ⟨something, successors, listed,
      (passed vertex rest successors after).mpr ⟨ranWhole, namedAfter⟩⟩

theorem turns_restricts {count : Nat} {state : Propagation} (named : state.NamesLinked program) :
    Restricts program (turns program count state) (turns larger count state) := by
  induction count generalizing state with
  | zero => exact .pure named
  | succ count inductionHypothesis =>
    intro after
    rw [turns_succ_eq_ok, turns_succ_eq_ok, step_eq_none, step_eq_none]
    constructor
    · rintro (⟨nothing, rfl⟩ | ⟨later, stepped, taken⟩)
      · exact ⟨.inl ⟨nothing, rfl⟩, named⟩
      · obtain ⟨steppedWhole, namedLater⟩ := (step_restricts within named).mp stepped
        obtain ⟨takenWhole, namedAfter⟩ := (inductionHypothesis namedLater after).mp taken
        exact ⟨.inr ⟨later, steppedWhole, takenWhole⟩, namedAfter⟩
    · rintro ⟨⟨nothing, rfl⟩ | ⟨later, steppedWhole, takenWhole⟩, namedAfter⟩
      · exact .inl ⟨nothing, rfl⟩
      · have namedLater := namedAfter.of_extends (turns_moves takenWhole).extends
        exact .inr ⟨later, (step_restricts within named).mpr ⟨steppedWhole, namedLater⟩,
          (inductionHypothesis namedLater after).mpr ⟨takenWhole, namedAfter⟩⟩

theorem run_restricts {state : Propagation} (named : state.NamesLinked program) :
    Restricts program (state.run program) (state.run larger) := by
  intro after
  rw [run_eq_ok, run_eq_ok]
  constructor
  · rintro ⟨count, taken, nothing⟩
    obtain ⟨takenWhole, namedAfter⟩ := (turns_restricts within named after).mp taken
    exact ⟨⟨count, takenWhole, nothing⟩, namedAfter⟩
  · rintro ⟨⟨count, takenWhole, nothing⟩, namedAfter⟩
    exact ⟨count, (turns_restricts within named after).mpr ⟨takenWhole, namedAfter⟩, nothing⟩

theorem afterTurns_restricts (graph : FlowGraph) (count : Nat) :
    Restricts program (afterTurns program graph count) (afterTurns larger graph count) :=
  (start_restricts within graph).bind (fun _ named => turns_restricts within named)
    fun _ _ taken => (turns_moves taken).extends

theorem outcome_restricts (graph : FlowGraph) :
    Restricts program (outcome program graph) (outcome larger graph) :=
  (start_restricts within graph).bind (fun _ named => run_restricts within named)
    fun _ _ ran => (run_moves ran).extends

end Propagation

end FunctionFlow
