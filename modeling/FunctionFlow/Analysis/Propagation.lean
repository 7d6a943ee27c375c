import FunctionFlow.Analysis.Facts
import FunctionFlow.CallGraph.Basic
import FunctionFlow.Flow.Link

/-!
Contract: forward propagation of function values to a fixed point.

A call is linked as soon as a function reaches its callee, so the graph grows while facts move.
Every step either takes up a fact or shortens the queue, hence `run` ends.
-/

namespace FunctionFlow

structure Propagation where
  graph : FlowGraph
  facts : FactTable
  /-- Per vertex, the values not yet passed on to its successors. -/
  pending : Array (List VertexId)
  /-- The vertices that wait for their turn, first come first served. -/
  worklist : List VertexId
  queued : Array Bool
  /-- The calls that are linked, with the values they are linked to. -/
  linked : List (CallId × VertexId)
  steps : Nat
  deriving DecidableEq, Repr, Inhabited

namespace Propagation

/-- Gives `vertex`, and with it all vertices of the graph, a place in the tables. -/
def ensure (state : Propagation) (vertex : VertexId) : Propagation :=
  if vertex < state.facts.rows.size then state
  else
    let size := max state.graph.size (vertex + 1)
    { state with
      facts := ⟨resize state.facts.rows size []⟩
      pending := resize state.pending size []
      queued := resize state.queued size false }

/-- Puts a vertex at the end of the queue, unless it waits already. -/
def enqueue (state : Propagation) (vertex : VertexId) : Checked Propagation := do
  if ← fetch state.queued vertex (.vertex vertex) then return state
  else
    return { state with
      queued := state.queued.setIfInBounds vertex true
      worklist := state.worklist ++ [vertex] }

/-- Lets `vertex` wait to pass `values` on. -/
def send (state : Propagation) (vertex : VertexId) (values : List VertexId) :
    Checked Propagation := do
  let waiting ← fetch state.pending vertex (.vertex vertex)
  let pending := state.pending.setIfInBounds vertex (insertIds values waiting)
  { state with pending }.enqueue vertex

/-- Lets `vertex` pass on all its facts again, for the sake of a new edge. -/
def resend (state : Propagation) (vertex : VertexId) : Checked Propagation := do
  let state := state.ensure vertex
  state.send vertex (← state.facts.get vertex)

/-- Links a call to the values in a list, except where it is linked already. -/
def linkAll (program : Program) (call : CallId) :
    Propagation → List VertexId → Checked Propagation
  | state, [] => return state
  | state, target :: rest =>
    if state.linked.contains (call, target) then linkAll program call state rest
    else do
      let (sources, graph) ← state.graph.link program call target
      let state := { state with graph, linked := (call, target) :: state.linked }
      linkAll program call (← sources.foldlM resend state) rest

/-- Links a callee to the values in a list; at any other vertex there is nothing to link. -/
def linkAt (program : Program) (state : Propagation) (vertex : VertexId)
    (targets : List VertexId) : Checked Propagation := do
  match ← state.graph.get vertex with
  | .callee call => linkAll program call state targets
  | _ => return state

/-- Takes up the facts that `values` reach `vertex`. New facts are put up for passing on, and at a
callee they are linked. -/
def addFacts (program : Program) (state : Propagation) (vertex : VertexId)
    (values : List VertexId) : Checked Propagation := do
  let state := state.ensure vertex
  let (fresh, facts) ← state.facts.insertAll vertex values
  if fresh.isEmpty then return state
  else
    let state ← { state with facts }.send vertex fresh
    state.linkAt program vertex fresh

def passOn (program : Program) (values : List VertexId) :
    Propagation → List VertexId → Checked Propagation
  | state, [] => return state
  | state, vertex :: rest => do
    passOn program values (← state.addFacts program vertex values) rest

def blank (graph : FlowGraph) : Propagation where
  graph := graph
  facts := .unknown graph.size
  pending := Array.replicate graph.size []
  worklist := []
  queued := Array.replicate graph.size false
  linked := []
  steps := 0

def seed (program : Program) : Propagation → List VertexId → Checked Propagation
  | state, [] => return state
  | state, value :: rest => do seed program (← state.addFacts program value [value]) rest

def start (program : Program) (graph : FlowGraph) : Checked Propagation :=
  seed program (blank graph) graph.valueIds

/-- The state in which `vertex`, the first of the queue, has its turn. -/
def dequeue (state : Propagation) (vertex : VertexId) (rest : List VertexId) : Propagation :=
  { state with
    worklist := rest
    queued := state.queued.setIfInBounds vertex false
    pending := state.pending.setIfInBounds vertex []
    steps := state.steps + 1 }

/-- One turn: the first vertex of the queue passes its waiting values on. `none` says that no
vertex waits. -/
def step (program : Program) (state : Propagation) : Checked (Option Propagation) :=
  match state.worklist with
  | [] => return none
  | vertex :: rest => do
    let _ ← fetch state.queued vertex (.vertex vertex)
    let waiting ← fetch state.pending vertex (.vertex vertex)
    let state := state.dequeue vertex rest
    if waiting.isEmpty then return some state
    else return some (← passOn program waiting state (← state.graph.successors vertex))

/-- The values that a vertex has not passed on. -/
def waiting (state : Propagation) (vertex : VertexId) : List VertexId :=
  state.pending[vertex]?.getD []

/-- What sending does: the values join those that wait at the vertex, and the vertex is in the
queue. -/
structure Sent (vertex : VertexId) (values : List VertexId) (before after : Propagation) :
    Prop where
  graph : after.graph = before.graph
  facts : after.facts = before.facts
  linked : after.linked = before.linked
  steps : after.steps = before.steps
  below : vertex < before.pending.size
  pending :
    after.pending = before.pending.setIfInBounds vertex (insertIds values (before.waiting vertex))
  queue : (before.queued[vertex]? = some true ∧ after.queued = before.queued ∧
      after.worklist = before.worklist) ∨
    (before.queued[vertex]? = some false ∧ after.queued = before.queued.setIfInBounds vertex true ∧
      after.worklist = before.worklist ++ [vertex])

section

variable {program : Program} {before after : Propagation} {vertex : VertexId}
  {values : List VertexId}

theorem waiting_of_fetch {waiting : List VertexId} {missing : OutOfRange}
    (found : fetch before.pending vertex missing = .ok waiting) :
    before.waiting vertex = waiting := by
  rw [Propagation.waiting, fetch_eq_ok.mp found, Option.getD_some]

theorem sent_of_send (sent : before.send vertex values = .ok after) :
    Sent vertex values before after := by
  obtain ⟨waiting, found, sent⟩ := Checked.bind_eq_ok.mp sent
  have below := lt_of_fetch found
  cases waiting_of_fetch found
  obtain ⟨isQueued, queue, sent⟩ := Checked.bind_eq_ok.mp sent
  cases isQueued with
  | true =>
    cases sent
    exact ⟨rfl, rfl, rfl, rfl, below, rfl, .inl ⟨fetch_eq_ok.mp queue, rfl, rfl⟩⟩
  | false =>
    cases sent
    exact ⟨rfl, rfl, rfl, rfl, below, rfl, .inr ⟨fetch_eq_ok.mp queue, rfl, rfl⟩⟩

theorem addFacts_eq_ok :
    before.addFacts program vertex values = .ok after ↔
      ∃ fresh facts, (before.ensure vertex).facts.insertAll vertex values = .ok (fresh, facts) ∧
        ((fresh = [] ∧ after = before.ensure vertex) ∨
          (fresh ≠ [] ∧ ∃ middle,
            { before.ensure vertex with facts }.send vertex fresh = .ok middle ∧
              middle.linkAt program vertex fresh = .ok after)) := by
  constructor
  · intro added
    obtain ⟨⟨fresh, facts⟩, inserted, added⟩ := Checked.bind_eq_ok.mp added
    refine ⟨fresh, facts, inserted, ?_⟩
    cases fresh with
    | nil =>
      cases added
      exact .inl ⟨rfl, rfl⟩
    | cons value others =>
      exact .inr ⟨List.cons_ne_nil value others, Checked.bind_eq_ok.mp added⟩
  · rintro ⟨fresh, facts, inserted, turn⟩
    refine Checked.bind_eq_ok.mpr ⟨(fresh, facts), inserted, ?_⟩
    rcases turn with ⟨rfl, rfl⟩ | ⟨someFresh, continued⟩
    · rfl
    · cases fresh with
      | nil => exact absurd rfl someFresh
      | cons value others => exact Checked.bind_eq_ok.mpr continued

end

/-- The least bound above all values in the facts and in the waiting values. -/
def width (state : Propagation) : Nat :=
  above (state.facts.rows.toList.flatten ++ state.pending.toList.flatten)

/-- How far a run has come: all values are below `bound`, and `left` facts about them can still be
taken up. -/
structure Stage (height bound left : Nat) (state : Propagation) : Prop where
  size : state.graph.size = height
  facts : ∀ vertex, ∀ value ∈ state.facts.row vertex, value < bound
  waiting : ∀ vertex, ∀ value ∈ state.waiting vertex, value < bound
  missing : state.facts.missing height bound = left

private theorem mem_flatten_iff {rows : Array (List VertexId)} {value : VertexId} :
    value ∈ rows.toList.flatten ↔ ∃ place : Nat, value ∈ rows[place]?.getD [] := by
  rw [List.mem_flatten]
  constructor
  · rintro ⟨row, member, inRow⟩
    obtain ⟨place, found⟩ := List.mem_iff_getElem?.mp member
    rw [Array.getElem?_toList] at found
    exact ⟨place, by rwa [found, Option.getD_some]⟩
  · rintro ⟨place, inRow⟩
    cases found : rows[place]? with
    | none =>
      rw [found, Option.getD_none] at inRow
      cases inRow
    | some row =>
      rw [found, Option.getD_some] at inRow
      rw [← Array.getElem?_toList] at found
      exact ⟨row, List.mem_of_getElem? found, inRow⟩

theorem width_le_iff {state : Propagation} {bound : Nat} :
    state.width ≤ bound ↔
      (∀ vertex, ∀ value ∈ state.facts.row vertex, value < bound) ∧
        ∀ vertex, ∀ value ∈ state.waiting vertex, value < bound := by
  rw [width, above_le_iff, List.forall_mem_append]
  simp only [mem_flatten_iff, forall_exists_index]
  exact ⟨fun ⟨facts, waiting⟩ => ⟨fun vertex value => facts value vertex, fun vertex value =>
      waiting value vertex⟩,
    fun ⟨facts, waiting⟩ => ⟨fun value vertex => facts vertex value, fun value vertex =>
      waiting vertex value⟩⟩

theorem row_ensure (state : Propagation) (vertex other : VertexId) :
    (state.ensure vertex).facts.row other = state.facts.row other := by
  by_cases below : vertex < state.facts.rows.size
  · rw [ensure, if_pos below]
  · rw [ensure, if_neg below]
    simp only [FactTable.row, getElem?_resize]
    split
    · rw [Option.getD_some]
    · have past : state.facts.rows.size ≤ vertex := Nat.le_of_not_lt below
      rw [Array.getElem?_eq_none (by omega)]

theorem mem_of_mem_waiting_ensure {state : Propagation} {vertex other value : VertexId}
    (waits : value ∈ (state.ensure vertex).waiting other) : value ∈ state.waiting other := by
  unfold ensure at waits
  split at waits
  · exact waits
  · simp only [Propagation.waiting, getElem?_resize] at waits ⊢
    split at waits
    · exact waits
    · cases waits

@[simp] theorem graph_ensure (state : Propagation) (vertex : VertexId) :
    (state.ensure vertex).graph = state.graph := by
  unfold ensure
  split <;> rfl

@[simp] theorem worklist_ensure (state : Propagation) (vertex : VertexId) :
    (state.ensure vertex).worklist = state.worklist := by
  unfold ensure
  split <;> rfl

theorem Sent.mem_waiting {vertex other value : VertexId} {values : List VertexId}
    {before after : Propagation} (sent : Sent vertex values before after) :
    value ∈ after.waiting other ↔ (other = vertex ∧ value ∈ values) ∨ value ∈ before.waiting other := by
  have below := sent.below
  rw [Propagation.waiting, sent.pending]
  by_cases same : other = vertex
  · subst same
    simp [below, mem_insertIds]
  · have apart : vertex ≠ other := fun eq => same eq.symm
    simp [Propagation.waiting, apart, same]

namespace Stage

variable {height bound left : Nat} {program : Program} {before after : Propagation}
  {vertex : VertexId} {values targets : List VertexId}

theorem ensure (stage : Stage height bound left before) (vertex : VertexId) :
    Stage height bound left (before.ensure vertex) where
  size := (congrArg FlowGraph.size (graph_ensure before vertex)).trans stage.size
  facts other := by
    rw [row_ensure]
    exact stage.facts other
  waiting other value waits := stage.waiting other value (mem_of_mem_waiting_ensure waits)
  missing := (FactTable.missing_congr (row_ensure before vertex)).trans stage.missing

theorem send (stage : Stage height bound left before) (below : ∀ value ∈ values, value < bound)
    (sent : Sent vertex values before after) : Stage height bound left after where
  size := (congrArg FlowGraph.size sent.graph).trans stage.size
  facts := sent.facts ▸ stage.facts
  waiting other value waits := by
    rcases sent.mem_waiting.mp waits with ⟨_, isSent⟩ | before
    · exact below value isSent
    · exact stage.waiting other value before
  missing := sent.facts ▸ stage.missing

theorem resends (stage : Stage height bound left before) {sources : List VertexId}
    (resent : sources.foldlM resend before = .ok after) : Stage height bound left after := by
  induction sources generalizing before with
  | nil =>
    cases resent
    exact stage
  | cons source rest inductionHypothesis =>
    rw [List.foldlM_cons] at resent
    obtain ⟨middle, first, resent⟩ := Checked.bind_eq_ok.mp resent
    obtain ⟨values, known, sent⟩ := Checked.bind_eq_ok.mp first
    have ensured := stage.ensure source
    have below := ensured.facts source
    rw [FactTable.row_of_get known] at below
    exact inductionHypothesis (ensured.send below (sent_of_send sent)) resent

theorem linkAll {call : CallId} (stage : Stage height bound left before)
    (linked : Propagation.linkAll program call before targets = .ok after) :
    Stage height bound left after := by
  induction targets generalizing before with
  | nil =>
    cases linked
    exact stage
  | cons target rest inductionHypothesis =>
    unfold Propagation.linkAll at linked
    split at linked
    · exact inductionHypothesis stage linked
    · obtain ⟨⟨sources, graph⟩, tied, linked⟩ := Checked.bind_eq_ok.mp linked
      obtain ⟨middle, resent, linked⟩ := Checked.bind_eq_ok.mp linked
      have tiedStage : Stage height bound left
          { before with graph, linked := (call, target) :: before.linked } :=
        ⟨(FlowGraph.size_link tied).trans stage.size, stage.facts, stage.waiting, stage.missing⟩
      exact inductionHypothesis (tiedStage.resends resent) linked

theorem linkAt (stage : Stage height bound left before)
    (linked : before.linkAt program vertex targets = .ok after) :
    Stage height bound left after := by
  obtain ⟨found, _, linked⟩ := Checked.bind_eq_ok.mp linked
  split at linked
  · exact stage.linkAll linked
  · cases linked
    exact stage

theorem addFacts (stage : Stage height bound left before) (below : ∀ value ∈ values, value < bound)
    (added : before.addFacts program vertex values = .ok after) :
    (∃ fewer < left, Stage height bound fewer after) ∨
      (Stage height bound left after ∧ after.worklist = before.worklist) := by
  have ensured := stage.ensure vertex
  obtain ⟨fresh, facts, inserted, ⟨_, rfl⟩ | ⟨someFresh, middle, sent, tied⟩⟩ :=
    addFacts_eq_ok.mp added
  · exact .inr ⟨ensured, worklist_ensure before vertex⟩
  · have sent := sent_of_send sent
    have fromValues (known) (isFresh : known ∈ fresh) : known ∈ values :=
      ((FactTable.mem_fresh inserted).mp isFresh).1
    obtain ⟨value, isFresh⟩ := List.exists_mem_of_ne_nil fresh someFresh
    have vertexBelow : vertex < height := by
      obtain ⟨found, atVertex, _⟩ := Checked.bind_eq_ok.mp tied
      have inGraph := lt_of_fetch atVertex
      rw [sent.graph] at inGraph
      exact ensured.size ▸ inGraph
    have takenUp : facts.missing height bound < left :=
      ensured.missing ▸ FactTable.missing_lt_of_insertAll inserted isFresh vertexBelow
        (below value (fromValues value isFresh))
    have inserted : Stage height bound (facts.missing height bound)
        { before.ensure vertex with facts } := by
      refine ⟨ensured.size, fun other known holds => ?_, ensured.waiting, rfl⟩
      rcases (FactTable.holds_insertAll inserted other known).mp (FactTable.mem_row.mp holds) with
        ⟨_, offered⟩ | earlier
      · exact below known offered
      · exact ensured.facts other known (FactTable.mem_row.mpr earlier)
    have reached := inserted.send (fun known isFresh => below known (fromValues known isFresh)) sent
    exact .inl ⟨_, takenUp, reached.linkAt tied⟩

theorem passOn (stage : Stage height bound left before) (below : ∀ value ∈ values, value < bound)
    (passed : Propagation.passOn program values before targets = .ok after) :
    (∃ fewer < left, Stage height bound fewer after) ∨
      (Stage height bound left after ∧ after.worklist = before.worklist) := by
  induction targets generalizing before left with
  | nil =>
    cases passed
    exact .inr ⟨stage, rfl⟩
  | cons target rest inductionHypothesis =>
    obtain ⟨middle, added, passed⟩ := Checked.bind_eq_ok.mp passed
    rcases stage.addFacts below added with ⟨fewer, less, stage⟩ | ⟨stage, sameQueue⟩
    · rcases inductionHypothesis stage passed with ⟨fewest, further, stage⟩ | ⟨stage, _⟩
      · exact .inl ⟨fewest, Nat.lt_trans further less, stage⟩
      · exact .inl ⟨fewer, less, stage⟩
    · rw [← sameQueue]
      exact inductionHypothesis stage passed

theorem dequeue (stage : Stage height bound left before) (vertex : VertexId)
    (rest : List VertexId) : Stage height bound left (before.dequeue vertex rest) where
  size := stage.size
  facts := stage.facts
  waiting other value waits := by
    refine stage.waiting other value ?_
    by_cases same : vertex = other
    · subst same
      by_cases inTable : vertex < before.pending.size <;>
        simp [Propagation.waiting, Propagation.dequeue, inTable] at waits ⊢
    · simpa [Propagation.waiting, Propagation.dequeue, same] using waits
  missing := stage.missing

end Stage

/-- What a turn does: the first vertex of the queue leaves it, and what waits there goes to its
successors. -/
theorem step_eq_some {program : Program} {before after : Propagation} :
    before.step program = .ok (some after) ↔
      ∃ vertex rest, before.worklist = vertex :: rest ∧ vertex < before.queued.size ∧
        vertex < before.pending.size ∧
        ((before.waiting vertex = [] ∧ after = before.dequeue vertex rest) ∨
          (before.waiting vertex ≠ [] ∧ ∃ successors,
            before.graph.successors vertex = .ok successors ∧
              passOn program (before.waiting vertex) (before.dequeue vertex rest) successors =
                .ok after)) := by
  unfold step
  cases queue : before.worklist with
  | nil => simp [pure, Except.pure]
  | cons vertex rest =>
    constructor
    · intro stepped
      obtain ⟨_, inQueued, stepped⟩ := Checked.bind_eq_ok.mp stepped
      obtain ⟨waiting, found, stepped⟩ := Checked.bind_eq_ok.mp stepped
      refine ⟨vertex, rest, rfl, lt_of_fetch inQueued, lt_of_fetch found, ?_⟩
      rw [waiting_of_fetch found]
      cases waiting with
      | nil =>
        cases stepped
        exact .inl ⟨rfl, rfl⟩
      | cons value others =>
        obtain ⟨successors, outOf, stepped⟩ := Checked.bind_eq_ok.mp stepped
        obtain ⟨state, passed, stepped⟩ := Checked.bind_eq_ok.mp stepped
        cases stepped
        exact .inr ⟨List.cons_ne_nil value others, successors, outOf, passed⟩
    · rintro ⟨_, _, sameQueue, inQueued, inPending, turn⟩
      cases sameQueue
      refine Checked.bind_eq_ok.mpr
        ⟨_, fetch_eq_ok.mpr (Array.getElem?_eq_getElem inQueued), ?_⟩
      have found : before.pending[vertex]? = some (before.waiting vertex) := by
        rw [Propagation.waiting, Array.getElem?_eq_getElem inPending, Option.getD_some]
      refine Checked.bind_eq_ok.mpr ⟨_, fetch_eq_ok.mpr found, ?_⟩
      rcases turn with ⟨nothing, rfl⟩ | ⟨something, successors, outOf, passed⟩
      · rw [nothing]
        rfl
      · rw [if_neg (by simpa using something)]
        exact Checked.bind_eq_ok.mpr
          ⟨successors, outOf, Checked.bind_eq_ok.mpr ⟨after, passed, rfl⟩⟩

/-- The measure of a run: bounds of values first, then facts to take up, then the queue. -/
def measure (state : Propagation) : Nat × Nat × Nat :=
  (state.width, state.facts.missing state.graph.size state.width, state.worklist.length)

private theorem measure_of_stage {bound fewer : Nat} {before after : Propagation}
    (stage : Stage before.graph.size bound fewer after) (isWidth : bound = before.width)
    (less : fewer < before.facts.missing before.graph.size before.width ∨
      (fewer = before.facts.missing before.graph.size before.width ∧
        after.worklist.length < before.worklist.length)) :
    Prod.Lex (· < ·) (Prod.Lex (· < ·) (· < ·)) after.measure before.measure := by
  have narrower : after.width ≤ before.width :=
    width_le_iff.mpr (isWidth ▸ ⟨stage.facts, stage.waiting⟩)
  rcases Nat.lt_or_eq_of_le narrower with strictly | sameWidth
  · exact .left _ _ strictly
  · have missing := stage.missing
    unfold measure
    rw [sameWidth, stage.size, ← isWidth, missing, isWidth]
    refine .right _ ?_
    rcases less with fewerFacts | ⟨sameFacts, shorter⟩
    · exact .left _ _ fewerFacts
    · rw [sameFacts]
      exact .right _ shorter

theorem step_decreases {program : Program} {before after : Propagation}
    (stepped : before.step program = .ok (some after)) :
    Prod.Lex (· < ·) (Prod.Lex (· < ·) (· < ·)) after.measure before.measure := by
  obtain ⟨vertex, rest, queue, _, _, turn⟩ := step_eq_some.mp stepped
  have bounds := width_le_iff.mp (Nat.le_refl before.width)
  have stage : Stage before.graph.size before.width _ before := ⟨rfl, bounds.1, bounds.2, rfl⟩
  have dequeued := stage.dequeue vertex rest
  have shorter : rest.length < before.worklist.length := by simp [queue]
  rcases turn with ⟨_, rfl⟩ | ⟨_, successors, _, passed⟩
  · exact measure_of_stage dequeued rfl (.inr ⟨rfl, shorter⟩)
  · rcases dequeued.passOn (bounds.2 vertex) passed with ⟨fewer, less, stage⟩ | ⟨stage, sameQueue⟩
    · exact measure_of_stage stage rfl (.inl less)
    · exact measure_of_stage stage rfl (.inr ⟨rfl, sameQueue ▸ shorter⟩)

def run (program : Program) (state : Propagation) : Checked Propagation :=
  match _next : state.step program with
  | .error failure => .error failure
  | .ok none => .ok state
  | .ok (some later) => later.run program
termination_by state.measure
decreasing_by exact step_decreases _next

def isDone (state : Propagation) : Bool := state.worklist.isEmpty

/-- The vertices whose facts differ between two states, with their facts in the later one. -/
def changes (before after : Propagation) : List (VertexId × List VertexId) :=
  (List.range after.facts.rows.size).filterMap fun vertex =>
    if before.facts.row vertex = after.facts.row vertex then none
    else some (vertex, after.facts.row vertex)

/-- A callee with each value known to reach it; no pairs at any other vertex. -/
def calleeRow (state : Propagation) (vertex : Vertex) (id : VertexId) :
    Checked (List (Vertex × Vertex)) :=
  match vertex with
  | .callee _ => do
    (← state.facts.get id).mapM fun target => do return (vertex, ← state.graph.get target)
  | _ => return []

def calleePairs (state : Propagation) : Checked (List (Vertex × Vertex)) := do
  let rows ← state.graph.vertices.toList.zipIdx.mapM fun (vertex, id) => state.calleeRow vertex id
  return rows.flatten

def callGraph (state : Propagation) : Checked CallGraph := do
  return CallGraph.empty.insertAll (← state.calleePairs)

end Propagation

end FunctionFlow
