import FunctionFlow.Analysis.Propagation
import FunctionFlow.Proofs.Analysis.Solution

/-!
Contract: the invariant of forward propagation.

A turn takes the waiting values of a vertex before it hands them on, and handing on may add edges,
also at the vertex whose turn it is. So between the operations of a turn some facts are owed: they
are the parameter of the invariant, and every operation says which debts it pays.
-/

namespace FunctionFlow

variable {vertex : VertexId} {values : List VertexId}

/-- A vertex can be reached from another one along the edges of the graph. -/
def FlowGraph.Path (graph : FlowGraph) : VertexId → VertexId → Prop :=
  Relation.ReflTransGen fun source target => (source, target) ∈ graph.edges

theorem FlowGraph.Path.mono {graph larger : FlowGraph}
    (edges : ∀ edge ∈ graph.edges, edge ∈ larger.edges) {source target : VertexId}
    (path : graph.Path source target) : larger.Path source target :=
  Relation.ReflTransGen.mono (fun _ _ edge => edges _ edge) _ _ path

namespace Propagation

/-- What holds of a propagation over `origin` between any two of its operations, apart from facts
that are owed along edges and pairs that are still to be linked. -/
structure Consistent (program : Program) (origin : FlowGraph)
    (owed : VertexId → VertexId → VertexId → Prop) (unlinked : CallId → VertexId → Prop)
    (state : Propagation) : Prop where
  wellFormed : state.graph.WellFormed
  vertices : state.graph.vertices = origin.vertices
  factRows : state.facts.rows.size = origin.size
  pendingRows : state.pending.size = origin.size
  queuedRows : state.queued.size = origin.size
  distinct : state.worklist.Nodup
  queue : ∀ {vertex}, vertex ∈ state.worklist ↔ state.queued[vertex]? = some true
  waitingKnown : ∀ {vertex value}, value ∈ state.waiting vertex → state.facts.holds vertex value
  waitingQueued : ∀ {vertex value}, value ∈ state.waiting vertex → vertex ∈ state.worklist
  /-- A value passes every edge out of a vertex, unless it waits there or is owed. -/
  delivered : ∀ {source target value}, (source, target) ∈ state.graph.edges →
    state.facts.holds source value →
    value ∈ state.waiting source ∨ state.facts.holds target value ∨ owed source target value
  isValue : ∀ {vertex value}, state.facts.holds vertex value →
    ∃ found, origin.At value found ∧ found.isValue
  path : ∀ {vertex value}, state.facts.holds vertex value → state.graph.Path value vertex
  /-- The edges are those the propagation began with and those of the linked pairs. -/
  edges : ∀ {edge}, edge ∈ state.graph.edges ↔ edge ∈ origin.edges ∨
    ∃ call target, (call, target) ∈ state.linked ∧ origin.LinkEdge program call target edge
  /-- A pair is linked only if its value flows to the callee, in the state and in the graph that
  the propagation began with. -/
  linkedReached : ∀ {call target}, (call, target) ∈ state.linked →
    ∃ callee found, origin.At callee (.callee call) ∧ state.facts.holds callee target ∧
      origin.At target found ∧ Reaches program origin found (.callee call)
  calleeLinked : ∀ {callee call target}, origin.At callee (.callee call) →
    state.facts.holds callee target → (call, target) ∈ state.linked ∨ unlinked call target

abbrev noDebt : VertexId → VertexId → VertexId → Prop := fun _ _ _ => False

abbrev allLinked : CallId → VertexId → Prop := fun _ _ => False

/-- A later state keeps the vertices, facts, edges and linked pairs of an earlier one. -/
structure Extends (before after : Propagation) : Prop where
  vertices : after.graph.vertices = before.graph.vertices
  facts : ∀ {vertex value}, before.facts.holds vertex value → after.facts.holds vertex value
  edges : ∀ {edge}, edge ∈ before.graph.edges → edge ∈ after.graph.edges
  linked : ∀ {pair}, pair ∈ before.linked → pair ∈ after.linked

theorem Extends.refl (state : Propagation) : Extends state state := ⟨rfl, id, id, id⟩

theorem Extends.trans {first second third : Propagation} (left : Extends first second)
    (right : Extends second third) : Extends first third :=
  ⟨right.vertices.trans left.vertices, right.facts ∘ left.facts, right.edges ∘ left.edges,
    right.linked ∘ left.linked⟩

variable {program : Program} {origin : FlowGraph}
  {owed remaining : VertexId → VertexId → VertexId → Prop} {unlinked : CallId → VertexId → Prop}
  {state after : Propagation}

/-! ### The queue -/

theorem exists_send (inPending : vertex < state.pending.size)
    (inQueued : vertex < state.queued.size) (values : List VertexId) :
    ∃ after, state.send vertex values = .ok after := by
  obtain ⟨waiting, _, found⟩ := fetch_of_lt inPending (.vertex vertex)
  obtain ⟨isQueued, _, queue⟩ := fetch_of_lt inQueued (.vertex vertex)
  cases isQueued with
  | true | false =>
    exact ⟨_, Checked.bind_eq_ok.mpr ⟨waiting, found, Checked.bind_eq_ok.mpr ⟨_, queue, rfl⟩⟩⟩

theorem Sent.queue_kept (sent : Sent vertex values state after) (distinct : state.worklist.Nodup)
    (queue : ∀ {other}, other ∈ state.worklist ↔ state.queued[other]? = some true) :
    after.queued.size = state.queued.size ∧ after.worklist.Nodup ∧
      (∀ {other}, other ∈ after.worklist ↔ after.queued[other]? = some true) ∧
      ∀ {other}, other ∈ after.worklist ↔ other ∈ state.worklist ∨ other = vertex := by
  rcases sent.queue with ⟨busy, sameQueued, sameWorklist⟩ | ⟨idle, nowQueued, nowWorklist⟩
  · rw [sameQueued, sameWorklist]
    refine ⟨rfl, distinct, queue, fun {other} => ⟨.inl, ?_⟩⟩
    rintro (old | rfl)
    · exact old
    · exact queue.mpr busy
  · have below : vertex < state.queued.size := Table.below idle
    have absent : vertex ∉ state.worklist := by
      rw [queue, idle]
      simp
    rw [nowQueued, nowWorklist]
    refine ⟨by simp, ?_, fun {other} => ?_, by simp⟩
    · rw [List.nodup_append]
      exact ⟨distinct, by simp, fun other member _ last same =>
        absent (List.mem_singleton.mp last ▸ same ▸ member)⟩
    · by_cases same : other = vertex
      · subst same
        simp [below]
      · have apart : vertex ≠ other := fun equal => same equal.symm
        simp [same, apart, queue]

/-- Two states that know the same: they have the same graph, facts and linked pairs, also if one
has more room for facts. -/
structure SameKnowledge (before after : Propagation) : Prop where
  graph : after.graph = before.graph
  rows : ∀ vertex, after.facts.row vertex = before.facts.row vertex
  linked : after.linked = before.linked

theorem SameKnowledge.trans {first second third : Propagation} (left : SameKnowledge first second)
    (right : SameKnowledge second third) : SameKnowledge first third :=
  ⟨right.graph.trans left.graph, fun vertex => (right.rows vertex).trans (left.rows vertex),
    right.linked.trans left.linked⟩

theorem SameKnowledge.holds_iff {before after : Propagation} (same : SameKnowledge before after)
    {value : VertexId} : after.facts.holds vertex value ↔ before.facts.holds vertex value := by
  rw [FactTable.holds, same.rows, FactTable.holds]

theorem SameKnowledge.ensure (state : Propagation) (vertex : VertexId) :
    SameKnowledge state (state.ensure vertex) := by
  refine ⟨graph_ensure state vertex, row_ensure state vertex, ?_⟩
  by_cases below : vertex < state.facts.rows.size
  · rw [Propagation.ensure, if_pos below]
  · rw [Propagation.ensure, if_neg below]

theorem Sent.sameKnowledge (sent : Sent vertex values state after) : SameKnowledge state after :=
  ⟨sent.graph, fun _ => by rw [sent.facts], sent.linked⟩

theorem resend_sameKnowledge (resent : state.resend vertex = .ok after) :
    SameKnowledge state after := by
  obtain ⟨values, _, sent⟩ := Checked.bind_eq_ok.mp resent
  exact (SameKnowledge.ensure state vertex).trans (sent_of_send sent).sameKnowledge

theorem resends_sameKnowledge {sources : List VertexId}
    (resent : sources.foldlM resend state = .ok after) : SameKnowledge state after := by
  induction sources generalizing state with
  | nil =>
    cases resent
    exact ⟨rfl, fun _ => rfl, rfl⟩
  | cons first rest inductionHypothesis =>
    rw [List.foldlM_cons] at resent
    obtain ⟨middle, resentFirst, resent⟩ := Checked.bind_eq_ok.mp resent
    exact (resend_sameKnowledge resentFirst).trans (inductionHypothesis resent)

/-! ### Debts -/

section

variable (consistent : state.Consistent program origin owed unlinked)
include consistent

theorem Consistent.settle (paid : ∀ source target value, owed source target value →
      remaining source target value ∨ state.facts.holds target value) :
    state.Consistent program origin remaining unlinked :=
  { consistent with
    delivered := by
      intro source target value edge known
      rcases consistent.delivered edge known with waits | arrived | owing
      · exact .inl waits
      · exact .inr (.inl arrived)
      · exact .inr ((paid source target value owing).symm) }

theorem Consistent.ensure_eq (below : vertex < origin.size) : state.ensure vertex = state := by
  rw [ensure, if_pos (consistent.factRows ▸ below)]

/-- A debt along an edge is paid for once its source has put the value up for passing on. -/
theorem Consistent.sent (sent : Sent vertex values state after)
    (known : ∀ value ∈ values, state.facts.holds vertex value)
    (paid : ∀ source target value, state.facts.holds source value → owed source target value →
      remaining source target value ∨ (source = vertex ∧ value ∈ values)) :
    after.Consistent program origin remaining unlinked := by
  obtain ⟨queuedSize, distinct, queue, mem_worklist⟩ :=
    sent.queue_kept consistent.distinct consistent.queue
  constructor
  case wellFormed => exact sent.graph ▸ consistent.wellFormed
  case vertices => exact sent.graph ▸ consistent.vertices
  case factRows => exact sent.facts ▸ consistent.factRows
  case pendingRows =>
    rw [sent.pending, Array.size_setIfInBounds]
    exact consistent.pendingRows
  case queuedRows => exact queuedSize.trans consistent.queuedRows
  case distinct => exact distinct
  case queue => exact queue
  case waitingKnown =>
    intro other value waits
    rw [sent.facts]
    rcases sent.mem_waiting.mp waits with ⟨rfl, new⟩ | old
    · exact known value new
    · exact consistent.waitingKnown old
  case waitingQueued =>
    intro other value waits
    rw [mem_worklist]
    rcases sent.mem_waiting.mp waits with ⟨rfl, _⟩ | old
    · exact .inr rfl
    · exact .inl (consistent.waitingQueued old)
  case delivered =>
    rw [sent.graph, sent.facts]
    intro source target value edge knownHere
    rw [sent.mem_waiting]
    rcases consistent.delivered edge knownHere with waits | arrived | owing
    · exact .inl (.inr waits)
    · exact .inr (.inl arrived)
    · rcases paid source target value knownHere owing with still | isSent
      · exact .inr (.inr still)
      · exact .inl (.inl isSent)
  case isValue => exact sent.facts ▸ consistent.isValue
  case path => exact sent.facts ▸ sent.graph ▸ consistent.path
  case edges => exact sent.graph ▸ sent.linked ▸ consistent.edges
  case linkedReached => exact sent.facts ▸ sent.linked ▸ consistent.linkedReached
  case calleeLinked => exact sent.facts ▸ sent.linked ▸ consistent.calleeLinked

theorem Consistent.exists_sent (below : vertex < origin.size) (values : List VertexId) :
    ∃ after, state.send vertex values = .ok after ∧ Sent vertex values state after := by
  obtain ⟨after, sent⟩ :=
    exists_send (consistent.pendingRows ▸ below) (consistent.queuedRows ▸ below) values
  exact ⟨after, sent, sent_of_send sent⟩

theorem Consistent.resend (below : vertex < origin.size)
    (paid : ∀ source target value, owed source target value →
      remaining source target value ∨ source = vertex) :
    ∃ after, state.resend vertex = .ok after ∧
      after.Consistent program origin remaining unlinked := by
  have known := FactTable.get_eq_ok (consistent.factRows ▸ below)
  obtain ⟨after, sends, sent⟩ := consistent.exists_sent below (state.facts.row vertex)
  refine ⟨after, ?_, consistent.sent sent (fun _ member => FactTable.mem_row.mp member) ?_⟩
  · rw [Propagation.resend, consistent.ensure_eq below]
    exact Checked.bind_eq_ok.mpr ⟨_, known, sends⟩
  · intro source target value known owing
    exact (paid source target value owing).imp_right fun same =>
      ⟨same, FactTable.mem_row.mpr (same ▸ known)⟩

theorem Consistent.resends {sources : List VertexId} (below : ∀ source ∈ sources, source < origin.size)
    (paid : ∀ source target value, owed source target value →
      remaining source target value ∨ source ∈ sources) :
    ∃ after, sources.foldlM Propagation.resend state = .ok after ∧
      after.Consistent program origin remaining unlinked := by
  induction sources generalizing state owed with
  | nil =>
    exact ⟨state, rfl, consistent.settle fun source target value owing =>
      .inl ((paid source target value owing).resolve_right List.not_mem_nil)⟩
  | cons first rest inductionHypothesis =>
    obtain ⟨middle, resent, afterFirst⟩ : ∃ middle, state.resend first = .ok middle ∧
        middle.Consistent program origin
          (fun source target value => remaining source target value ∨ source ∈ rest) unlinked := by
      refine consistent.resend (below first List.mem_cons_self) fun source target value owing => ?_
      rcases paid source target value owing with still | member
      · exact .inl (.inl still)
      · exact (List.mem_cons.mp member).symm.imp_left .inr
    obtain ⟨after, resentRest, afterConsistent⟩ := inductionHypothesis afterFirst
      (fun source member => below source (List.mem_cons_of_mem _ member)) fun _ _ _ => id
    refine ⟨after, ?_, afterConsistent⟩
    rw [List.foldlM_cons, resent]
    exact resentRest

end

/-! ### Linking -/

theorem Consistent.at_iff (consistent : state.Consistent program origin owed unlinked)
    {id : VertexId} {vertex : Vertex} : state.graph.At id vertex ↔ origin.At id vertex := by
  rw [FlowGraph.At, consistent.vertices]

theorem Consistent.linked_of_holds (consistent : state.Consistent program origin owed allLinked)
    {callee target : VertexId} {call : CallId} (atCallee : origin.At callee (.callee call))
    (known : state.facts.holds callee target) : (call, target) ∈ state.linked :=
  (consistent.calleeLinked atCallee known).resolve_right id

section

variable (consistent : state.Consistent program origin owed unlinked)
include consistent

theorem Consistent.size_eq :
    state.graph.size = origin.size :=
  congrArg Array.size consistent.vertices

/-- The edges of a consistent state carry derived flow of the graph that the propagation began
with, as they are edges of that graph or belong to linked pairs. -/
theorem Consistent.reaches_edge {sourceId targetId : VertexId}
    (edge : (sourceId, targetId) ∈ state.graph.edges) {value source target : Vertex}
    (atSource : origin.At sourceId source)
    (atTarget : origin.At targetId target) (reached : Reaches program origin value source) :
    Reaches program origin value target := by
  rcases consistent.edges.mp edge with old | ⟨call, function, linked, id, site, slot, sink,
    atFunction, isCall, tied, atSlot, atSink⟩
  · exact .arrow reached ⟨sourceId, targetId, atSource, atTarget, old⟩
  · obtain ⟨callee, found, atCallee, _, atFound, called⟩ := consistent.linkedReached linked
    cases atFunction.vertex_unique atFound
    cases atSlot.vertex_unique atSource
    cases atSink.vertex_unique atTarget
    exact .link atCallee.mem isCall called tied reached

theorem Consistent.reaches {id value : VertexId} {vertex found : Vertex}
    (known : state.facts.holds id value) (atVertex : origin.At id vertex) (atValue : origin.At value found) :
    Reaches program origin found vertex := by
  have path := consistent.path known
  obtain ⟨found', atValue', isValue⟩ := consistent.isValue known
  cases atValue.vertex_unique atValue'
  -- the value is derived at its own vertex, and every edge of the path carries it on
  clear known
  induction path generalizing vertex with
  | refl =>
    cases atValue.vertex_unique atVertex
    exact .value atValue.mem isValue
  | tail _ edge inductionHypothesis =>
    obtain ⟨previous, _, atPrevious, _⟩ := consistent.wellFormed.ends_of_edge edge
    rw [consistent.at_iff] at atPrevious
    exact consistent.reaches_edge edge atPrevious atVertex (inductionHypothesis atPrevious)

end

theorem Consistent.link {call : CallId} {target callee : VertexId} {rest : List VertexId}
    (consistent : state.Consistent program origin owed
      fun other value => other = call ∧ value ∈ target :: rest)
    (isCall : call < program.calls.size) (atCallee : origin.At callee (.callee call))
    (known : state.facts.holds callee target) :
    ∃ sources graph after, state.graph.link program call target = .ok (sources, graph) ∧
      sources.foldlM Propagation.resend
        { state with graph, linked := (call, target) :: state.linked } = .ok after ∧
      after.Consistent program origin owed (fun other value => other = call ∧ value ∈ rest) ∧
      Extends state after := by
  obtain ⟨found, atTarget, _⟩ := consistent.isValue known
  have below : target < state.graph.size := consistent.size_eq ▸ atTarget.below
  obtain ⟨sources, graph, linked, tied⟩ := FlowGraph.link_tied consistent.wellFormed isCall below
  have kept {edge : VertexId × VertexId} (old : edge ∈ state.graph.edges) : edge ∈ graph.edges :=
    tied.mem_edges.mpr (.inl old)
  -- right after linking, everything is owed along the edges out of the new sources
  have afterLink : Consistent program origin
      (fun source sink value => owed source sink value ∨ source ∈ sources)
      (fun other value => other = call ∧ value ∈ rest)
      { state with graph, linked := (call, target) :: state.linked } :=
    { consistent with
      wellFormed := tied.wellFormed
      vertices := tied.vertices.trans consistent.vertices
      delivered := by
        intro source sink value edge knownHere
        rcases tied.source_of_new edge with old | new
        · rcases consistent.delivered old knownHere with waits | arrived | owing
          · exact .inl waits
          · exact .inr (.inl arrived)
          · exact .inr (.inr (.inl owing))
        · exact .inr (.inr (.inr new))
      path := fun knownHere => (consistent.path knownHere).mono fun _ => kept
      edges := by
        intro edge
        rw [tied.mem_edges, consistent.edges, FlowGraph.linkEdge_congr consistent.vertices,
          FlowGraph.linkEdge_cons, or_assoc]
        exact or_congr_right or_comm
      linkedReached := by
        intro other value member
        rcases List.mem_cons.mp member with same | old
        · cases same
          exact ⟨callee, found, atCallee, known, atTarget,
            consistent.reaches known atCallee atTarget⟩
        · exact consistent.linkedReached old
      calleeLinked := by
        intro other otherCall value atOther knownHere
        rcases consistent.calleeLinked atOther knownHere with old | ⟨rfl, member⟩
        · exact .inl (List.mem_cons_of_mem _ old)
        · rcases List.mem_cons.mp member with rfl | later
          · exact .inl List.mem_cons_self
          · exact .inr ⟨rfl, later⟩ }
  obtain ⟨after, resent, afterConsistent⟩ := afterLink.resends
    (fun source member => consistent.size_eq ▸ tied.sources_below source member) fun _ _ _ => id
  have same := resends_sameKnowledge resent
  refine ⟨sources, graph, after, linked, resent, afterConsistent, ?_, ?_, ?_, ?_⟩
  · rw [same.graph]
    exact tied.vertices
  · exact same.holds_iff.mpr
  · rw [same.graph]
    exact kept
  · rw [same.linked]
    exact List.mem_cons_of_mem _

theorem linkAll_consistent {call : CallId} {callee : VertexId} {targets : List VertexId}
    (consistent : state.Consistent program origin owed
      fun other value => other = call ∧ value ∈ targets)
    (isCall : call < program.calls.size) (atCallee : origin.At callee (.callee call))
    (known : ∀ target ∈ targets, state.facts.holds callee target) :
    ∃ after, linkAll program call state targets = .ok after ∧
      after.Consistent program origin owed allLinked ∧ Extends state after := by
  induction targets generalizing state with
  | nil =>
    refine ⟨state, rfl, { consistent with calleeLinked := ?_ }, .refl state⟩
    intro other otherCall value atOther knownHere
    exact (consistent.calleeLinked atOther knownHere).imp_right fun left => nomatch left.2
  | cons target rest inductionHypothesis =>
    have knownRest : ∀ value ∈ rest, state.facts.holds callee value := fun value member =>
      known value (List.mem_cons_of_mem _ member)
    unfold linkAll
    split
    · rename_i already
      have skipped : state.Consistent program origin owed
          fun other value => other = call ∧ value ∈ rest :=
        { consistent with
          calleeLinked := by
            intro other otherCall value atOther knownHere
            rcases consistent.calleeLinked atOther knownHere with old | ⟨rfl, member⟩
            · exact .inl old
            · rcases List.mem_cons.mp member with rfl | later
              · exact .inl (List.contains_iff_mem.mp already)
              · exact .inr ⟨rfl, later⟩ }
      exact inductionHypothesis skipped knownRest
    · obtain ⟨sources, graph, middle, linked, resent, nowConsistent, extends₁⟩ :=
        consistent.link isCall atCallee (known target List.mem_cons_self)
      obtain ⟨after, linkedRest, afterConsistent, extends₂⟩ :=
        inductionHypothesis nowConsistent fun value member =>
          extends₁.facts (knownRest value member)
      refine ⟨after, ?_, afterConsistent, extends₁.trans extends₂⟩
      exact Checked.bind_eq_ok.mpr
        ⟨(sources, graph), linked, Checked.bind_eq_ok.mpr ⟨middle, resent, linkedRest⟩⟩

/-! ### Taking up facts -/

/-- The facts that a vertex may take up: values that have a path to it. -/
structure Admits (origin : FlowGraph) (state : Propagation) (vertex value : VertexId) : Prop where
  isValue : ∃ found, origin.At value found ∧ found.isValue
  path : state.graph.Path value vertex

/-- Right after facts were taken up at a vertex, they are owed along its edges, and at a callee
they are still to be linked. -/
theorem Consistent.insertAll (consistent : state.Consistent program origin owed allLinked)
    (admitted : ∀ value ∈ values, Admits origin state vertex value) {fresh : List VertexId}
    {facts : FactTable} (inserted : state.facts.insertAll vertex values = .ok (fresh, facts)) :
    Consistent program origin
      (fun source target value => owed source target value ∨ (source = vertex ∧ value ∈ fresh))
      (fun call value => origin.At vertex (.callee call) ∧ value ∈ fresh)
      { state with facts } := by
  have holdsIff := FactTable.holds_insertAll inserted
  have kept {other value : VertexId} (old : state.facts.holds other value) :
      facts.holds other value :=
    (holdsIff other value).mpr (.inr old)
  -- a fact is an old one or a fresh one
  have origins {other value : VertexId} (known : facts.holds other value) :
      state.facts.holds other value ∨ (other = vertex ∧ value ∈ values ∧ value ∈ fresh) := by
    rcases (holdsIff other value).mp known with ⟨rfl, member⟩ | old
    · by_cases old : state.facts.holds other value
      · exact .inl old
      · exact .inr ⟨rfl, member, (FactTable.mem_fresh inserted).mpr ⟨member, by simpa using old⟩⟩
    · exact .inl old
  exact
    { consistent with
      factRows := (FactTable.rows_size_insertAll inserted).trans consistent.factRows
      waitingKnown := fun waits => kept (consistent.waitingKnown waits)
      delivered := by
        intro source target value edge known
        rcases origins known with old | ⟨here, _, fresh⟩
        · rcases consistent.delivered edge old with waits | arrived | owing
          · exact .inl waits
          · exact .inr (.inl (kept arrived))
          · exact .inr (.inr (.inl owing))
        · exact .inr (.inr (.inr ⟨here, fresh⟩))
      isValue := by
        intro other value known
        rcases origins known with old | ⟨_, member, _⟩
        · exact consistent.isValue old
        · exact (admitted value member).isValue
      path := by
        intro other value known
        rcases origins known with old | ⟨rfl, member, _⟩
        · exact consistent.path old
        · exact (admitted value member).path
      linkedReached := by
        intro call target linked
        obtain ⟨callee, found, atCallee, known, atTarget, reached⟩ :=
          consistent.linkedReached linked
        exact ⟨callee, found, atCallee, kept known, atTarget, reached⟩
      calleeLinked := by
        intro callee call target atCallee known
        rcases origins known with old | ⟨rfl, _, fresh⟩
        · exact .inl (consistent.linked_of_holds atCallee old)
        · exact .inr ⟨atCallee, fresh⟩ }

theorem linkAt_consistent (namesCalls : origin.NamesCalls program) {targets : List VertexId}
    (consistent : state.Consistent program origin owed
      fun call value => origin.At vertex (.callee call) ∧ value ∈ targets)
    (below : vertex < origin.size) (known : ∀ target ∈ targets, state.facts.holds vertex target) :
    ∃ after, state.linkAt program vertex targets = .ok after ∧
      after.Consistent program origin owed allLinked ∧ Extends state after := by
  obtain ⟨found, atVertex⟩ := origin.exists_at_of_below below
  unfold linkAt
  rw [FlowGraph.get_eq_ok.mpr (consistent.at_iff.mpr atVertex), Checked.ok_bind]
  split
  · rename_i call
    have toLink : state.Consistent program origin owed
        fun other value => other = call ∧ value ∈ targets :=
      { consistent with
        calleeLinked := by
          intro callee other value atCallee knownHere
          refine (consistent.calleeLinked atCallee knownHere).imp_right fun ⟨atOther, member⟩ => ?_
          cases atVertex.vertex_unique atOther
          exact ⟨rfl, member⟩ }
    exact linkAll_consistent toLink (namesCalls call atVertex.mem) atVertex known
  · rename_i notCallee
    refine ⟨state, rfl, { consistent with calleeLinked := ?_ }, .refl state⟩
    intro callee call value atCallee knownHere
    refine (consistent.calleeLinked atCallee knownHere).imp_right fun ⟨atCall, _⟩ => ?_
    exact notCallee call (atVertex.vertex_unique atCall)

theorem addFacts_consistent (namesCalls : origin.NamesCalls program)
    (consistent : state.Consistent program origin owed allLinked) (below : vertex < origin.size)
    (admitted : ∀ value ∈ values, Admits origin state vertex value) :
    ∃ after, state.addFacts program vertex values = .ok after ∧
      after.Consistent program origin owed allLinked ∧ Extends state after ∧
      ∀ value ∈ values, after.facts.holds vertex value := by
  obtain ⟨fresh, facts, inserted⟩ : ∃ fresh facts,
      state.facts.insertAll vertex values = .ok (fresh, facts) :=
    ⟨_, _, FactTable.insertAll_eq_ok.mpr ⟨consistent.factRows ▸ below, rfl, rfl⟩⟩
  have holdsIff := FactTable.holds_insertAll inserted
  have takenUp := consistent.insertAll admitted inserted
  simp only [addFacts_eq_ok, consistent.ensure_eq below, inserted]
  by_cases someFresh : fresh = []
  · refine ⟨state, ⟨fresh, facts, rfl, .inl ⟨someFresh, rfl⟩⟩, consistent, .refl state, ?_⟩
    intro value member
    by_contra unknown
    have isFresh := (FactTable.mem_fresh inserted).mpr ⟨member, by simpa using unknown⟩
    rw [someFresh] at isFresh
    cases isFresh
  · obtain ⟨middle, sends, sent⟩ := takenUp.exists_sent below fresh
    have arrived : ∀ value ∈ values, middle.facts.holds vertex value := fun value member =>
      sent.facts ▸ (holdsIff vertex value).mpr (.inl ⟨rfl, member⟩)
    have fromValues : ∀ value ∈ fresh, value ∈ values := fun value member =>
      ((FactTable.mem_fresh inserted).mp member).1
    have middleConsistent := takenUp.sent sent
      (fun value member => sent.facts ▸ arrived value (fromValues value member))
      fun _ _ _ _ owing => owing
    have extended : Extends state middle :=
      ⟨congrArg FlowGraph.vertices sent.graph,
        fun {other value} old => sent.facts ▸ (holdsIff other value).mpr (.inr old),
        fun old => sent.graph ▸ old, fun old => sent.linked ▸ old⟩
    obtain ⟨after, linked, afterConsistent, further⟩ :=
      linkAt_consistent namesCalls middleConsistent below
        fun value member => arrived value (fromValues value member)
    exact ⟨after, ⟨fresh, facts, rfl, .inr ⟨someFresh, middle, sends, linked⟩⟩, afterConsistent,
      extended.trans further, fun value member => further.facts (arrived value member)⟩

/-! ### Turns -/

theorem passOn_consistent (namesCalls : origin.NamesCalls program) {targets : List VertexId}
    (consistent : state.Consistent program origin
      (fun source target value => source = vertex ∧ target ∈ targets ∧ value ∈ values) allLinked)
    (known : ∀ value ∈ values, state.facts.holds vertex value)
    (edges : ∀ target ∈ targets, (vertex, target) ∈ state.graph.edges) :
    ∃ after, passOn program values state targets = .ok after ∧
      after.Consistent program origin noDebt allLinked ∧ Extends state after := by
  induction targets generalizing state with
  | nil =>
    refine ⟨state, rfl, consistent.settle ?_, .refl state⟩
    rintro source target value ⟨_, member, _⟩
    cases member
  | cons target rest inductionHypothesis =>
    have edge := edges target List.mem_cons_self
    have below : target < origin.size :=
      consistent.size_eq ▸ (consistent.wellFormed.edgesInside _ edge).2
    have admitted : ∀ value ∈ values, Admits origin state target value := fun value member =>
      ⟨consistent.isValue (known value member), (consistent.path (known value member)).tail edge⟩
    obtain ⟨middle, added, middleConsistent, extended, arrived⟩ :=
      addFacts_consistent namesCalls consistent below admitted
    have paid : middle.Consistent program origin
        (fun source target value => source = vertex ∧ target ∈ rest ∧ value ∈ values)
        allLinked := by
      refine middleConsistent.settle ?_
      rintro source sink value ⟨rfl, member, valueMember⟩
      rcases List.mem_cons.mp member with rfl | later
      · exact .inr (arrived value valueMember)
      · exact .inl ⟨rfl, later, valueMember⟩
    obtain ⟨after, passed, afterConsistent, further⟩ :=
      inductionHypothesis paid (fun value member => extended.facts (known value member))
        fun other member => extended.edges (edges other (List.mem_cons_of_mem _ member))
    refine ⟨after, ?_, afterConsistent, extended.trans further⟩
    rw [passOn, added]
    exact passed

theorem Consistent.dequeue (consistent : state.Consistent program origin noDebt allLinked)
    {rest : List VertexId} (turn : state.worklist = vertex :: rest) :
    (state.dequeue vertex rest).Consistent program origin
      (fun source target value => source = vertex ∧ (source, target) ∈ state.graph.edges ∧
        value ∈ state.waiting vertex) allLinked := by
  obtain ⟨notInRest, restDistinct⟩ := List.nodup_cons.mp (turn ▸ consistent.distinct)
  have below : vertex < state.queued.size := by
    have busy := consistent.queue.mp (turn ▸ List.mem_cons_self)
    exact Table.below busy
  have pendingBelow : vertex < state.pending.size := by
    rw [consistent.pendingRows, ← consistent.queuedRows]
    exact below
  have mem_waiting {other value : VertexId} :
      value ∈ (state.dequeue vertex rest).waiting other ↔
        other ≠ vertex ∧ value ∈ state.waiting other := by
    unfold waiting Propagation.dequeue
    by_cases same : other = vertex
    · subst same
      simp [pendingBelow]
    · have apart : vertex ≠ other := fun equal => same equal.symm
      simp [same, apart]
  exact
    { consistent with
      pendingRows := (Array.size_setIfInBounds).trans consistent.pendingRows
      queuedRows := (Array.size_setIfInBounds).trans consistent.queuedRows
      distinct := restDistinct
      queue := by
        intro other
        have before := @Consistent.queue _ _ _ _ _ consistent other
        rw [turn, List.mem_cons] at before
        unfold Propagation.dequeue
        by_cases same : other = vertex
        · subst same
          simp [below, notInRest]
        · have apart : vertex ≠ other := fun equal => same equal.symm
          simp only [same, false_or] at before
          simp [apart, before]
      waitingKnown := fun waits => consistent.waitingKnown (mem_waiting.mp waits).2
      waitingQueued := by
        intro other value waits
        obtain ⟨apart, waited⟩ := mem_waiting.mp waits
        have member := consistent.waitingQueued waited
        rw [turn] at member
        exact (List.mem_cons.mp member).resolve_left apart
      delivered := by
        intro source target value edge known
        rcases consistent.delivered edge known with waits | arrived | owing
        · by_cases same : source = vertex
          · exact .inr (.inr ⟨same, edge, same ▸ waits⟩)
          · exact .inl (mem_waiting.mpr ⟨same, waits⟩)
        · exact .inr (.inl arrived)
        · exact owing.elim }

theorem step_eq_none : state.step program = .ok none ↔ state.worklist = [] := by
  unfold step
  split
  · rename_i nothing
    exact ⟨fun _ => nothing, fun _ => rfl⟩
  · rename_i vertex rest queue
    rw [queue]
    constructor
    · intro done
      obtain ⟨_, _, done⟩ := Checked.bind_eq_ok.mp done
      obtain ⟨waiting, _, done⟩ := Checked.bind_eq_ok.mp done
      cases waiting with
      | nil => cases done
      | cons value others =>
        obtain ⟨successors, _, done⟩ := Checked.bind_eq_ok.mp done
        obtain ⟨later, _, done⟩ := Checked.bind_eq_ok.mp done
        cases done
    · intro impossible
      cases impossible

theorem step_consistent (namesCalls : origin.NamesCalls program)
    (consistent : state.Consistent program origin noDebt allLinked) :
    (state.worklist = [] ∧ state.step program = .ok none) ∨
      ∃ after, state.step program = .ok (some after) ∧
        after.Consistent program origin noDebt allLinked ∧ Extends state after := by
  cases turn : state.worklist with
  | nil => exact .inl ⟨rfl, step_eq_none.mpr turn⟩
  | cons vertex rest =>
    have inQueued := Table.below (consistent.queue.mp (turn ▸ List.mem_cons_self))
    have below : vertex < origin.size := consistent.queuedRows ▸ inQueued
    have dequeued := consistent.dequeue turn
    have begun : Extends state (state.dequeue vertex rest) := ⟨rfl, id, id, id⟩
    have stepped {after : Propagation} (acts) : state.step program = .ok (some after) :=
      step_eq_some.mpr ⟨vertex, rest, turn, inQueued, consistent.pendingRows ▸ below, acts⟩
    by_cases nothing : state.waiting vertex = []
    · refine .inr ⟨_, stepped (.inl ⟨nothing, rfl⟩), dequeued.settle ?_, begun⟩
      rintro source target value ⟨_, _, waits⟩
      rw [nothing] at waits
      cases waits
    · have owing : (state.dequeue vertex rest).Consistent program origin
          (fun source target value => source = vertex ∧
            target ∈ FlowGraph.targetsIn state.graph.edges.toList vertex ∧
            value ∈ state.waiting vertex) allLinked := by
        refine dequeued.settle ?_
        rintro source target value ⟨rfl, edge, waits⟩
        exact .inl ⟨rfl, FlowGraph.mem_targetsIn.mpr (by simpa using edge), waits⟩
      obtain ⟨after, passed, afterConsistent, extended⟩ :=
        passOn_consistent namesCalls owing (fun value waits => consistent.waitingKnown waits)
          fun target member => Array.mem_toList_iff.mp (FlowGraph.mem_targetsIn.mp member)
      have successors :=
        consistent.wellFormed.successors_eq (consistent.size_eq ▸ below : vertex < state.graph.size)
      exact .inr ⟨after, stepped (.inr ⟨nothing, _, successors, passed⟩), afterConsistent,
        begun.trans extended⟩

theorem run_consistent (namesCalls : origin.NamesCalls program)
    (consistent : state.Consistent program origin noDebt allLinked) :
    ∃ final, state.run program = .ok final ∧ final.worklist = [] ∧
      final.Consistent program origin noDebt allLinked ∧ Extends state final := by
  fun_induction run program state with
  | case1 state failure failed =>
    rcases step_consistent namesCalls consistent with ⟨_, done⟩ | ⟨_, stepped, _⟩
    · exact nomatch failed.symm.trans done
    · exact nomatch failed.symm.trans stepped
  | case2 state done =>
    refine ⟨state, rfl, ?_, consistent, .refl state⟩
    rcases step_consistent namesCalls consistent with ⟨nothing, _⟩ | ⟨_, stepped, _⟩
    · exact nothing
    · exact nomatch done.symm.trans stepped
  | case3 state later stepped inductionHypothesis =>
    rcases step_consistent namesCalls consistent with ⟨_, done⟩ | ⟨after, stepped', afterConsistent,
      extended⟩
    · exact nomatch stepped.symm.trans done
    · cases stepped.symm.trans stepped'
      obtain ⟨final, ran, nothing, finalConsistent, further⟩ := inductionHypothesis afterConsistent
      exact ⟨final, ran, nothing, finalConsistent, extended.trans further⟩

/-! ### The first state -/

theorem blank_consistent (wellFormed : origin.WellFormed) :
    (blank origin).Consistent program origin noDebt allLinked := by
  have knowsNothing {vertex value : VertexId} : ¬ (blank origin).facts.holds vertex value := by
    simp [blank, FactTable.holds, FactTable.row, FactTable.unknown, Array.getElem?_replicate]
    split <;> simp
  have nothingWaits {vertex value : VertexId} : value ∉ (blank origin).waiting vertex := by
    simp [blank, waiting, Array.getElem?_replicate]
    split <;> simp
  exact
    { wellFormed := wellFormed
      vertices := rfl
      factRows := by simp [blank, FactTable.unknown]
      pendingRows := by simp [blank]
      queuedRows := by simp [blank]
      distinct := .nil
      queue := by simp [blank, Array.getElem?_replicate]
      waitingKnown := fun waits => absurd waits nothingWaits
      waitingQueued := fun waits => absurd waits nothingWaits
      delivered := fun _ known => absurd known knowsNothing
      isValue := fun known => absurd known knowsNothing
      path := fun known => absurd known knowsNothing
      edges := by simp [blank]
      linkedReached := by simp [blank]
      calleeLinked := fun _ known => absurd known knowsNothing }

theorem seed_consistent (namesCalls : origin.NamesCalls program)
    (consistent : state.Consistent program origin noDebt allLinked)
    (areValues : ∀ value ∈ values, ∃ found, origin.At value found ∧ found.isValue) :
    ∃ after, seed program state values = .ok after ∧
      after.Consistent program origin noDebt allLinked ∧ Extends state after ∧
      ∀ value ∈ values, after.facts.holds value value := by
  induction values generalizing state with
  | nil => exact ⟨state, rfl, consistent, .refl state, by simp⟩
  | cons value rest inductionHypothesis =>
    obtain ⟨found, atValue, isValue⟩ := areValues value List.mem_cons_self
    have admitted : ∀ other ∈ [value], Admits origin state value other := by
      intro other member
      cases List.mem_singleton.mp member
      exact ⟨⟨found, atValue, isValue⟩, .refl⟩
    obtain ⟨middle, added, middleConsistent, extended, arrived⟩ :=
      addFacts_consistent namesCalls consistent atValue.below admitted
    obtain ⟨after, seeded, afterConsistent, further, knownRest⟩ :=
      inductionHypothesis middleConsistent fun other member =>
        areValues other (List.mem_cons_of_mem _ member)
    refine ⟨after, ?_, afterConsistent, extended.trans further, fun other member => ?_⟩
    · rw [seed, added]
      exact seeded
    · rcases List.mem_cons.mp member with rfl | later
      · exact further.facts (arrived other List.mem_cons_self)
      · exact knownRest other later

theorem mem_valueIds {id : VertexId} :
    id ∈ origin.valueIds ↔ ∃ found, origin.At id found ∧ found.isValue := by
  unfold FlowGraph.valueIds
  simp [List.mem_zipIdx_iff_getElem?]

theorem start_consistent (wellFormed : origin.WellFormed)
    (namesCalls : origin.NamesCalls program) :
    ∃ first, start program origin = .ok first ∧
      first.Consistent program origin noDebt allLinked ∧
      ∀ value found, origin.At value found → found.isValue → first.facts.holds value value := by
  obtain ⟨first, seeded, consistent, _, known⟩ :=
    seed_consistent namesCalls (blank_consistent wellFormed) fun _ member => mem_valueIds.mp member
  exact ⟨first, seeded, consistent, fun value found atValue isValue =>
    known value (mem_valueIds.mpr ⟨found, atValue, isValue⟩)⟩

end Propagation

end FunctionFlow
