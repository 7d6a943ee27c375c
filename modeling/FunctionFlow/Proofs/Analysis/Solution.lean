import FunctionFlow.Proofs.Flow.Linking
import Mathlib.Data.Set.Lattice
import Mathlib.Logic.Relation
import Mathlib.Order.Bounds.Basic

/-!
Contract: the values that flow to each vertex of a graph.

A family has a set for every vertex, whether the graph has the vertex or not. A vertex that the
graph lacks can only get values as a parameter or as the result of a call, and it hands none on.
-/

namespace FunctionFlow

/-- Every callee of the graph belongs to a call of the program. -/
def FlowGraph.NamesCalls (graph : FlowGraph) (program : Program) : Prop :=
  ∀ call, Vertex.callee call ∈ graph.vertices → call < program.calls.size

/-- A family of value sets that the graph and the calls of the program allow. -/
structure FlowGraph.Closed (graph : FlowGraph) (program : Program)
    (family : Vertex → Set Vertex) : Prop where
  values : ∀ vertex ∈ graph.vertices, vertex.isValue → vertex ∈ family vertex
  arrows : ∀ source target, graph.Arrow source target → family source ⊆ family target
  arguments : ∀ call site function, .callee call ∈ graph.vertices →
    program.calls[call]? = some site → .function function ∈ family (.callee call) →
    ∀ index ≤ site.arity,
      family (.slot (.arg call index)) ⊆ family (.slot (.param function index))
  results : ∀ call function, .callee call ∈ graph.vertices →
    .function function ∈ family (.callee call) →
    family (.slot (.returned function)) ⊆ family (.slot (.result call))

/-- The flow of values through a graph, where a call passes its arguments to each function that
reaches its callee. -/
inductive Reaches (program : Program) (graph : FlowGraph) : Vertex → Vertex → Prop
  | value {vertex : Vertex} (member : vertex ∈ graph.vertices) (isValue : vertex.isValue) :
    Reaches program graph vertex vertex
  | arrow {value source target : Vertex} (reached : Reaches program graph value source)
    (arrow : graph.Arrow source target) : Reaches program graph value target
  | link {value : Vertex} {call : CallId} {site : CallSite} {function : FunctionId}
    {source sink : Slot} (member : .callee call ∈ graph.vertices)
    (isCall : program.calls[call]? = some site)
    (called : Reaches program graph (.function function) (.callee call))
    (tied : (source, sink) ∈ linkEdges call function site.arity)
    (reached : Reaches program graph value (.slot source)) :
    Reaches program graph value (.slot sink)

variable {program : Program} {graph : FlowGraph}

theorem mem_linkEdges {call : CallId} {function : FunctionId} {arity : Nat} {source sink : Slot} :
    (source, sink) ∈ linkEdges call function arity ↔
      (∃ index ≤ arity, source = .arg call index ∧ sink = .param function index) ∨
        (source = .returned function ∧ sink = .result call) := by
  simp only [linkEdges, List.mem_append, List.mem_map, List.mem_range, List.mem_singleton,
    Prod.mk.injEq, Nat.lt_succ_iff]
  constructor
  · rintro (⟨index, within, rfl, rfl⟩ | same)
    · exact .inl ⟨index, within, rfl, rfl⟩
    · exact .inr same
  · rintro (⟨index, within, rfl, rfl⟩ | same)
    · exact .inl ⟨index, within, rfl, rfl⟩
    · exact .inr same

/-! ### The least closed family -/

theorem closed_reached (namesCalls : graph.NamesCalls program) :
    graph.Closed program fun vertex => {value | Reaches program graph value vertex} where
  values := fun _ member isValue => .value member isValue
  arrows := fun _ _ arrow _ reached => .arrow reached arrow
  arguments := fun _ _ _ member isCall called index within _ reached =>
    .link member isCall called (mem_linkEdges.mpr (.inl ⟨index, within, rfl, rfl⟩)) reached
  results := fun call _ member called _ reached =>
    .link member (Array.getElem?_eq_getElem (namesCalls call member)) called
      (mem_linkEdges.mpr (.inr ⟨rfl, rfl⟩)) reached

theorem FlowGraph.Closed.mem_of_reaches {family : Vertex → Set Vertex}
    (closed : graph.Closed program family) {value vertex : Vertex}
    (reached : Reaches program graph value vertex) : value ∈ family vertex := by
  induction reached with
  | value member isValue => exact closed.values _ member isValue
  | arrow _ arrow inductionHypothesis => exact closed.arrows _ _ arrow inductionHypothesis
  | link member isCall _ tied _ calledHypothesis inductionHypothesis =>
    rcases mem_linkEdges.mp tied with ⟨index, within, rfl, rfl⟩ | ⟨rfl, rfl⟩
    · exact closed.arguments _ _ _ member isCall calledHypothesis index within inductionHypothesis
    · exact closed.results _ _ member calledHypothesis inductionHypothesis

theorem isLeast_reached (namesCalls : graph.NamesCalls program) :
    IsLeast {family | graph.Closed program family}
      fun vertex => {value | Reaches program graph value vertex} :=
  ⟨closed_reached namesCalls, fun _ closed _ _ reached => closed.mem_of_reaches reached⟩

/-! ### Where flow starts and arrives -/

theorem Reaches.isValue {value vertex : Vertex} (reached : Reaches program graph value vertex) :
    value ∈ graph.vertices ∧ value.isValue := by
  induction reached with
  | value member isValue => exact ⟨member, isValue⟩
  | arrow _ _ inductionHypothesis => exact inductionHypothesis
  | link _ _ _ _ _ _ inductionHypothesis => exact inductionHypothesis

def Vertex.IsLinkSink : Vertex → Prop
  | .slot (.param _ _) | .slot (.result _) => True
  | _ => False

theorem Reaches.arrives {value vertex : Vertex} (reached : Reaches program graph value vertex) :
    vertex ∈ graph.vertices ∨ vertex.IsLinkSink := by
  cases reached with
  | value member _ => exact .inl member
  | arrow _ arrow => exact .inl arrow.target_mem
  | link _ _ _ tied _ =>
    rcases mem_linkEdges.mp tied with ⟨_, _, rfl, rfl⟩ | ⟨rfl, rfl⟩ <;> exact .inr trivial

theorem Reaches.source_mem {value : Vertex} {call : CallId} {function : FunctionId} {arity : Nat}
    {source sink : Slot} (tied : (source, sink) ∈ linkEdges call function arity)
    (reached : Reaches program graph value (.slot source)) : .slot source ∈ graph.vertices := by
  rcases reached.arrives with member | isSink
  · exact member
  · rcases mem_linkEdges.mp tied with ⟨_, _, rfl, rfl⟩ | ⟨rfl, rfl⟩ <;> cases isSink

end FunctionFlow
