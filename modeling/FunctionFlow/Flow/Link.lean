import FunctionFlow.Flow.Graph
import FunctionFlow.Program.Call

/-!
Contract: the flow that a resolved call adds.

Linking looks vertices up and never adds one: a slot that no body mentions cannot carry a value.
-/

namespace FunctionFlow

/-- The slots that a call of a function with `arity` arguments ties together: arguments to
parameters, receiver first, and the returned value to the result. -/
def linkEdges (call : CallId) (function : FunctionId) (arity : Nat) : List (Slot × Slot) :=
  (List.range (arity + 1)).map (fun index => (.arg call index, .param function index))
    ++ [(.returned function, .result call)]

/-- Adds the edges of `pairs` whose ends are in the graph, and gives the sources of the new ones. -/
def FlowGraph.connect (graph : FlowGraph) : List (Slot × Slot) → Checked (List VertexId × FlowGraph)
  | [] => return ([], graph)
  | (source, target) :: rest =>
    match graph.lookup (.slot source), graph.lookup (.slot target) with
    | some source, some target => do
      let (isNew, grown) ← graph.addEdge source target
      let (later, final) ← grown.connect rest
      return (if isNew then source :: later else later, final)
    | _, _ => graph.connect rest

/-- Ties a call to the value `target`. A built-in function has no body to tie to. The answer lists
the sources of the new edges. -/
def FlowGraph.link (graph : FlowGraph) (program : Program) (call : CallId) (target : VertexId) :
    Checked (List VertexId × FlowGraph) := do
  match ← graph.get target with
  | .function function => graph.connect (linkEdges call function (← program.call call).arity)
  | _ => return ([], graph)

section

variable {graph after : FlowGraph} {sources : List VertexId}
  {motive : FlowGraph → List VertexId → FlowGraph → Prop}
  (none : ∀ graph, motive graph [] graph)
  (edge : ∀ {graph grown final : FlowGraph} {source target isNew later},
    graph.addEdge source target = .ok (isNew, grown) → motive grown later final →
      motive graph (if isNew then source :: later else later) final)
include none edge

private theorem FlowGraph.connect_induction {pairs : List (Slot × Slot)}
    (connected : graph.connect pairs = .ok (sources, after)) : motive graph sources after := by
  induction pairs generalizing graph sources with
  | nil =>
    cases connected
    exact none _
  | cons pair rest inductionHypothesis =>
    unfold connect at connected
    split at connected
    · obtain ⟨⟨isNew, grown⟩, added, connected⟩ := Checked.bind_eq_ok.mp connected
      obtain ⟨⟨later, final⟩, further, connected⟩ := Checked.bind_eq_ok.mp connected
      cases connected
      exact edge added (inductionHypothesis further)
    · exact inductionHypothesis connected

/-- Lifts what one more edge keeps to linking a call. -/
theorem FlowGraph.link_induction {program : Program} {call : CallId} {target : VertexId}
    (linked : graph.link program call target = .ok (sources, after)) :
    motive graph sources after := by
  unfold link at linked
  obtain ⟨vertex, _, linked⟩ := Checked.bind_eq_ok.mp linked
  split at linked
  · obtain ⟨site, _, linked⟩ := Checked.bind_eq_ok.mp linked
    exact connect_induction none edge linked
  · cases linked
    exact none _

end

theorem FlowGraph.size_link {graph after : FlowGraph} {program : Program} {call : CallId}
    {target : VertexId} {sources : List VertexId}
    (linked : graph.link program call target = .ok (sources, after)) : after.size = graph.size := by
  refine link_induction (motive := fun graph _ after => after.size = graph.size)
    (fun _ => rfl) (fun added later => later.trans ?_) linked
  rcases addEdge_outcome added with ⟨_, _, rfl⟩ | ⟨_, _, _, _, _, _, rfl⟩ <;> rfl

/-- Adds one edge for each call whose callee denotes a function on the face of it, and counts the
new ones. -/
def Build.direct (program : Program) : List (CallId × Expr) → Build Nat
  | [] => return 0
  | (call, callee) :: rest => do
    match ← program.directCallee callee with
    | some function =>
      let source ← vertex (.function function)
      let target ← vertex (.callee call)
      let isNew ← edge source target
      let later ← Build.direct program rest
      return if isNew then later + 1 else later
    | none => Build.direct program rest

def FlowGraph.addDirect (graph : FlowGraph) (program : Program) : Checked (Nat × FlowGraph) :=
  (Build.direct program program.callExpressions).run graph

end FunctionFlow
