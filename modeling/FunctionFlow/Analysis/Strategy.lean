import FunctionFlow.Analysis.Demand
import FunctionFlow.Analysis.Propagation
import FunctionFlow.Error
import FunctionFlow.Event
import FunctionFlow.Flow.Body
import FunctionFlow.Flow.Native
import FunctionFlow.Text.Case

/-!
Contract: the strategies, and the call graph of a program under each.
-/

namespace FunctionFlow

inductive Strategy where
  /-- Calls that need no flow analysis. -/
  | direct
  /-- One propagation of all values to a fixed point. -/
  | oneShot
  /-- Queries per call, in rounds. -/
  | demand
  /-- Full precision, which is not available: `demand` takes its place. -/
  | full
  deriving DecidableEq, Repr, Inhabited

namespace Strategy

def name : Strategy → String
  | direct => "NONE"
  | oneShot => "ONESHOT"
  | demand => "DEMAND"
  | full => "FULL"

def ofWord? (word : String) : Option Strategy :=
  match Text.lower word with
  | "none" | "no-propagation" => some direct
  | "oneshot" | "pessimistic" => some oneShot
  | "demand" | "semi-optimistic" | "optimistic" => some demand
  | "full" => some full
  | _ => none

def parse (word : String) : Fallible Strategy :=
  match ofWord? word with
  | some strategy => return strategy
  | none => throw (.unknownStrategy word)

def standard : Strategy := oneShot

/-- The strategy that runs in place of a given one. -/
def effective : Strategy → Strategy
  | full => demand
  | strategy => strategy

def events : Strategy → List Event
  | full => [.fullUnavailable]
  | _ => []

end Strategy

/-- The flow graph that an analysis ends with, and the call graph read off it. -/
structure Analysis where
  flow : FlowGraph
  callGraph : CallGraph
  events : List Event
  deriving Inhabited

namespace Analysis

def standardDepth : Nat := 3

def directPair? (graph : FlowGraph) (edge : VertexId × VertexId) :
    Checked (Option (Vertex × Vertex)) := do
  match ← graph.get edge.1, ← graph.get edge.2 with
  | .function function, .callee call => return some (Vertex.callee call, Vertex.function function)
  | _, _ => return none

def directPairs (graph : FlowGraph) : Checked (List (Vertex × Vertex)) := do
  let pairs ← graph.edges.toList.mapM (directPair? graph)
  return pairs.filterMap id

def direct (program : Program) (natives : NativeTable) : Checked Analysis := do
  let (seeded, graph) ← ({} : FlowGraph).addNatives natives
  let (calls, graph) ← graph.addDirect program
  return {
    flow := graph
    callGraph := CallGraph.empty.insertAll (← directPairs graph)
    events := [.nativesSeeded seeded, .directCallsResolved calls] }

/-- The graph of the built-in functions and the bodies, with what is reported about it. -/
def bodyGraph (program : Program) (natives : NativeTable) : Checked (FlowGraph × List Event) := do
  let (seeded, before) ← ({} : FlowGraph).addNatives natives
  let graph ← before.addBodies program
  return (graph,
    [.nativesSeeded seeded, .bodiesBuilt graph.size (graph.edgeCount - before.edgeCount)])

def oneShot (program : Program) (natives : NativeTable) : Checked Analysis := do
  let (graph, events) ← bodyGraph program natives
  let final ← (← Propagation.start program graph).run program
  return {
    flow := final.graph
    callGraph := ← final.callGraph
    events := events ++ [.fixedPointReached final.steps final.linked.length] }

def calleeVertices : List CallId → Build (List (CallId × VertexId))
  | [] => return []
  | call :: rest => do
    let vertex ← Build.vertex (.callee call)
    let rest ← calleeVertices rest
    return (call, vertex) :: rest

/-- Resolves every call by queries that remember at most `depth` pending calls. -/
def demand (program : Program) (natives : NativeTable) (depth : Nat) : Checked Analysis := do
  let (graph, events) ← bodyGraph program natives
  let shared ← graph.sharedSlots program
  let (callees, graph) ← (calleeVertices (List.range program.calls.size)).run graph
  let first : Demand := { graph, linked := [], added := [], resolved := [] }
  let final ← first.converge program shared depth callees
  let rounds := final.added.reverse
  return {
    flow := final.graph
    callGraph := ← final.callGraph
    events := events ++ rounds.zipIdx.map (fun (edges, index) => .demandRound (index + 1) edges)
      ++ [.demandConverged rounds.length] }

def ofStrategy (program : Program) (natives : NativeTable) (strategy : Strategy) :
    Checked Analysis := do
  let analysis ← match strategy.effective with
    | .direct => direct program natives
    | .oneShot => oneShot program natives
    | .demand | .full => demand program natives standardDepth
  return { analysis with events := strategy.events ++ analysis.events }

end Analysis

end FunctionFlow
