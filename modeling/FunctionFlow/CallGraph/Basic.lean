import FunctionFlow.Flow.Graph

/-!
Contract: the call graph.

Pairs that are added one by one are listed by increasing callee, then by increasing target.
-/

namespace FunctionFlow

/-- Pairs of a callee and a target, in the order in which they are reported. -/
structure CallGraph where
  pairs : List (Vertex × Vertex)
  deriving DecidableEq, Repr, Inhabited

namespace CallGraph

def empty : CallGraph := ⟨[]⟩

def pairBefore (left right : Vertex × Vertex) : Bool :=
  left.1.before right.1 || (left.1 == right.1 && left.2.before right.2)

def insertPair (pair : Vertex × Vertex) : List (Vertex × Vertex) → List (Vertex × Vertex)
  | [] => [pair]
  | other :: rest =>
    if pairBefore pair other then pair :: other :: rest
    else if pair = other then other :: rest
    else other :: insertPair pair rest

def contains (graph : CallGraph) (pair : Vertex × Vertex) : Bool :=
  graph.pairs.contains pair

def insert (graph : CallGraph) (pair : Vertex × Vertex) : CallGraph :=
  ⟨insertPair pair graph.pairs⟩

/-- Adds a pair, and says whether it is new. -/
def add (graph : CallGraph) (pair : Vertex × Vertex) : Bool × CallGraph :=
  (!graph.contains pair, graph.insert pair)

def insertAll (graph : CallGraph) (pairs : List (Vertex × Vertex)) : CallGraph :=
  pairs.foldl insert graph

def size (graph : CallGraph) : Nat := graph.pairs.length

def isEmpty (graph : CallGraph) : Bool := graph.pairs.isEmpty

def targets (graph : CallGraph) (call : Vertex) : List Vertex :=
  graph.pairs.filterMap fun pair => if pair.1 = call then some pair.2 else none

def pretty (program : Program) (source target : Vertex) : Checked String := do
  let sourceLabel ← source.label program
  let targetLabel ← target.label program
  return s!"{sourceLabel} -> {targetLabel}"

end CallGraph

end FunctionFlow
