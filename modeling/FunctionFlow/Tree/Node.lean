import FunctionFlow.Text.Search

/-!
Contract: the syntax trees that the analysis reads.

Trees come from outside. Comments and type syntax stay in a tree and are passed over by `parts`.
-/

namespace FunctionFlow

structure NodeInfo where
  kind : String
  /-- Whether the node stands for a rule of the grammar, rather than for a bare token. -/
  isNamed : Bool
  /-- Whether the node may stand anywhere, as comments do. -/
  isExtra : Bool
  startByte : Nat
  endByte : Nat
  /-- The positions, among the children, of the children that have a field name. -/
  fields : List (String × Nat)
  deriving DecidableEq, Repr, Inhabited

inductive Node where
  | mk (info : NodeInfo) (children : List Node)
  deriving Repr, Inhabited

namespace Node

def info : Node → NodeInfo
  | mk info _ => info

def children : Node → List Node
  | mk _ children => children

def kind (node : Node) : String := node.info.kind

/-- The child that the grammar calls `name`. -/
def field? (node : Node) (name : String) : Option Node :=
  (node.info.fields.lookup name).bind (node.children[·]?)

mutual
/-- The number of nodes on the longest way from the node down to a leaf. -/
def height : Node → Nat
  | mk _ children => heightOfAll children + 1
def heightOfAll : List Node → Nat
  | [] => 0
  | node :: rest => max node.height (heightOfAll rest)
end

/-- The trees whose nodes, in preorder and each with its number of children, are `entries`. -/
def forestOfPreorder (entries : List (NodeInfo × Nat)) : List Node :=
  entries.foldr (fun (info, count) later => mk info (later.take count) :: later.drop count) []

def isTypeSyntax (kind : String) : Bool :=
  (Text.occursIn "type" kind && kind != "type_assertion")
    || kind == "implements_clause" || kind == "accessibility_modifier"

/-- Whether a child carries no run-time meaning. -/
def isPassedOver (node : Node) : Bool :=
  node.info.isExtra || node.kind == "comment" || isTypeSyntax node.kind

/-- The named children that can carry run-time meaning, in source order. -/
def parts (node : Node) : List Node :=
  node.children.filter fun child => child.info.isNamed && !child.isPassedOver

def hasToken (node : Node) (token : String) : Bool :=
  node.children.any (·.kind == token)

def isLogical (node : Node) : Bool :=
  match node.field? "operator" with
  | some operator => ["||", "&&", "??"].contains operator.kind
  | none => false

theorem height_le_heightOfAll {node : Node} {nodes : List Node} (member : node ∈ nodes) :
    node.height ≤ heightOfAll nodes := by
  induction nodes with
  | nil => cases member
  | cons first rest inductionHypothesis =>
    simp only [heightOfAll]
    cases member with
    | head => omega
    | tail _ later => have := inductionHypothesis later; omega

theorem height_lt_of_mem_children {child node : Node} (member : child ∈ node.children) :
    child.height < node.height := by
  cases node with
  | mk info children =>
    have bounded : child.height ≤ heightOfAll children := height_le_heightOfAll member
    simp only [height]
    omega

theorem height_lt_of_field? {child node : Node} {name : String}
    (found : node.field? name = some child) : child.height < node.height := by
  obtain ⟨position, _, atPosition⟩ := Option.bind_eq_some_iff.mp found
  exact height_lt_of_mem_children (List.mem_of_getElem? atPosition)

theorem height_lt_of_mem_parts {child node : Node} (member : child ∈ node.parts) :
    child.height < node.height :=
  height_lt_of_mem_children (List.mem_filter.mp member).1

end Node

end FunctionFlow
