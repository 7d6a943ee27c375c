import FunctionFlow.Lowering.Source

/-!
Contract: the byte ranges of a tree's nodes.
-/

namespace FunctionFlow

/-- A node of the tree `root`. -/
inductive Node.Inside (root : Node) : Node → Prop
  | self : Inside root root
  | child {node child : Node} (inside : Inside root node) (member : child ∈ node.children) :
    Inside root child

namespace Node.Inside

variable {root node child : Node}

theorem trans (outer : Node.Inside root node) (inner : Node.Inside node child) :
    Node.Inside root child := by
  induction inner with
  | self => exact outer
  | child _ member inductionHypothesis => exact .child inductionHypothesis member

theorem field (inside : Node.Inside root node) {name : String}
    (found : node.field? name = some child) : Node.Inside root child := by
  obtain ⟨position, _, atPosition⟩ := Option.bind_eq_some_iff.mp found
  exact .child inside (List.mem_of_getElem? atPosition)

theorem part (inside : Node.Inside root node) (member : child ∈ node.parts) :
    Node.Inside root child :=
  .child inside (List.mem_filter.mp member).1

theorem height_le (inside : Node.Inside root node) : node.height ≤ root.height := by
  induction inside with
  | self => exact Nat.le_refl _
  | child _ member inductionHypothesis =>
    exact Nat.le_trans (Nat.le_of_lt (height_lt_of_mem_children member)) inductionHypothesis

end Node.Inside

namespace Node

mutual
def all : Node → List Node
  | mk info children => mk info children :: allOf children
def allOf : List Node → List Node
  | [] => []
  | first :: rest => first.all ++ allOf rest
end

theorem all_eq (node : Node) : node.all = node :: allOf node.children := by
  cases node with
  | mk info children =>
    rw [all]
    rfl

theorem mem_allOf {node : Node} {trees : List Node} :
    node ∈ allOf trees ↔ ∃ tree ∈ trees, node ∈ tree.all := by
  induction trees with
  | nil => simp [allOf]
  | cons first rest inductionHypothesis => simp [allOf, inductionHypothesis]

theorem self_mem_all (node : Node) : node ∈ node.all := by
  rw [all_eq]
  exact List.mem_cons_self

theorem mem_all_of_child {node child inner : Node} (member : child ∈ node.children)
    (isInner : inner ∈ child.all) : inner ∈ node.all := by
  rw [all_eq]
  exact List.mem_cons_of_mem _ (mem_allOf.mpr ⟨child, member, isInner⟩)

theorem induction_children {holds : Node → Prop}
    (step : ∀ node, (∀ child ∈ node.children, holds child) → holds node) (node : Node) :
    holds node :=
  step node fun child _ => induction_children step child
termination_by node.height
decreasing_by exact height_lt_of_mem_children ‹_›

theorem child_mem_all {node child : Node} (member : child ∈ node.children) (root : Node)
    (inside : node ∈ root.all) : child ∈ root.all := by
  induction root using induction_children with
  | step root inductionHypothesis =>
    rw [all_eq, List.mem_cons] at inside
    rcases inside with rfl | deeper
    · exact mem_all_of_child member child.self_mem_all
    · obtain ⟨tree, isTree, deeper⟩ := mem_allOf.mp deeper
      exact mem_all_of_child isTree (inductionHypothesis tree isTree deeper)

theorem Inside.mem_all {root node : Node} (inside : Inside root node) : node ∈ root.all := by
  induction inside with
  | self => exact root.self_mem_all
  | child _ member inductionHypothesis => exact child_mem_all member root inductionHypothesis

/-- A node of a grammar rule, with no tokens, whose first children have the given field names. -/
def rule (kind : String) (startByte endByte : Nat) (fieldNames : List String)
    (children : List Node) : Node :=
  mk { kind, isNamed := true, isExtra := false, startByte, endByte, fields := fieldNames.zipIdx }
    children

def Nested (root : Node) : Prop :=
  ∀ node ∈ root.all, ∀ child ∈ node.children,
    node.info.startByte ≤ child.info.startByte ∧ child.info.endByte ≤ node.info.endByte

instance (root : Node) : Decidable root.Nested :=
  inferInstanceAs (Decidable (∀ node ∈ root.all, ∀ child ∈ node.children,
    node.info.startByte ≤ child.info.startByte ∧ child.info.endByte ≤ node.info.endByte))

theorem Nested.range_of_inside {root outer inner : Node} (nested : root.Nested)
    (isOuter : Inside root outer) (inside : Inside outer inner) :
    outer.info.startByte ≤ inner.info.startByte ∧ inner.info.endByte ≤ outer.info.endByte := by
  induction inside with
  | self => exact ⟨Nat.le_refl _, Nat.le_refl _⟩
  | child onTheWay member inductionHypothesis =>
    obtain ⟨starts, ends⟩ := nested _ (isOuter.trans onTheWay).mem_all _ member
    exact ⟨Nat.le_trans inductionHypothesis.1 starts, Nat.le_trans ends inductionHypothesis.2⟩

end Node

theorem Source.slice_ok {source : Source} {startByte endByte : Nat}
    (inside : startByte ≤ endByte ∧ endByte ≤ byteLength source.chars) :
    ∃ text, source.slice startByte endByte = .ok text := by
  unfold slice
  rw [if_pos inside]
  cases (suffixAt source.chars startByte).bind (firstBytes · (endByte - startByte)) with
  | none => exact ⟨_, rfl⟩
  | some chars => exact ⟨_, rfl⟩

/-- The ranges of all nodes lie inside the text. -/
def SourceFile.Fits (file : SourceFile) : Prop :=
  ∀ node ∈ file.tree.root.all, node.info.startByte ≤ node.info.endByte ∧
    node.info.endByte ≤ Source.byteLength (Source.ofString file.analysedText).chars

instance (file : SourceFile) : Decidable file.Fits :=
  inferInstanceAs (Decidable (∀ node ∈ file.tree.root.all,
    node.info.startByte ≤ node.info.endByte ∧
      node.info.endByte ≤ Source.byteLength (Source.ofString file.analysedText).chars))

end FunctionFlow
