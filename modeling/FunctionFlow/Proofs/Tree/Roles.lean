import FunctionFlow.Proofs.Tree.Addresses
import Mathlib.Data.List.Perm.Subperm

/-!
Contract: the roles in which the nodes of a tree are visited.

A child that no plan names is not visited, nor is anything below it.
-/

namespace FunctionFlow

/-- What a node is visited as. -/
inductive Role where
  | statement
  | statements
  | expression
  | expressions
  | pattern
  | function
  | functionBody
  | parameters
  | parameter
  | declarator
  /-- A key with a value, the key of which is only spelled. -/
  | entry
  | classPart
  | classBody
  | classMember
  | objectMember
  | callee
  | arguments
  | index
  | target
  | nothing
  deriving DecidableEq, Repr

/-- Which children of a node are visited, and as what. -/
inductive Plan where
  /-- The children with these field names, in this order. -/
  | fields (reads : List (String × Role)) (distinct : (reads.map Prod.fst).Nodup := by decide)
  | parts (role : Role)
  | firstPart (role : Role)

def Plan.nothing : Plan := .fields []

/-- A role that depends on the node is replaced by the one that the node has. -/
def Role.settle (role : Role) (node : Node) : Role :=
  match role with
  | .statement => if StatementForm.ofKind node.kind = .bare then .expression else .statement
  | .functionBody => if node.kind = "statement_block" then .statements else .expression
  | .parameter =>
    if node.kind = "required_parameter" ∨ node.kind = "optional_parameter"
        ∨ node.kind = "assignment_pattern" then .parameter
    else .pattern
  | .declarator => if node.kind = "variable_declarator" then .declarator else .nothing
  | .classPart =>
    if node.kind = "class_heritage" then .expressions
    else if node.kind = "class_body" then .classBody
    else .nothing
  | .classMember =>
    if node.kind = "method_definition" then .function
    else if node.kind = "field_definition" ∨ node.kind = "public_field_definition" then .entry
    else if node.kind = "class_static_block" then .statements
    else .nothing
  | .objectMember =>
    if node.kind = "pair" then .entry
    else if node.kind = "method_definition" then .function
    else if node.kind = "shorthand_property_identifier" then .nothing
    else .expression
  | .callee => if node.kind = "super" ∨ node.kind = "import" then .nothing else .expression
  | .arguments => if node.kind = "arguments" then .expressions else .expression
  | .index => if node.kind = "string" ∨ node.kind = "number" then .nothing else .expression
  | .target => if Lowering.isPlace node.kind then .expression else .expressions
  | settled => settled

def Plan.ofFunction (node : Node) : Plan :=
  if (node.field? "parameter").isSome then .fields [("body", .functionBody)]
  else .fields [("parameters", .parameters), ("body", .functionBody)]

def Plan.ofParameter (node : Node) : Plan :=
  if node.kind = "assignment_pattern" then
    if (node.field? "left").isSome then .fields [("left", .pattern), ("right", .expression)]
    else .nothing
  else
    match node.field? "pattern" with
    | some pattern =>
      if pattern.kind = "this" then .nothing
      else .fields [("pattern", .pattern), ("value", .expression)]
    | none => .nothing

/-- The plan for a binding pattern. A key is not visited, whether it is computed or not. -/
def Plan.ofPattern (node : Node) : Plan :=
  match PatternForm.ofKind node.kind with
  | .name | .shorthand | .nothing => .nothing
  | .defaulted => .fields [("left", .pattern), ("right", .expression)]
  | .pair => .fields [("value", .pattern)]
  | .nested => .parts .pattern

/-- The plan for an assignment, the value before the target. -/
def Plan.ofAssignment : Plan := .fields [("right", .expression), ("left", .target)]

def Plan.ofExpression (node : Node) : Plan :=
  match ExpressionForm.ofKind node.kind with
  | .name | .this => .nothing
  | .wrapped => .firstPart .expression
  | .function => .ofFunction node
  | .classDef => .parts .classPart
  | .member => .fields [("object", .expression)]
  | .subscript => .fields [("object", .expression), ("index", .index)]
  | .call => .fields [("function", .callee), ("arguments", .arguments)]
  | .construct => .fields [("constructor", .callee), ("arguments", .arguments)]
  | .assign => .ofAssignment
  | .update => if Lowering.isLogicalUpdate node then .ofAssignment else .parts .expression
  | .binary => .fields [("left", .expression), ("right", .expression)]
  | .conditional =>
    .fields [("condition", .expression), ("consequence", .expression), ("alternative", .expression)]
  | .sequence | .inert => .parts .expression
  | .object => .parts .objectMember

/-- The plan for a loop. A loop over a collection that declares names starts with them. -/
def Plan.ofLoop (node : Node) : Plan :=
  if node.kind = "for_in_statement" ∧ (Lowering.loopKind node).isSome
      ∧ (node.field? "left").isSome then
    .fields [("left", .pattern), ("right", .expression), ("body", .statement)]
  else .parts .statement

def Plan.ofExport (node : Node) : Plan :=
  if (node.field? "declaration").isSome then .fields [("declaration", .statement)]
  else .fields [("value", .expression)]

def Plan.ofStatement (node : Node) : Plan :=
  match StatementForm.ofKind node.kind with
  | .function => .ofFunction node
  | .classDef => .parts .classPart
  | .hoisted | .lexical => .parts .declarator
  | .expressions => .parts .expression
  | .result => .firstPart .expression
  | .block | .compound => .parts .statement
  | .loop => .ofLoop node
  | .handler => .fields [("parameter", .pattern), ("body", .statements)]
  | .exports => .ofExport node
  | .namespaceBody => .fields [("body", .statements)]
  | .imports | .nothing | .bare => .nothing

def Role.plan (role : Role) (node : Node) : Plan :=
  match role with
  | .statement => .ofStatement node
  | .statements => .parts .statement
  | .expression => .ofExpression node
  | .expressions => .parts .expression
  | .pattern => .ofPattern node
  | .function => .ofFunction node
  | .parameters => .parts .parameter
  | .parameter => .ofParameter node
  | .declarator =>
    if (node.field? "name").isSome then .fields [("name", .pattern), ("value", .expression)]
    else .nothing
  | .entry => .fields [("value", .expression)]
  | .classBody => .parts .classMember
  | _ => .nothing

/-! ### Plans -/

namespace Node

/-- The positions of the parts among the children. -/
def partPositions (node : Node) : List Nat :=
  (node.children.zipIdx.filter fun child =>
    child.1.info.isNamed && !child.1.isPassedOver).map Prod.snd

theorem partPositions_nodup (node : Node) : node.partPositions.Nodup := by
  have all : (node.children.zipIdx.map Prod.snd).Nodup := by
    rw [List.zipIdx_map_snd]
    exact List.nodup_range'
  exact all.sublist (List.filter_sublist.map _)

theorem getElem?_partPositions (node : Node) :
    node.partPositions.map (node.children[·]?) = node.parts.map some := by
  have atPosition : ∀ child ∈ node.children.zipIdx, node.children[child.2]? = some child.1 :=
    fun child member => List.mem_zipIdx_iff_getElem?.mp member
  calc node.partPositions.map (node.children[·]?)
      = (node.children.zipIdx.filter fun child =>
          child.1.info.isNamed && !child.1.isPassedOver).map fun child => some child.1 := by
        rw [partPositions, List.map_map]
        exact List.map_congr_left fun child member => atPosition child (List.mem_filter.mp member).1
    _ = node.parts.map some := by
        rw [parts, ← List.zipIdx_map_fst 0 node.children, List.filter_map, List.map_map,
          List.zipIdx_map_fst]
        rfl

end Node

namespace Plan

def positions (node : Node) : Plan → List (Role × Nat)
  | .fields reads _ =>
    reads.filterMap fun read => (node.info.fields.lookup read.1).map (read.2, ·)
  | .parts role => node.partPositions.map (role, ·)
  | .firstPart role => (node.partPositions.take 1).map (role, ·)

def children (node : Node) : Plan → List (Role × Node)
  | .fields reads _ => reads.flatMap fun read => (node.field? read.1).toList.map (read.2, ·)
  | .parts role => node.parts.map (role, ·)
  | .firstPart role => (node.parts.take 1).map (role, ·)

theorem filterMap_positions (node : Node) (plan : Plan) :
    (plan.positions node).filterMap (fun entry => node.children[entry.2]?.map (entry.1, ·)) =
      plan.children node := by
  have ofParts (role : Role) {places : List Nat} {nodes : List Node}
      (located : places.map (node.children[·]?) = nodes.map some) :
      (places.map (role, ·)).filterMap (fun entry => node.children[entry.2]?.map (entry.1, ·)) =
        nodes.map (role, ·) := by
    calc _ = (places.map (node.children[·]?)).filterMap fun child => child.map (role, ·) := by
          rw [List.filterMap_map, List.filterMap_map]
          rfl
      _ = nodes.map (role, ·) := by
          rw [located, List.filterMap_map]
          exact congrFun List.filterMap_eq_map nodes
  cases plan with
  | fields reads =>
    rw [positions, children, List.filterMap_filterMap, List.filterMap_eq_flatMap_toList]
    congr 1
    funext read
    unfold Node.field?
    cases node.info.fields.lookup read.1 with
    | none => rfl
    | some position =>
      simp only [Option.map_some, Option.bind_some]
      cases node.children[position]? <;> rfl
  | parts role => exact ofParts role node.getElem?_partPositions
  | firstPart role =>
    refine ofParts role ?_
    rw [List.map_take, node.getElem?_partPositions, List.map_take]

theorem positions_nodup {node : Node} (labelled : (node.info.fields.map Prod.snd).Nodup)
    (plan : Plan) : ((plan.positions node).map Prod.snd).Nodup := by
  have ofParts (role : Role) {places : List Nat} (distinct : places.Nodup) :
      ((places.map (role, ·)).map Prod.snd).Nodup := by
    rw [List.map_map]
    exact (List.map_id places).symm ▸ distinct
  cases plan with
  | fields reads distinct =>
    rw [positions, List.map_filterMap]
    refine List.Pairwise.filterMap _ ?_ (List.pairwise_map.mp distinct)
    intro first second different left isLeft right isRight same
    simp only [Option.map_map, Option.map_eq_some_iff, Function.comp_apply,
      exists_eq_right] at isLeft isRight
    exact different (Node.lookup_injective labelled isLeft (same ▸ isRight))
  | parts role => exact ofParts role node.partPositions_nodup
  | firstPart role =>
    exact ofParts role (node.partPositions_nodup.sublist (List.take_sublist 1 _))

end Plan

/-! ### Visited calls -/

namespace Node

def isCall (node : Node) : Bool :=
  node.kind == "call_expression" || node.kind == "new_expression"

mutual
def visitedCalls : Node → Role → List (Address × Node)
  | mk info children, role =>
    let node := mk info children
    let settled := role.settle node
    (if settled = .expression ∧ node.isCall then [([], node)] else [])
      ++ ((settled.plan node).positions node).flatMap fun entry =>
        (visitedCallsAt children entry.2 entry.1).map (under entry.2)
def visitedCallsAt : List Node → (position : Nat) → Role → List (Address × Node)
  | [], _, _ => []
  | first :: _, 0, role => first.visitedCalls role
  | _ :: rest, position + 1, role => visitedCallsAt rest position role
end

theorem visitedCallsAt_eq (nodes : List Node) (position : Nat) (role : Role) :
    visitedCallsAt nodes position role =
      (nodes[position]?).toList.flatMap (visitedCalls · role) := by
  induction nodes generalizing position with
  | nil => simp [visitedCallsAt]
  | cons first rest inductionHypothesis =>
    cases position with
    | zero => simp [visitedCallsAt]
    | succ position => simpa [visitedCallsAt] using inductionHypothesis position

def ownCall (node : Node) (role : Role) : List (Address × Node) :=
  if role.settle node = .expression ∧ node.isCall then [([], node)] else []

theorem visitedCalls_eq (node : Node) (role : Role) :
    node.visitedCalls role = node.ownCall role ++
      (((role.settle node).plan node).positions node).flatMap fun entry =>
        (node.children[entry.2]?).toList.flatMap fun child =>
          (child.visitedCalls entry.1).map (under entry.2) := by
  cases node with
  | mk info children =>
    rw [visitedCalls]
    simp only [visitedCallsAt_eq, List.map_flatMap]
    rfl

/-- The nodes that are visited when `node` is visited in `role`: the one at `address` is visited in
the role `settled`. -/
inductive Visited : (role : Role) → (node : Node) → Address → (settled : Role) → Node → Prop
  | self {role : Role} {node : Node} : Visited role node [] (role.settle node) node
  | child {role next settled : Role} {node child found : Node} {position : Nat}
    {address : Address}
    (planned : (next, position) ∈ ((role.settle node).plan node).positions node)
    (isChild : node.children[position]? = some child)
    (onward : Visited next child address settled found) :
    Visited role node (position :: address) settled found

variable {root node found : Node} {role settled : Role} {address : Address}

theorem Visited.nodeAt? (visited : Visited role node address settled found) :
    node.nodeAt? address = some found := by
  induction visited with
  | self => rfl
  | child _ isChild _ inductionHypothesis =>
    show (_ : Option Node).bind _ = _
    rw [isChild]
    exact inductionHypothesis

theorem mem_visitedCalls {entry : Address × Node} :
    entry ∈ node.visitedCalls role ↔
      Visited role node entry.1 .expression entry.2 ∧ entry.2.isCall := by
  induction node using induction_children generalizing role entry with
  | step node inductionHypothesis =>
    rw [visitedCalls_eq, List.mem_append]
    constructor
    · rintro (isOwn | isBelow)
      · unfold ownCall at isOwn
        split at isOwn
        · rename_i isCall
          cases List.mem_singleton.mp isOwn
          exact ⟨isCall.1 ▸ .self, isCall.2⟩
        · cases isOwn
      · simp only [List.mem_flatMap, List.mem_map, Option.mem_toList] at isBelow
        obtain ⟨⟨next, position⟩, planned, child, isChild, inner, isInner, rfl⟩ := isBelow
        obtain ⟨visited, isCall⟩ :=
          (inductionHypothesis child (List.mem_of_getElem? isChild)).mp isInner
        exact ⟨.child planned isChild visited, isCall⟩
    · obtain ⟨address, found⟩ := entry
      rintro ⟨visited, isCall⟩
      generalize isExpression : Role.expression = settled at visited
      cases visited with
      | self =>
        refine .inl ?_
        rw [ownCall, if_pos ⟨isExpression.symm, isCall⟩]
        exact List.mem_singleton_self _
      | @child _ next _ _ child _ position rest planned isChild onward =>
        subst isExpression
        refine .inr ?_
        simp only [List.mem_flatMap, List.mem_map, Option.mem_toList]
        exact ⟨(next, position), planned, child, isChild, (rest, found),
          (inductionHypothesis child (List.mem_of_getElem? isChild)).mpr ⟨onward, isCall⟩, rfl⟩

theorem nodeAt?_of_mem_visitedCalls {entry : Address × Node}
    (member : entry ∈ node.visitedCalls role) : node.nodeAt? entry.1 = some entry.2 :=
  (mem_visitedCalls.mp member).1.nodeAt?

theorem visitedCalls_ordered (labelled : node.Labelled) (role : Role) :
    (node.visitedCalls role).Pairwise fun earlier later => ¬ later.1 <+: earlier.1 := by
  induction node using induction_children generalizing role with
  | step node inductionHypothesis =>
    have distinct := Plan.positions_nodup (labelled node node.self_mem_all)
      ((role.settle node).plan node)
    rw [visitedCalls_eq, List.pairwise_append]
    refine ⟨?_, ?_, ?_⟩
    · unfold ownCall
      split
      · exact List.pairwise_singleton _ _
      · exact .nil
    · rw [List.pairwise_flatMap]
      constructor
      · intro entry _
        cases isChild : node.children[entry.2]? with
        | none => exact .nil
        | some child =>
          have member := List.mem_of_getElem? isChild
          simp only [Option.toList_some, List.flatMap_singleton, List.pairwise_map, under,
            List.prefix_cons_inj]
          exact inductionHypothesis child member (labelled.child member) entry.1
      · refine (List.pairwise_map.mp distinct).imp ?_
        intro first second different earlier isEarlier later isLater leads
        simp only [List.mem_flatMap, List.mem_map] at isEarlier isLater
        obtain ⟨_, _, _, _, rfl⟩ := isEarlier
        obtain ⟨_, _, _, _, rfl⟩ := isLater
        exact different (List.cons_prefix_cons.mp leads).1.symm
    · intro earlier isOwn later isLater leads
      unfold ownCall at isOwn
      split at isOwn
      · cases List.mem_singleton.mp isOwn
        simp only [List.mem_flatMap, List.mem_map] at isLater
        obtain ⟨_, _, _, _, _, _, rfl⟩ := isLater
        exact absurd (List.prefix_nil.mp leads) (List.cons_ne_nil _ _)
      · cases isOwn

theorem visitedCalls_nodup (labelled : node.Labelled) (role : Role) :
    (node.visitedCalls role).Nodup := by
  refine (visitedCalls_ordered labelled role).imp ?_
  rintro earlier _ notAbove rfl
  exact notAbove List.prefix_rfl

/-! ### All calls -/

/-- Every call of the tree is visited as an expression, when the tree is visited in `role`. -/
def AllCallsVisited (root : Node) (role : Role) : Prop :=
  ∀ address node, root.nodeAt? address = some node → node.isCall →
    Visited role root address .expression node

theorem allCallsVisited_iff {root : Node} {role : Role} :
    root.AllCallsVisited role ↔ ∀ entry ∈ root.located, entry.2.isCall →
      entry.1 ∈ (root.visitedCalls role).map Prod.fst := by
  constructor
  · intro complete entry isLocated isCall
    exact List.mem_map.mpr ⟨entry, mem_visitedCalls.mpr
      ⟨complete entry.1 entry.2 (mem_located.mp isLocated) isCall, isCall⟩, rfl⟩
  · intro complete address node atAddress isCall
    obtain ⟨entry, isVisited, rfl⟩ := List.mem_map.mp
      (complete (address, node) (mem_located.mpr atAddress) isCall)
    -- the address determines the node
    have sameNode := (nodeAt?_of_mem_visitedCalls isVisited).symm.trans atAddress
    cases Option.some.inj sameNode
    exact (mem_visitedCalls.mp isVisited).1

instance (root : Node) (role : Role) : Decidable (root.AllCallsVisited role) :=
  decidable_of_iff _ allCallsVisited_iff.symm

theorem visitedCalls_perm_iff {α : Type} (labelled : root.Labelled) (role : Role)
    (view : Node → α) :
    ((root.visitedCalls role).map fun entry => view entry.2).Perm
        ((root.all.filter isCall).map view) ↔
      root.AllCallsVisited role := by
  have allCalls : (root.all.filter isCall).map view =
      (root.located.filter fun entry => entry.2.isCall).map fun entry => view entry.2 := by
    rw [← map_snd_located, List.filter_map, List.map_map]
    rfl
  have subset : root.visitedCalls role ⊆ root.located.filter fun entry => entry.2.isCall := by
    intro entry member
    exact List.mem_filter.mpr ⟨mem_located.mpr (nodeAt?_of_mem_visitedCalls member),
      (mem_visitedCalls.mp member).2⟩
  have fewer := List.Nodup.subperm (visitedCalls_nodup labelled role) subset
  rw [allCalls]
  constructor
  · intro perm address node atAddress isCall
    have sameLength := perm.length_eq
    rw [List.length_map, List.length_map] at sameLength
    have isCallEntry : (address, node) ∈ root.located.filter fun entry => entry.2.isCall :=
      List.mem_filter.mpr ⟨mem_located.mpr atAddress, isCall⟩
    have same := fewer.perm_of_length_le (Nat.le_of_eq sameLength.symm)
    exact (mem_visitedCalls.mp (same.mem_iff.mpr isCallEntry)).1
  · intro complete
    have back : root.located.filter (fun entry => entry.2.isCall) ⊆ root.visitedCalls role := by
      intro entry member
      obtain ⟨isLocated, isCall⟩ := List.mem_filter.mp member
      exact mem_visitedCalls.mpr
        ⟨complete entry.1 entry.2 (mem_located.mp isLocated) isCall, isCall⟩
    have more := List.Nodup.subperm (root.located_nodup.filter _) back
    exact (fewer.antisymm more).map _

end Node

end FunctionFlow
