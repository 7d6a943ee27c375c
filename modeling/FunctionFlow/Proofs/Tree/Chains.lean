import FunctionFlow.Proofs.Tree.Addresses

/-!
Contract: the operands of chains and their places in the tree.
-/

namespace FunctionFlow

/-- Whether the first address leads to a node that stands before that of the second one, where
neither node holds the other. -/
inductive Address.Precedes : Address → Address → Prop
  | here {first second : Nat} (less : first < second) (left right : Address) :
    Precedes (first :: left) (second :: right)
  | under {left right : Address} (position : Nat) (precedes : Precedes left right) :
    Precedes (position :: left) (position :: right)

theorem Address.Precedes.ne {left right : Address} (precedes : Precedes left right) :
    left ≠ right := by
  induction precedes with
  | here less => exact fun same => Nat.ne_of_lt less (List.cons.inj same).1
  | under position _ inductionHypothesis =>
    exact fun same => inductionHypothesis (List.cons.inj same).2

namespace Node

/-! ### The operands, level by level -/

/-- The operands of a chain, by the levels of the tree: those on the left, then the right one. -/
def chain (node : Node) (logical : Bool) : List Node :=
  (match _found : node.field? "left" with
    | some left =>
      if left.kind = "binary_expression" ∧ left.isLogical = logical then left.chain logical
      else [left]
    | none => []) ++ (node.field? "right").toList
termination_by node.height
decreasing_by exact height_lt_of_field? _found

/-- The items of a comma expression, by the levels of the tree: all parts but the last, then what the
last one stands for. -/
def items (node : Node) : List Node :=
  node.parts.dropLast ++
    match _found : node.parts.getLast? with
    | some last => if last.kind = "sequence_expression" then last.items else [last]
    | none => []
termination_by node.height
decreasing_by exact height_lt_of_mem_parts (List.mem_of_getLast? _found)

theorem operatorChainFrom_eq (node : Node) (logical : Bool) (later : List Node) :
    node.operatorChainFrom logical later = node.chain logical ++ later := by
  fun_induction operatorChainFrom node logical later with
  | case1 node later operands left found goesOn inductionHypothesis =>
    rw [inductionHypothesis, chain.eq_1 node, found]
    simp [goesOn, operands]
  | case2 node later operands left found ends =>
    rw [chain, found]
    simp [ends, operands]
  | case3 node later operands missing =>
    rw [chain, missing]
    simp [operands]

theorem operatorChain_eq (node : Node) (logical : Bool) :
    node.operatorChain logical = node.chain logical := by
  rw [operatorChain, operatorChainFrom_eq, List.append_nil]

theorem sequenceItemsFrom_eq (node : Node) (earlier : List Node) :
    node.sequenceItemsFrom earlier = earlier ++ node.items := by
  fun_induction sequenceItemsFrom node earlier with
  | case1 node earlier last found items goesOn inductionHypothesis =>
    rw [inductionHypothesis, Node.items.eq_1 node, found]
    simp [goesOn, items]
  | case2 node earlier last found items ends =>
    rw [Node.items, found]
    simp [ends, items]
  | case3 node earlier missing =>
    rw [Node.items, missing]
    simp [List.getLast?_eq_none_iff.mp missing]

theorem sequenceItems_eq (node : Node) : node.sequenceItems = node.items := by
  rw [sequenceItems, sequenceItemsFrom_eq, List.nil_append]

variable {node : Node}

theorem chain_of_left {left : Node} (logical : Bool) (found : node.field? "left" = some left) :
    node.chain logical =
      (if left.kind = "binary_expression" ∧ left.isLogical = logical then left.chain logical
        else [left]) ++ (node.field? "right").toList := by
  rw [chain, found]

theorem chain_of_no_left (logical : Bool) (missing : node.field? "left" = none) :
    node.chain logical = (node.field? "right").toList := by
  rw [chain, missing, List.nil_append]

/-! ### Places of operands -/

theorem inside_of_nodeAt? {inner : Node} {address : Address}
    (found : node.nodeAt? address = some inner) : Inside node inner := by
  induction address generalizing node with
  | nil =>
    cases found
    exact .self
  | cons position rest inductionHypothesis =>
    obtain ⟨child, isChild, found⟩ := Option.bind_eq_some_iff.mp found
    exact (Inside.child .self (List.mem_of_getElem? isChild)).trans (inductionHypothesis found)

/-- The nodes stand below the children at `positions`, and where `ordered` holds in source order, one
after the other. -/
def Arranged (ordered : Prop) (node : Node) (positions : List Nat) (nodes : List Node) : Prop :=
  ∃ addresses : List Address, addresses.map node.nodeAt? = nodes.map some ∧
    (∀ address ∈ addresses, ∃ position ∈ positions, ∃ rest, address = position :: rest) ∧
    (ordered → addresses.Pairwise Address.Precedes)

namespace Arranged

variable {ordered : Prop} {positions others : List Nat} {nodes more : List Node}

theorem nil : Arranged ordered node positions [] :=
  ⟨[], rfl, List.forall_mem_nil _, fun _ => .nil⟩

theorem append (first : Arranged ordered node positions nodes)
    (second : Arranged ordered node others more)
    (increase : ordered → ∀ position ∈ positions, ∀ other ∈ others, position < other) :
    Arranged ordered node (positions ++ others) (nodes ++ more) := by
  obtain ⟨firsts, atFirsts, fromFirst, firstInOrder⟩ := first
  obtain ⟨seconds, atSeconds, fromSecond, secondInOrder⟩ := second
  refine ⟨firsts ++ seconds, ?_, fun address member => ?_, fun isOrdered => ?_⟩
  · rw [List.map_append, List.map_append, atFirsts, atSeconds]
  · rcases List.mem_append.mp member with isFirst | isSecond
    · obtain ⟨position, isPosition, below⟩ := fromFirst address isFirst
      exact ⟨position, List.mem_append_left _ isPosition, below⟩
    · obtain ⟨position, isPosition, below⟩ := fromSecond address isSecond
      exact ⟨position, List.mem_append_right _ isPosition, below⟩
  · refine List.pairwise_append.mpr
      ⟨firstInOrder isOrdered, secondInOrder isOrdered, fun left isLeft right isRight => ?_⟩
    obtain ⟨position, isPosition, leftRest, rfl⟩ := fromFirst left isLeft
    obtain ⟨other, isOther, rightRest, rfl⟩ := fromSecond right isRight
    exact .here (increase isOrdered position isPosition other isOther) leftRest rightRest

theorem children (atPositions : positions.map (node.children[·]?) = nodes.map some)
    (increase : positions.Pairwise (· < ·)) : Arranged ordered node positions nodes := by
  refine ⟨positions.map ([·]), ?_, fun address member => ?_, fun _ => ?_⟩
  · rw [← atPositions, List.map_map]
    refine List.map_congr_left fun position _ => ?_
    simp [nodeAt?]
  · obtain ⟨position, isPosition, rfl⟩ := List.mem_map.mp member
    exact ⟨position, isPosition, [], rfl⟩
  · exact List.pairwise_map.mpr (increase.imp fun less => .here less [] [])

theorem under {child : Node} {position : Nat} (isChild : node.children[position]? = some child)
    (arranged : Arranged ordered child positions nodes) :
    Arranged ordered node [position] nodes := by
  obtain ⟨addresses, atAddresses, _, inOrder⟩ := arranged
  refine ⟨addresses.map (position :: ·), ?_, fun address member => ?_, fun isOrdered => ?_⟩
  · rw [← atAddresses, List.map_map]
    refine List.map_congr_left fun address _ => ?_
    simp [nodeAt?, isChild]
  · obtain ⟨rest, _, rfl⟩ := List.mem_map.mp member
    exact ⟨position, List.mem_singleton_self _, rest, rfl⟩
  · exact List.pairwise_map.mpr ((inOrder isOrdered).imp (.under position))

theorem below (arranged : Arranged ordered node positions nodes) {operand : Node}
    (member : operand ∈ nodes) : ∃ child ∈ node.children, Inside child operand := by
  obtain ⟨addresses, atAddresses, starts, _⟩ := arranged
  have isPlaced : some operand ∈ addresses.map node.nodeAt? :=
    atAddresses ▸ List.mem_map_of_mem member
  obtain ⟨address, isAddress, found⟩ := List.mem_map.mp isPlaced
  obtain ⟨position, _, rest, rfl⟩ := starts address isAddress
  obtain ⟨child, isChild, found⟩ := Option.bind_eq_some_iff.mp found
  exact ⟨child, List.mem_of_getElem? isChild, inside_of_nodeAt? found⟩

theorem mono {weaker : Prop} (arranged : Arranged weaker node positions nodes)
    (weaken : ordered → weaker) : Arranged ordered node positions nodes := by
  obtain ⟨addresses, atAddresses, below, inOrder⟩ := arranged
  exact ⟨addresses, atAddresses, below, fun isOrdered => inOrder (weaken isOrdered)⟩

end Arranged

/-- In every node the left operand comes before the right one. -/
def LeftFirst (root : Node) : Prop :=
  ∀ node ∈ root.all, ∀ left ∈ node.info.fields.lookup "left",
    ∀ right ∈ node.info.fields.lookup "right", left < right

theorem LeftFirst.child {child : Node} (leftFirst : node.LeftFirst)
    (member : child ∈ node.children) : child.LeftFirst :=
  fun inner isInner => leftFirst inner (mem_all_of_child member isInner)

theorem field_arranged (ordered : Prop) (node : Node) (name : String) :
    Arranged ordered node (node.info.fields.lookup name).toList (node.field? name).toList := by
  unfold field?
  cases node.info.fields.lookup name with
  | none => exact .nil
  | some position =>
    cases isChild : node.children[position]? with
    | none => simpa [isChild] using Arranged.nil
    | some child => exact .children (by simp [isChild]) (List.pairwise_singleton _ _)

theorem chain_arranged (node : Node) (logical : Bool) :
    ∃ positions, Arranged node.LeftFirst node positions (node.chain logical) := by
  induction node using induction_children with
  | step node inductionHypothesis =>
    have onRight := field_arranged node.LeftFirst node "right"
    cases found : node.field? "left" with
    | none =>
      rw [chain_of_no_left logical found]
      exact ⟨_, onRight⟩
    | some left =>
      obtain ⟨position, isPosition, isChild⟩ := Option.bind_eq_some_iff.mp found
      have member := List.mem_of_getElem? isChild
      rw [chain_of_left logical found]
      refine ⟨[position] ++ _, Arranged.append ?_ onRight fun leftFirst => ?_⟩
      · split
        · obtain ⟨_, arranged⟩ := inductionHypothesis left member
          exact (arranged.mono fun leftFirst => leftFirst.child member).under isChild
        · simpa [isPosition, found] using field_arranged node.LeftFirst node "left"
      · simpa [isPosition] using leftFirst node node.self_mem_all

theorem parts_positions (node : Node) :
    ∃ positions : List Nat, positions.map (node.children[·]?) = node.parts.map some ∧
      positions.Pairwise (· < ·) := by
  obtain ⟨places, isParts, increase⟩ :=
    List.sublist_eq_map_getElem (show node.parts.Sublist node.children from List.filter_sublist)
  refine ⟨places.map Fin.val, ?_, List.pairwise_map.mpr increase⟩
  rw [isParts]
  simp

theorem items_arranged (node : Node) : ∃ positions, Arranged True node positions node.items := by
  induction node using induction_children with
  | step node inductionHypothesis =>
    rw [items]
    cases found : node.parts.getLast? with
    | none =>
      rw [List.getLast?_eq_none_iff.mp found]
      exact ⟨[], .nil⟩
    | some last =>
      obtain ⟨positions, atPositions, increase⟩ := node.parts_positions
      rw [← List.dropLast_append_getLast? last found, List.map_append] at atPositions
      obtain ⟨front, back, rfl, atFront, atBack⟩ := List.map_eq_append_iff.mp atPositions
      obtain ⟨position, rfl, isChild⟩ := List.map_eq_singleton_iff.mp atBack
      obtain ⟨frontIncrease, _, below⟩ := List.pairwise_append.mp increase
      refine ⟨front ++ [position],
        Arranged.append (.children atFront frontIncrease) ?_ fun _ => below⟩
      dsimp only
      split
      · obtain ⟨_, arranged⟩ := inductionHypothesis last (List.mem_of_getElem? isChild)
        exact arranged.under isChild
      · exact .children (by simp [isChild]) (List.pairwise_singleton _ _)

theorem below_of_mem_operatorChain {operand : Node} {logical : Bool}
    (member : operand ∈ node.operatorChain logical) :
    ∃ child ∈ node.children, Inside child operand := by
  obtain ⟨_, arranged⟩ := node.chain_arranged logical
  exact arranged.below (node.operatorChain_eq logical ▸ member)

theorem below_of_mem_sequenceItems {item : Node} (member : item ∈ node.sequenceItems) :
    ∃ child ∈ node.children, Inside child item := by
  obtain ⟨_, arranged⟩ := node.items_arranged
  exact arranged.below (node.sequenceItems_eq ▸ member)

/-! ### Ranges of operands -/

/-- Every node lies inside its parent, after the siblings before it. -/
structure Orderly (root : Node) : Prop where
  ranges : ∀ node ∈ root.all, node.info.startByte ≤ node.info.endByte
  nested : root.Nested
  siblings : ∀ node ∈ root.all, node.children.Pairwise fun left right =>
    left.info.endByte ≤ right.info.startByte

theorem Orderly.child {child : Node} (orderly : node.Orderly) (member : child ∈ node.children) :
    child.Orderly where
  ranges inner isInner := orderly.ranges inner (mem_all_of_child member isInner)
  nested inner isInner := orderly.nested inner (mem_all_of_child member isInner)
  siblings inner isInner := orderly.siblings inner (mem_all_of_child member isInner)

theorem Orderly.apart {left right : Address} {first second : Node} (orderly : node.Orderly)
    (precedes : left.Precedes right) (atLeft : node.nodeAt? left = some first)
    (atRight : node.nodeAt? right = some second) :
    first.info.endByte ≤ second.info.startByte := by
  induction precedes generalizing node with
  | here less left right =>
    obtain ⟨leftChild, isLeft, atLeft⟩ := Option.bind_eq_some_iff.mp atLeft
    obtain ⟨rightChild, isRight, atRight⟩ := Option.bind_eq_some_iff.mp atRight
    have insideLeft := (orderly.child (List.mem_of_getElem? isLeft)).nested.range_of_inside .self
      (inside_of_nodeAt? atLeft)
    have insideRight := (orderly.child (List.mem_of_getElem? isRight)).nested.range_of_inside .self
      (inside_of_nodeAt? atRight)
    have apart := List.pairwise_iff_getElem.mp (orderly.siblings node node.self_mem_all) _ _
      (List.getElem?_eq_some_iff.mp isLeft).1 (List.getElem?_eq_some_iff.mp isRight).1 less
    rw [(List.getElem?_eq_some_iff.mp isLeft).2, (List.getElem?_eq_some_iff.mp isRight).2] at apart
    omega
  | under position _ inductionHypothesis =>
    obtain ⟨child, isChild, atLeft⟩ := Option.bind_eq_some_iff.mp atLeft
    obtain ⟨other, isOther, atRight⟩ := Option.bind_eq_some_iff.mp atRight
    cases isChild.symm.trans isOther
    exact inductionHypothesis (orderly.child (List.mem_of_getElem? isChild)) atLeft atRight

theorem Orderly.of_arranged {ordered : Prop} {positions : List Nat} {nodes : List Node}
    (orderly : node.Orderly) (arranged : Arranged ordered node positions nodes)
    (isOrdered : ordered) :
    (∃ addresses : List Address, addresses.Nodup ∧ addresses.map node.nodeAt? = nodes.map some) ∧
      nodes.Pairwise fun first second => first.info.startByte ≤ second.info.startByte ∧
        first.info.endByte ≤ second.info.startByte := by
  obtain ⟨addresses, atAddresses, _, inOrder⟩ := arranged
  refine ⟨⟨addresses, (inOrder isOrdered).imp Address.Precedes.ne, atAddresses⟩, ?_⟩
  have apart : (addresses.map node.nodeAt?).Pairwise fun left right => ∀ first ∈ left,
      ∀ second ∈ right, first.info.startByte ≤ second.info.startByte ∧
        first.info.endByte ≤ second.info.startByte := by
    refine List.pairwise_map.mpr
      ((inOrder isOrdered).imp fun precedes first atFirst second atSecond => ?_)
    have apart := orderly.apart precedes atFirst atSecond
    have range := orderly.ranges first (inside_of_nodeAt? atFirst).mem_all
    exact ⟨Nat.le_trans range apart, apart⟩
  rw [atAddresses, List.pairwise_map] at apart
  exact apart.imp fun both => both _ rfl _ rfl

end Node

/-- The walks along chains collect the operands that the levels of the tree have, from left to right.
In a tree whose siblings follow each other these are different nodes, none of which starts before
the end of the one before it. -/
theorem chains_flattened (node : Node) (logical : Bool) :
    node.operatorChain logical = node.chain logical ∧ node.sequenceItems = node.items ∧
      (node.Orderly → node.LeftFirst →
        ∀ nodes ∈ [node.operatorChain logical, node.sequenceItems],
          (∃ addresses : List Address, addresses.Nodup ∧
            addresses.map node.nodeAt? = nodes.map some) ∧
          nodes.Pairwise fun first second => first.info.startByte ≤ second.info.startByte ∧
            first.info.endByte ≤ second.info.startByte) := by
  refine ⟨node.operatorChain_eq logical, node.sequenceItems_eq,
    fun orderly leftFirst nodes member => ?_⟩
  rw [node.operatorChain_eq, node.sequenceItems_eq] at member
  rcases List.mem_pair.mp member with rfl | rfl
  · obtain ⟨_, arranged⟩ := node.chain_arranged logical
    exact orderly.of_arranged arranged leftFirst
  · obtain ⟨_, arranged⟩ := node.items_arranged
    exact orderly.of_arranged arranged trivial

/-- Two sums in a row, and beside them a name. -/
theorem chains_flattened_sum :
    let name (start : Nat) : Node := .rule "identifier" start (start + 1) [] []
    let sum : Node := .rule "binary_expression" 0 9 ["left", "right"]
      [.rule "binary_expression" 0 5 ["left", "right"] [name 0, name 4], name 8]
    sum.Orderly ∧ sum.LeftFirst ∧ sum.operatorChain false = [name 0, name 4, name 8] ∧
      (sum.operatorChain false).Pairwise fun first second =>
        first.info.startByte ≤ second.info.startByte ∧
          first.info.endByte ≤ second.info.startByte := by
  intro name sum
  have orderly : sum.Orderly := ⟨by decide, by decide, by decide⟩
  have leftFirst : sum.LeftFirst := by
    unfold Node.LeftFirst
    decide
  obtain ⟨isChain, _, apart⟩ := chains_flattened sum false
  refine ⟨orderly, leftFirst, ?_, (apart orderly leftFirst _ (by simp)).2⟩
  rw [isChain, Node.chain_of_left false rfl, if_pos (by decide), Node.chain_of_left false rfl,
    if_neg (by decide)]
  rfl

end FunctionFlow
