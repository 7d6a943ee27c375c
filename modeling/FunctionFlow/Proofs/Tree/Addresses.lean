import FunctionFlow.Proofs.Tree.Ranges
import Mathlib.Data.List.Nodup

/-!
Contract: the places of a tree's nodes.

Two nodes of a tree may be equal as trees. Addresses tell them apart.
-/

namespace FunctionFlow

/-- The way down to a node of a tree, as positions among children. -/
abbrev Address := List Nat

namespace Node

def nodeAt? (root : Node) : Address → Option Node
  | [] => some root
  | position :: rest => root.children[position]?.bind (·.nodeAt? rest)

variable {node : Node}

/-! ### Field names -/

/-- No node has two field names. -/
def Labelled (root : Node) : Prop :=
  ∀ node ∈ root.all, (node.info.fields.map Prod.snd).Nodup

instance (root : Node) : Decidable root.Labelled :=
  inferInstanceAs (Decidable (∀ node ∈ root.all, (node.info.fields.map Prod.snd).Nodup))

theorem Labelled.child {child : Node} (labelled : node.Labelled) (member : child ∈ node.children) :
    child.Labelled :=
  fun inner isInner => labelled inner (mem_all_of_child member isInner)

theorem lookup_injective {fields : List (String × Nat)} (distinct : (fields.map Prod.snd).Nodup)
    {first second : String} {position : Nat} (isFirst : fields.lookup first = some position)
    (isSecond : fields.lookup second = some position) : first = second := by
  have mem_of_lookup {name : String} (isPosition : fields.lookup name = some position) :
      (name, position) ∈ fields := by
    obtain ⟨before, after, rfl, _⟩ := List.lookup_eq_some_iff.mp isPosition
    simp
  have same :=
    List.inj_on_of_nodup_map distinct (mem_of_lookup isFirst) (mem_of_lookup isSecond) rfl
  exact congrArg Prod.fst same

/-! ### All nodes with their addresses -/

def under (position : Nat) (entry : Address × Node) : Address × Node :=
  (position :: entry.1, entry.2)

mutual
/-- The nodes of a tree with their addresses, parents before children. -/
def located : Node → List (Address × Node)
  | mk info children => ([], mk info children) :: locatedFrom 0 children
def locatedFrom : (position : Nat) → List Node → List (Address × Node)
  | _, [] => []
  | position, first :: rest => first.located.map (under position) ++ locatedFrom (position + 1) rest
end

mutual
theorem map_snd_located (node : Node) : node.located.map Prod.snd = node.all := by
  cases node with
  | mk info children => rw [located, all, List.map_cons, map_snd_locatedFrom]
theorem map_snd_locatedFrom (position : Nat) (nodes : List Node) :
    (locatedFrom position nodes).map Prod.snd = allOf nodes := by
  cases nodes with
  | nil => rfl
  | cons first rest =>
    rw [locatedFrom, allOf, List.map_append, List.map_map, map_snd_locatedFrom, ← map_snd_located]
    rfl
end

theorem mem_locatedFrom {nodes : List Node} {position : Nat} {entry : Address × Node} :
    entry ∈ locatedFrom position nodes ↔ ∃ offset child, nodes[offset]? = some child ∧
      ∃ inner ∈ child.located, under (position + offset) inner = entry := by
  induction nodes generalizing position with
  | nil => simp [locatedFrom]
  | cons first rest inductionHypothesis =>
    rw [locatedFrom, List.mem_append, List.mem_map, inductionHypothesis]
    constructor
    · rintro (⟨inner, isInner, rfl⟩ | ⟨offset, child, isChild, inner, isInner, rfl⟩)
      · exact ⟨0, first, rfl, inner, isInner, rfl⟩
      · exact ⟨offset + 1, child, isChild, inner, isInner, by rw [Nat.add_right_comm]; rfl⟩
    · rintro ⟨offset, child, isChild, inner, isInner, rfl⟩
      cases offset with
      | zero =>
        cases isChild
        exact .inl ⟨inner, isInner, rfl⟩
      | succ offset =>
        exact .inr ⟨offset, child, isChild, inner, isInner, by rw [Nat.add_right_comm]; rfl⟩

theorem located_eq (node : Node) : node.located = ([], node) :: locatedFrom 0 node.children := by
  cases node with
  | mk info children =>
    rw [located]
    rfl

theorem mem_located {entry : Address × Node} :
    entry ∈ node.located ↔ node.nodeAt? entry.1 = some entry.2 := by
  induction node using induction_children generalizing entry with
  | step node inductionHypothesis =>
    obtain ⟨address, found⟩ := entry
    rw [located_eq, List.mem_cons, mem_locatedFrom]
    cases address with
    | nil => simp [nodeAt?, under, eq_comm]
    | cons position address =>
      simp only [nodeAt?, Option.bind_eq_some_iff, under, Nat.zero_add, Prod.mk.injEq, reduceCtorEq,
        false_and, false_or, List.cons.injEq]
      constructor
      · rintro ⟨_, child, isChild, inner, isInner, ⟨rfl, rfl⟩, rfl⟩
        exact ⟨child, isChild,
          (inductionHypothesis child (List.mem_of_getElem? isChild)).mp isInner⟩
      · rintro ⟨child, isChild, isInner⟩
        exact ⟨position, child, isChild, (address, found),
          (inductionHypothesis child (List.mem_of_getElem? isChild)).mpr isInner, ⟨rfl, rfl⟩, rfl⟩

mutual
theorem located_nodup (node : Node) : node.located.Nodup := by
  cases node with
  | mk info children =>
    rw [located, List.nodup_cons]
    refine ⟨?_, locatedFrom_nodup 0 children⟩
    intro member
    obtain ⟨_, _, _, _, _, same⟩ := mem_locatedFrom.mp member
    cases congrArg Prod.fst same
theorem locatedFrom_nodup (position : Nat) (nodes : List Node) :
    (locatedFrom position nodes).Nodup := by
  cases nodes with
  | nil => exact .nil
  | cons first rest =>
    rw [locatedFrom]
    refine List.Nodup.append ?_ (locatedFrom_nodup (position + 1) rest) ?_
    · refine (located_nodup first).map ?_
      intro left right same
      simpa [under, Prod.ext_iff] using same
    · intro entry isFirst isLater
      obtain ⟨inner, _, rfl⟩ := List.mem_map.mp isFirst
      obtain ⟨offset, _, _, _, _, same⟩ := mem_locatedFrom.mp isLater
      have samePosition := (List.cons.inj (congrArg Prod.fst same)).1
      omega
end

end Node

end FunctionFlow
