/-!
Contract: counting arguments.
-/

namespace FunctionFlow

def cells (height width : Nat) : List (Nat × Nat) :=
  (List.range height).flatMap fun row => (List.range width).map fun column => (row, column)

theorem mem_cells {height width : Nat} {cell : Nat × Nat} :
    cell ∈ cells height width ↔ cell.1 < height ∧ cell.2 < width := by
  obtain ⟨row, column⟩ := cell
  simp only [cells, List.mem_flatMap, List.mem_map, List.mem_range, Prod.mk.injEq]
  constructor
  · rintro ⟨_, below, _, inside, rfl, rfl⟩
    exact ⟨below, inside⟩
  · rintro ⟨below, inside⟩
    exact ⟨row, below, column, inside, rfl, rfl⟩

theorem countP_lt_of_imp {α : Type} {strong weak : α → Bool} {items : List α} {item : α}
    (member : item ∈ items) (implies : ∀ x, strong x = true → weak x = true)
    (holds : weak item = true) (fails : strong item = false) :
    items.countP strong < items.countP weak := by
  induction items with
  | nil => cases member
  | cons first rest inductionHypothesis =>
    have restLe : rest.countP strong ≤ rest.countP weak :=
      List.countP_mono_left fun x _ => implies x
    simp only [List.countP_cons]
    cases member with
    | head => simp only [holds, fails]; simp; omega
    | tail _ later =>
      have restLt := inductionHypothesis later
      have firstLe : (if strong first = true then 1 else 0) ≤ (if weak first = true then 1 else 0) := by
        by_cases atFirst : strong first = true
        · simp [atFirst, implies first atFirst]
        · simp [atFirst]
      omega

end FunctionFlow
