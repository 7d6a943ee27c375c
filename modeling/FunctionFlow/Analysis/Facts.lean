import FunctionFlow.Counting
import FunctionFlow.Id

/-!
Contract: sets of vertices, and a table of such sets.

Reading or extending the facts of a vertex fails if the table has no row for it.
-/

namespace FunctionFlow

def insertId (id : VertexId) : List VertexId → List VertexId
  | [] => [id]
  | other :: rest =>
    if id < other then id :: other :: rest
    else if id = other then other :: rest
    else other :: insertId id rest

def insertIds (ids set : List VertexId) : List VertexId :=
  ids.foldl (fun union id => insertId id union) set

theorem mem_insertId {id other : VertexId} {set : List VertexId} :
    other ∈ insertId id set ↔ other = id ∨ other ∈ set := by
  induction set with
  | nil => simp [insertId]
  | cons first rest inductionHypothesis =>
    simp only [insertId]
    split
    · simp
    · split
      · rename_i same
        simp [same]
      · simp only [List.mem_cons, inductionHypothesis]
        constructor
        · rintro (h | h | h) <;> simp [h]
        · rintro (h | h | h) <;> simp [h]

theorem mem_insertIds {ids set : List VertexId} {id : VertexId} :
    id ∈ insertIds ids set ↔ id ∈ ids ∨ id ∈ set := by
  unfold insertIds
  induction ids generalizing set with
  | nil => simp
  | cons first rest inductionHypothesis =>
    rw [List.foldl_cons, inductionHypothesis, mem_insertId, List.mem_cons, or_left_comm, or_assoc]

/-- Puts `values` into a set. Gives those that were not there, and the set with them. -/
def insertNew (set : List VertexId) : List VertexId → List VertexId × List VertexId
  | [] => ([], set)
  | value :: rest =>
    if set.contains value then insertNew set rest
    else
      let (fresh, union) := insertNew (insertId value set) rest
      (value :: fresh, union)

theorem mem_insertNew {set values : List VertexId} {known : VertexId} :
    known ∈ (insertNew set values).2 ↔ known ∈ values ∨ known ∈ set := by
  induction values generalizing set with
  | nil => simp [insertNew]
  | cons value rest inductionHypothesis =>
    simp only [insertNew]
    split
    · rename_i present
      have inSet : value ∈ set := by simpa using present
      rw [inductionHypothesis, List.mem_cons]
      constructor
      · rintro (later | before)
        · exact .inl (.inr later)
        · exact .inr before
      · rintro ((rfl | later) | before)
        · exact .inr inSet
        · exact .inl later
        · exact .inr before
    · rw [inductionHypothesis, mem_insertId, List.mem_cons, or_left_comm, or_assoc]

theorem mem_fresh_insertNew {set values : List VertexId} {known : VertexId} :
    known ∈ (insertNew set values).1 ↔ known ∈ values ∧ known ∉ set := by
  induction values generalizing set with
  | nil => simp [insertNew]
  | cons value rest inductionHypothesis =>
    simp only [insertNew]
    split
    · rename_i present
      have inSet : value ∈ set := by simpa using present
      rw [inductionHypothesis, List.mem_cons]
      constructor
      · rintro ⟨later, absent⟩
        exact ⟨.inr later, absent⟩
      · rintro ⟨rfl | later, absent⟩
        · exact absurd inSet absent
        · exact ⟨later, absent⟩
    · rename_i missing
      have notInSet : value ∉ set := by simpa using missing
      rw [List.mem_cons, inductionHypothesis, mem_insertId, List.mem_cons]
      constructor
      · rintro (rfl | ⟨later, absent⟩)
        · exact ⟨.inl rfl, notInSet⟩
        · exact ⟨.inr later, fun before => absent (.inr before)⟩
      · rintro ⟨rfl | later, absent⟩
        · exact .inl rfl
        · by_cases same : known = value
          · exact .inl same
          · exact .inr ⟨later, fun either => either.elim same absent⟩

/-- A bound that is above every value of a list. -/
def above (values : List VertexId) : Nat :=
  values.foldr (fun value bound => max (value + 1) bound) 0

theorem above_le_iff {values : List VertexId} {bound : Nat} :
    above values ≤ bound ↔ ∀ value ∈ values, value < bound := by
  induction values with
  | nil => simp [above]
  | cons value rest inductionHypothesis =>
    have split : above (value :: rest) = max (value + 1) (above rest) := rfl
    rw [split, Nat.max_le, inductionHypothesis, List.forall_mem_cons, Nat.succ_le_iff]

/-- A table with `size` entries: what `table` has of them, and `fill` in the places after it. -/
def resize {α : Type} (table : Array α) (size : Nat) (fill : α) : Array α :=
  table.take size ++ Array.replicate (size - table.size) fill

theorem getElem?_resize {α : Type} {table : Array α} {size : Nat} {fill : α} {place : Nat} :
    (resize table size fill)[place]? =
      if place < size then some (table[place]?.getD fill) else none := by
  unfold resize
  by_cases inTable : place < table.size
  · by_cases below : place < size
    · rw [Array.getElem?_append_left (by simp; omega), if_pos below, Array.getElem?_extract,
        if_pos (by omega), Nat.zero_add, Array.getElem?_eq_getElem inTable, Option.getD_some]
    · rw [Array.getElem?_eq_none (by simp; omega), if_neg below]
  · have past : table.size ≤ place := Nat.le_of_not_lt inTable
    by_cases below : place < size
    · rw [Array.getElem?_append_right (by simp; omega), if_pos below,
        Array.getElem?_eq_none past, Array.getElem?_replicate,
        if_pos (by simp; omega), Option.getD_none]
    · rw [Array.getElem?_eq_none (by simp; omega), if_neg below]

/-- The values known to reach each vertex. -/
structure FactTable where
  rows : Array (List VertexId)
  deriving DecidableEq, Repr, Inhabited

namespace FactTable

def unknown (size : Nat) : FactTable := ⟨Array.replicate size []⟩

def get (table : FactTable) (vertex : VertexId) : Checked (List VertexId) :=
  fetch table.rows vertex (.vertex vertex)

/-- Takes up the facts that `values` reach `vertex`, and lists those that are new. -/
def insertAll (table : FactTable) (vertex : VertexId) (values : List VertexId) :
    Checked (List VertexId × FactTable) := do
  let (fresh, union) := insertNew (← table.get vertex) values
  return (fresh, ⟨table.rows.setIfInBounds vertex union⟩)

/-- The values known to reach a vertex; none where the table has no row. -/
def row (table : FactTable) (vertex : VertexId) : List VertexId :=
  table.rows[vertex]?.getD []

def holds (table : FactTable) (vertex value : VertexId) : Bool :=
  (table.row vertex).contains value

/-- The number of facts, about vertices below `height` and values below `width`, that the table
lacks. -/
def missing (table : FactTable) (height width : Nat) : Nat :=
  (cells height width).countP fun cell => !table.holds cell.1 cell.2

section

variable {table grown : FactTable} {vertex value : VertexId} {values fresh : List VertexId}

theorem mem_row : value ∈ table.row vertex ↔ table.holds vertex value = true := by
  simp [holds]

theorem get_eq_ok (below : vertex < table.rows.size) : table.get vertex = .ok (table.row vertex) := by
  refine fetch_eq_ok.mpr ?_
  rw [row, Array.getElem?_eq_getElem below, Option.getD_some]

theorem row_of_get (found : table.get vertex = .ok values) : table.row vertex = values := by
  rw [row, fetch_eq_ok.mp found, Option.getD_some]

theorem insertAll_eq_ok :
    table.insertAll vertex values = .ok (fresh, grown) ↔
      vertex < table.rows.size ∧ fresh = (insertNew (table.row vertex) values).1 ∧
        grown = ⟨table.rows.setIfInBounds vertex (insertNew (table.row vertex) values).2⟩ := by
  constructor
  · intro inserted
    obtain ⟨before, found, inserted⟩ := Checked.bind_eq_ok.mp inserted
    cases inserted
    rw [row_of_get found]
    exact ⟨lt_of_fetch found, rfl, rfl⟩
  · rintro ⟨below, rfl, rfl⟩
    exact Checked.bind_eq_ok.mpr ⟨_, get_eq_ok below, rfl⟩

theorem row_insertAll (inserted : table.insertAll vertex values = .ok (fresh, grown))
    (other : VertexId) :
    grown.row other =
      if other = vertex then (insertNew (table.row vertex) values).2 else table.row other := by
  obtain ⟨below, _, rfl⟩ := insertAll_eq_ok.mp inserted
  unfold row
  by_cases same : other = vertex
  · subst same
    simp [below]
  · have apart : vertex ≠ other := fun eq => same eq.symm
    simp [apart, same]

theorem rows_size_insertAll (inserted : table.insertAll vertex values = .ok (fresh, grown)) :
    grown.rows.size = table.rows.size := by
  obtain ⟨_, _, rfl⟩ := insertAll_eq_ok.mp inserted
  exact Array.size_setIfInBounds

theorem holds_insertAll (inserted : table.insertAll vertex values = .ok (fresh, grown))
    (other known : VertexId) :
    grown.holds other known = true ↔
      (other = vertex ∧ known ∈ values) ∨ table.holds other known = true := by
  rw [← mem_row, ← mem_row, row_insertAll inserted]
  by_cases same : other = vertex
  · subst same
    simp [mem_insertNew]
  · simp [same]

theorem mem_fresh (inserted : table.insertAll vertex values = .ok (fresh, grown)) :
    value ∈ fresh ↔ value ∈ values ∧ table.holds vertex value = false := by
  obtain ⟨_, rfl, _⟩ := insertAll_eq_ok.mp inserted
  rw [mem_fresh_insertNew, ← Bool.not_eq_true, mem_row]

theorem missing_congr {height width : Nat} (same : ∀ vertex, grown.row vertex = table.row vertex) :
    grown.missing height width = table.missing height width := by
  unfold missing holds
  simp only [same]

theorem missing_lt_of_insertAll {height width : Nat}
    (inserted : table.insertAll vertex values = .ok (fresh, grown)) (isFresh : value ∈ fresh)
    (vertexBelow : vertex < height) (valueBelow : value < width) :
    grown.missing height width < table.missing height width := by
  obtain ⟨offered, unknown⟩ := (mem_fresh inserted).mp isFresh
  have holdsIff := holds_insertAll inserted
  have inside : (vertex, value) ∈ cells height width := mem_cells.mpr ⟨vertexBelow, valueBelow⟩
  refine countP_lt_of_imp inside (fun cell => ?_) ?_ ?_
  · intro unknownAfter
    have notAfter : ¬ grown.holds cell.1 cell.2 = true := by simpa using unknownAfter
    have notBefore : ¬ table.holds cell.1 cell.2 = true := fun known =>
      notAfter ((holdsIff _ _).mpr (.inr known))
    simpa using notBefore
  · simp [unknown]
  · simp [(holdsIff vertex value).mpr (.inl ⟨rfl, offered⟩)]

end

end FactTable

end FunctionFlow
