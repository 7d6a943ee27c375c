import FunctionFlow.Analysis.Facts
import Mathlib.Algebra.BigOperators.Group.Finset.Piecewise
import Mathlib.Data.List.Sort

/-!
Contract: the size and the shape of a table of facts.
-/

namespace FunctionFlow

/-! ### Increasing lists -/

theorem length_insertId {id : VertexId} {set : List VertexId} (absent : id ∉ set) :
    (insertId id set).length = set.length + 1 := by
  induction set with
  | nil => rfl
  | cons other rest inductionHypothesis =>
    rw [List.mem_cons, not_or] at absent
    by_cases below : id < other
    · rw [insertId, if_pos below, List.length_cons]
    · rw [insertId, if_neg below, if_neg absent.1, List.length_cons, List.length_cons,
        inductionHypothesis absent.2]

theorem pairwise_insertId {id : VertexId} {set : List VertexId}
    (increasing : set.Pairwise (· < ·)) : (insertId id set).Pairwise (· < ·) := by
  induction set with
  | nil => simp [insertId]
  | cons first rest inductionHypothesis =>
    obtain ⟨firstLeast, restIncreasing⟩ := List.pairwise_cons.mp increasing
    simp only [insertId]
    split
    · rename_i below
      apply List.pairwise_cons.mpr ⟨_, increasing⟩
      intro other member
      rcases List.mem_cons.mp member with same | later
      · exact same ▸ below
      · exact Nat.lt_trans below (firstLeast other later)
    · split
      · exact increasing
      · rename_i notBelow apart
        apply List.pairwise_cons.mpr ⟨_, inductionHypothesis restIncreasing⟩
        intro other member
        rcases mem_insertId.mp member with same | later
        · subst same
          exact Nat.lt_of_le_of_ne (Nat.le_of_not_lt notBelow) (Ne.symm apart)
        · exact firstLeast other later

theorem pairwise_insertIds {ids set : List VertexId} (increasing : set.Pairwise (· < ·)) :
    (insertIds ids set).Pairwise (· < ·) := by
  unfold insertIds
  induction ids generalizing set with
  | nil => exact increasing
  | cons first rest inductionHypothesis => exact inductionHypothesis (pairwise_insertId increasing)

theorem length_insertNew {set values : List VertexId} :
    (insertNew set values).2.length = set.length + (insertNew set values).1.length := by
  induction values generalizing set with
  | nil => rfl
  | cons value rest inductionHypothesis =>
    by_cases present : set.contains value = true
    · rw [insertNew, if_pos present, inductionHypothesis]
    · have absent : value ∉ set := by simpa using present
      rw [insertNew, if_neg present]
      show (insertNew (insertId value set) rest).2.length =
        set.length + ((insertNew (insertId value set) rest).1.length + 1)
      rw [inductionHypothesis, length_insertId absent]
      omega

theorem pairwise_insertNew {set values : List VertexId} (increasing : set.Pairwise (· < ·)) :
    (insertNew set values).2.Pairwise (· < ·) := by
  induction values generalizing set with
  | nil => exact increasing
  | cons value rest inductionHypothesis =>
    by_cases present : set.contains value = true
    · rw [insertNew, if_pos present]
      exact inductionHypothesis increasing
    · rw [insertNew, if_neg present]
      exact inductionHypothesis (pairwise_insertId increasing)

namespace FactTable

def count (table : FactTable) : Nat :=
  ∑ vertex ∈ Finset.range table.rows.size, (table.row vertex).length

def Ordered (table : FactTable) : Prop :=
  ∀ vertex, (table.row vertex).Pairwise (· < ·)

variable {table grown : FactTable} {vertex : VertexId} {values fresh : List VertexId}

/-! ### The number of facts -/

theorem count_congr (same : ∀ vertex, grown.row vertex = table.row vertex) :
    grown.count = table.count := by
  -- Rows past the end of a table are empty, so both counts run over the longer table.
  have countUpTo {some : FactTable} {size : Nat} (enough : some.rows.size ≤ size) :
      some.count = ∑ vertex ∈ Finset.range size, (some.row vertex).length := by
    refine Finset.sum_subset (Finset.range_subset_range.mpr enough) fun vertex _ outside => ?_
    have past : some.rows.size ≤ vertex := by simpa using outside
    rw [row, Array.getElem?_eq_none past, Option.getD_none, List.length_nil]
  rw [countUpTo (Nat.le_max_left grown.rows.size table.rows.size),
    countUpTo (Nat.le_max_right grown.rows.size table.rows.size)]
  exact Finset.sum_congr rfl fun vertex _ => by rw [same]

theorem count_insertAll (inserted : table.insertAll vertex values = .ok (fresh, grown)) :
    grown.count = table.count + fresh.length := by
  obtain ⟨below, isFresh, _⟩ := insertAll_eq_ok.mp inserted
  have lengths (other : VertexId) :
      (grown.row other).length =
        (table.row other).length + if vertex = other then fresh.length else 0 := by
    rw [row_insertAll inserted]
    by_cases same : vertex = other
    · subst same
      rw [if_pos rfl, if_pos rfl, length_insertNew, isFresh]
    · rw [if_neg (Ne.symm same), if_neg same, Nat.add_zero]
  unfold count
  rw [rows_size_insertAll inserted, Finset.sum_congr rfl fun other _ => lengths other,
    Finset.sum_add_distrib, Finset.sum_ite_eq, if_pos (Finset.mem_range.mpr below)]

theorem row_unknown (size : Nat) (vertex : VertexId) : (unknown size).row vertex = [] := by
  unfold unknown row
  by_cases below : vertex < size
  · simp [below]
  · simp [below]

theorem count_unknown (size : Nat) : (unknown size).count = 0 := by
  unfold count
  simp [row_unknown]

/-! ### Ordered rows -/

theorem ordered_unknown (size : Nat) : (unknown size).Ordered := by
  intro vertex
  rw [row_unknown]
  exact .nil

theorem Ordered.insertAll (ordered : table.Ordered)
    (inserted : table.insertAll vertex values = .ok (fresh, grown)) : grown.Ordered := by
  intro other
  rw [row_insertAll inserted]
  by_cases same : other = vertex
  · rw [if_pos same]
    exact pairwise_insertNew (ordered vertex)
  · rw [if_neg same]
    exact ordered other

theorem Ordered.nodup (ordered : table.Ordered) (vertex : VertexId) : (table.row vertex).Nodup :=
  (ordered vertex).imp Nat.ne_of_lt

theorem Ordered.count_eq (ordered : table.Ordered) :
    table.count = ∑ vertex ∈ Finset.range table.rows.size, (table.row vertex).toFinset.card := by
  refine Finset.sum_congr rfl fun vertex _ => ?_
  exact (List.toFinset_card_of_nodup (ordered.nodup vertex)).symm

theorem Ordered.ext {other : FactTable} (ordered : table.Ordered) (otherOrdered : other.Ordered)
    (size : table.rows.size = other.rows.size)
    (same : ∀ vertex < table.rows.size, ∀ value,
      value ∈ table.row vertex ↔ value ∈ other.row vertex) :
    table = other := by
  have rows (vertex : VertexId) (below : vertex < table.rows.size) :
      table.row vertex = other.row vertex := by
    have perm : (table.row vertex).Perm (other.row vertex) :=
      (List.perm_ext_iff_of_nodup (ordered.nodup vertex) (otherOrdered.nodup vertex)).mpr
        (same vertex below)
    exact perm.eq_of_pairwise (fun _ _ _ _ below above => absurd below (Nat.lt_asymm above))
      (ordered vertex) (otherOrdered vertex)
  obtain ⟨tableRows⟩ := table
  obtain ⟨otherRows⟩ := other
  refine congrArg FactTable.mk (Array.ext size fun vertex below belowToo => ?_)
  simpa [row, below, belowToo] using rows vertex below

end FactTable

end FunctionFlow
