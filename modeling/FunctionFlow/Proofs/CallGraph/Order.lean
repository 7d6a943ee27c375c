import FunctionFlow.CallGraph.Basic
import Mathlib.Data.Prod.Lex
import Mathlib.Data.String.Basic

/-!
Contract: a call graph is determined by its pairs.

The order of vertices is that of their sort keys, read as a lexicographic product.
-/

namespace FunctionFlow

namespace Vertex

def rank (vertex : Vertex) : Nat ×ₗ Nat ×ₗ Nat ×ₗ String :=
  toLex (vertex.sortKey.1, toLex (vertex.sortKey.2.1,
    toLex (vertex.sortKey.2.2.1, vertex.sortKey.2.2.2)))

theorem sortKey_injective {left right : Vertex} (same : left.sortKey = right.sortKey) :
    left = right := by
  rcases left with _ | _ | _ | (_ | _ | _ | _ | _ | _ | _) <;>
    rcases right with _ | _ | _ | (_ | _ | _ | _ | _ | _ | _) <;>
      simp_all [sortKey]

theorem rank_injective {left right : Vertex} (same : left.rank = right.rank) : left = right := by
  apply sortKey_injective
  simp only [rank, toLex_inj, Prod.mk.injEq] at same
  obtain ⟨first, second, third, fourth⟩ := same
  exact Prod.ext first (Prod.ext second (Prod.ext third fourth))

theorem before_iff {left right : Vertex} : left.before right = true ↔ left.rank < right.rank := by
  simp only [before, keyBefore, rank, Prod.Lex.toLex_lt_toLex, Bool.or_eq_true, Bool.and_eq_true,
    decide_eq_true_eq, beq_iff_eq]

end Vertex

namespace CallGraph

variable {pairs : List (Vertex × Vertex)} {graph : CallGraph}

def pairRank (pair : Vertex × Vertex) :
    (Nat ×ₗ Nat ×ₗ Nat ×ₗ String) ×ₗ (Nat ×ₗ Nat ×ₗ Nat ×ₗ String) :=
  toLex (pair.1.rank, pair.2.rank)

theorem pairRank_injective {left right : Vertex × Vertex} (same : pairRank left = pairRank right) :
    left = right := by
  simp only [pairRank, toLex_inj, Prod.mk.injEq] at same
  exact Prod.ext (Vertex.rank_injective same.1) (Vertex.rank_injective same.2)

theorem pairBefore_iff {left right : Vertex × Vertex} :
    pairBefore left right = true ↔ pairRank left < pairRank right := by
  have sameCall : left.1 = right.1 ↔ left.1.rank = right.1.rank :=
    ⟨congrArg Vertex.rank, Vertex.rank_injective⟩
  simp only [pairBefore, pairRank, Prod.Lex.toLex_lt_toLex, Bool.or_eq_true, Bool.and_eq_true,
    Vertex.before_iff, beq_iff_eq, sameCall]

/-! ### Membership -/

theorem mem_insertPair {pair other : Vertex × Vertex} :
    other ∈ insertPair pair pairs ↔ other = pair ∨ other ∈ pairs := by
  induction pairs with
  | nil => simp [insertPair]
  | cons first rest inductionHypothesis =>
    simp only [insertPair]
    split
    · simp
    · split
      · rename_i same
        simp [same]
      · simp only [List.mem_cons, inductionHypothesis]
        exact or_left_comm

theorem mem_insertAll {pair : Vertex × Vertex} :
    pair ∈ (graph.insertAll pairs).pairs ↔ pair ∈ graph.pairs ∨ pair ∈ pairs := by
  unfold insertAll
  induction pairs generalizing graph with
  | nil => simp
  | cons first rest inductionHypothesis =>
    rw [List.foldl_cons, inductionHypothesis, insert, mem_insertPair, List.mem_cons]
    tauto

theorem mem_empty_insertAll {pair : Vertex × Vertex} :
    pair ∈ (empty.insertAll pairs).pairs ↔ pair ∈ pairs := by
  rw [mem_insertAll]
  exact or_iff_right List.not_mem_nil

/-! ### Order -/

def Increasing (graph : CallGraph) : Prop :=
  graph.pairs.Pairwise fun left right => pairRank left < pairRank right

theorem increasing_empty : empty.Increasing := .nil

theorem Increasing.insert (increasing : graph.Increasing) (pair : Vertex × Vertex) :
    (graph.insert pair).Increasing := by
  obtain ⟨pairs⟩ := graph
  unfold Increasing CallGraph.insert at *
  simp only at *
  induction pairs with
  | nil => simp [insertPair]
  | cons first rest inductionHypothesis =>
    obtain ⟨firstLeast, restIncreasing⟩ := List.pairwise_cons.mp increasing
    simp only [insertPair]
    split
    · rename_i isBefore
      have below := pairBefore_iff.mp isBefore
      refine List.pairwise_cons.mpr ⟨fun other member => ?_, increasing⟩
      rcases List.mem_cons.mp member with rfl | later
      · exact below
      · exact below.trans (firstLeast other later)
    · split
      · exact increasing
      · rename_i notBefore notSame
        have above : pairRank first < pairRank pair := by
          refine lt_of_le_of_ne (not_lt.mp fun below => notBefore (pairBefore_iff.mpr below)) ?_
          exact fun same => notSame (pairRank_injective same).symm
        refine List.pairwise_cons.mpr ⟨fun other member => ?_, inductionHypothesis restIncreasing⟩
        rcases mem_insertPair.mp member with rfl | later
        · exact above
        · exact firstLeast other later

theorem Increasing.insertAll (increasing : graph.Increasing) (pairs : List (Vertex × Vertex)) :
    (graph.insertAll pairs).Increasing := by
  unfold CallGraph.insertAll
  induction pairs generalizing graph with
  | nil => exact increasing
  | cons first rest inductionHypothesis => exact inductionHypothesis (increasing.insert first)

theorem Increasing.nodup (increasing : graph.Increasing) : graph.pairs.Nodup :=
  increasing.imp fun below equal => absurd (congrArg pairRank equal) (ne_of_lt below)

theorem Increasing.size_add (increasing : graph.Increasing) (pair : Vertex × Vertex) :
    (graph.add pair).2.size = graph.size + if (graph.add pair).1 then 1 else 0 := by
  have sameMembers (others : List (Vertex × Vertex)) (nodup : others.Nodup)
      (same : ∀ other, other ∈ others ↔ other = pair ∨ other ∈ graph.pairs) :
      (graph.insert pair).size = others.length := by
    refine ((List.perm_ext_iff_of_nodup (increasing.insert pair).nodup nodup).mpr fun other => ?_)
      |>.length_eq
    rw [same, CallGraph.insert, mem_insertPair]
  by_cases present : pair ∈ graph.pairs
  · rw [add, contains, List.contains_iff_mem.mpr present]
    exact sameMembers graph.pairs increasing.nodup fun other =>
      (or_iff_right_of_imp fun isPair => isPair ▸ present).symm
  · have absent : graph.contains pair = false := by simpa [contains] using present
    rw [add, absent]
    exact sameMembers (pair :: graph.pairs) (List.nodup_cons.mpr ⟨present, increasing.nodup⟩)
      fun other => List.mem_cons

theorem eq_of_pairs {left right : CallGraph} (leftIncreasing : left.Increasing)
    (rightIncreasing : right.Increasing) (same : ∀ pair, pair ∈ left.pairs ↔ pair ∈ right.pairs) :
    left = right := by
  have perm : left.pairs.Perm right.pairs :=
    (List.perm_ext_iff_of_nodup leftIncreasing.nodup rightIncreasing.nodup).mpr same
  have samePairs : left.pairs = right.pairs :=
    perm.eq_of_pairwise (fun _ _ _ _ below above => absurd below (lt_asymm above)) leftIncreasing
      rightIncreasing
  cases left
  cases right
  exact congrArg CallGraph.mk samePairs

end CallGraph

end FunctionFlow
