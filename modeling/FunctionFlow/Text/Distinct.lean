/-!
Contract: lists without repetitions.
-/

namespace FunctionFlow

def distinct {α : Type} [DecidableEq α] : List α → List α
  | [] => []
  | first :: rest => first :: (distinct rest).filter (· ≠ first)

theorem mem_distinct {α : Type} [DecidableEq α] {entry : α} {entries : List α} :
    entry ∈ distinct entries ↔ entry ∈ entries := by
  induction entries with
  | nil => exact Iff.rfl
  | cons first rest inductionHypothesis =>
    by_cases same : entry = first <;> simp [distinct, same, inductionHypothesis]

theorem nodup_distinct {α : Type} [DecidableEq α] (entries : List α) :
    (distinct entries).Nodup := by
  induction entries with
  | nil => exact List.nodup_nil
  | cons first rest inductionHypothesis =>
    refine List.nodup_cons.mpr ⟨?_, inductionHypothesis.filter _⟩
    simp

end FunctionFlow
