import FunctionFlow.Project.Filter
import Mathlib.Data.List.Basic

/-!
Contract: which names a list of rules keeps, and in which order.
-/

namespace FunctionFlow

/-! ### Lists without repetitions -/

section

variable {α β : Type} [DecidableEq α]

theorem distinct_filter (test : α → Bool) (entries : List α) :
    distinct (entries.filter test) = (distinct entries).filter test := by
  induction entries with
  | nil => rfl
  | cons first rest inductionHypothesis =>
    have swapped : ((distinct rest).filter test).filter (· ≠ first) =
        ((distinct rest).filter (· ≠ first)).filter test := by
      rw [List.filter_filter, List.filter_filter]
      simp only [Bool.and_comm]
    by_cases passes : test first
    · rw [List.filter_cons_of_pos passes, distinct, distinct, List.filter_cons_of_pos passes,
        inductionHypothesis, swapped]
    · rw [List.filter_cons_of_neg passes, distinct, List.filter_cons_of_neg passes,
        inductionHypothesis, ← swapped]
      refine (List.filter_eq_self.mpr fun entry member => ?_).symm
      rw [decide_eq_true_eq]
      rintro rfl
      exact passes (List.mem_filter.mp member).2

theorem distinct_eq_self {entries : List α} (nodup : entries.Nodup) : distinct entries = entries := by
  induction nodup with
  | nil => rfl
  | @cons first rest apart _ inductionHypothesis =>
    rw [distinct, inductionHypothesis, List.filter_eq_self.mpr]
    exact fun entry member => decide_eq_true (apart entry member).symm

theorem distinct_sublist (entries : List α) : (distinct entries).Sublist entries := by
  induction entries with
  | nil => exact .slnil
  | cons first rest inductionHypothesis =>
    exact (List.filter_sublist.trans inductionHypothesis).cons_cons first

theorem distinct_append (front back : List α) :
    distinct (front ++ back) = distinct front ++ (distinct back).filter (· ∉ front) := by
  induction front with
  | nil => simp [distinct]
  | cons first rest inductionHypothesis =>
    simp only [List.cons_append, distinct, inductionHypothesis, List.filter_append,
      List.filter_filter, List.mem_cons, not_or, Bool.decide_and]

theorem pairwise_distinct_flatMap (f : β → List α) (yields : β → α → Bool)
    {before : α → α → Prop} {sources : List β}
    (mem : ∀ source ∈ sources, ∀ entry, entry ∈ f source ↔ yields source entry = true)
    (ordered : ∀ source ∈ sources, (f source).Pairwise before) :
    (distinct (sources.flatMap f)).Pairwise fun first second =>
      sources.findIdx (yields · first) < sources.findIdx (yields · second) ∨
        sources.findIdx (yields · first) = sources.findIdx (yields · second) ∧
          before first second := by
  induction sources with
  | nil => exact .nil
  | cons source rest inductionHypothesis =>
    obtain ⟨memHere, memLater⟩ := List.forall_mem_cons.mp mem
    obtain ⟨here, later⟩ := List.forall_mem_cons.mp ordered
    have isFirst {entry : α} (member : entry ∈ f source) :
        (source :: rest).findIdx (yields · entry) = 0 := by
      simp [List.findIdx_cons, (memHere entry).mp member]
    have isLater {entry : α} (member : entry ∈ (distinct (rest.flatMap f)).filter (· ∉ f source)) :
        (source :: rest).findIdx (yields · entry) = rest.findIdx (yields · entry) + 1 := by
      have absent : entry ∉ f source := by simpa using (List.mem_filter.mp member).2
      rw [memHere, Bool.not_eq_true] at absent
      simp [List.findIdx_cons, absent]
    rw [List.flatMap_cons, distinct_append, List.pairwise_append]
    refine ⟨?_, ?_, ?_⟩
    · refine (here.sublist (distinct_sublist _)).imp_of_mem fun first second isBefore => .inr ?_
      rw [mem_distinct] at first second
      exact ⟨(isFirst first).trans (isFirst second).symm, isBefore⟩
    · refine ((inductionHypothesis memLater later).filter _).imp_of_mem
        fun first second isBefore => ?_
      rw [isLater first, isLater second]
      exact isBefore.imp Nat.succ_lt_succ (And.imp_left (congrArg Nat.succ))
    · intro first isHere second isBack
      rw [isFirst (mem_distinct.mp isHere), isLater isBack]
      exact .inl (Nat.succ_pos _)

end

/-! ### The last match -/

/-- The rule is the last one that matches the name. -/
def FilterRule.Decides (rules : List FilterRule) (name : String) (rule : FilterRule) : Prop :=
  ∃ before after, rules = before ++ rule :: after ∧ rule.isMatch name ∧
    ∀ later ∈ after, ¬ later.isMatch name

namespace Filter

variable {rules more : List FilterRule} {name : String}

/-- The last rule that matches the name keeps it, or none matches. -/
def Keeps (rules : List FilterRule) (name : String) : Prop :=
  (∃ rule, FilterRule.Decides rules name rule ∧ rule.isInclude) ∨
    ∀ rule ∈ rules, ¬ rule.isMatch name

theorem decides_iff {rule : FilterRule} :
    rules.reverse.find? (·.isMatch name) = some rule ↔ FilterRule.Decides rules name rule := by
  rw [List.find?_eq_some_iff_append, FilterRule.Decides]
  constructor
  · rintro ⟨isMatch, front, back, split, none⟩
    refine ⟨back.reverse, front.reverse, ?_, isMatch, fun later member => ?_⟩
    · rw [← List.reverse_reverse rules, split]
      simp
    · simpa using none later (List.mem_reverse.mp member)
  · rintro ⟨before, after, rfl, isMatch, none⟩
    refine ⟨isMatch, after.reverse, before.reverse, by simp, fun later member => ?_⟩
    simpa using none later (List.mem_reverse.mp member)

theorem keeps_append : keeps (rules ++ more) name = true ↔
    (∃ rule, FilterRule.Decides more name rule ∧ rule.isInclude) ∨
      (∀ rule ∈ more, ¬ rule.isMatch name) ∧ keeps rules name = true := by
  rw [keeps, List.reverse_append, List.find?_append]
  cases found : more.reverse.find? (·.isMatch name) with
  | none =>
    have noMatch : ∀ rule ∈ more, ¬ rule.isMatch name := by simpa using found
    constructor
    · exact fun kept => .inr ⟨noMatch, kept⟩
    · rintro (⟨rule, decides, _⟩ | ⟨_, kept⟩)
      · cases found.symm.trans (decides_iff.mpr decides)
      · exact kept
  | some rule =>
    have decided := decides_iff.mp found
    constructor
    · exact fun isInclude => .inl ⟨rule, decided, isInclude⟩
    · rintro (⟨other, decides, isInclude⟩ | ⟨noMatch, _⟩)
      · cases found.symm.trans (decides_iff.mpr decides)
        exact isInclude
      · obtain ⟨_, _, rfl, isMatch, _⟩ := decided
        exact absurd isMatch (noMatch rule (by simp))

theorem keeps_iff : keeps rules name = true ↔ Keeps rules name :=
  (@keeps_append [] rules name).trans (or_congr_right (and_iff_left rfl))

theorem mem_choose {names : List String} :
    name ∈ choose rules names ↔ name ∈ names ∧ keeps rules name = true := by
  rw [choose, mem_distinct, List.mem_filter]

end Filter

open FunctionFlow.Filter in
/-- The chosen names are those whose last matching rule keeps them and those that no rule matches,
each once and in order of first occurrence. Choosing again changes nothing, and further rules have
the last word on the names that they match. -/
theorem filter_last_match (rules more : List FilterRule) (names : List String) :
    (choose rules names).Nodup ∧
    (∀ name, name ∈ choose rules names ↔ name ∈ names ∧ Keeps rules name) ∧
    (choose rules names).Pairwise (fun first second => names.idxOf first < names.idxOf second) ∧
    choose rules (choose rules names) = choose rules names ∧
    ∀ name, name ∈ choose (rules ++ more) names ↔ name ∈ names ∧
      ((∃ rule, FilterRule.Decides more name rule ∧ rule.isInclude) ∨
        (∀ rule ∈ more, ¬ rule.isMatch name) ∧ name ∈ choose rules names) := by
  refine ⟨nodup_distinct _, fun name => ?_, ?_, ?_, fun name => ?_⟩
  · rw [mem_choose, keeps_iff]
  · have ordered := pairwise_distinct_flatMap (fun name => [name]) (fun source name => source == name)
      (fun source (_ : source ∈ names) name => by rw [List.mem_singleton, beq_iff_eq, eq_comm])
      fun name _ => List.pairwise_singleton (fun _ _ => False) name
    rw [List.flatMap_singleton'] at ordered
    rw [choose, distinct_filter]
    exact (ordered.filter _).imp fun isBefore => isBefore.resolve_right And.right
  · rw [choose, List.filter_eq_self.mpr fun name member => (mem_choose.mp member).2]
    exact distinct_eq_self (nodup_distinct _)
  · rw [mem_choose, keeps_append, mem_choose]
    exact and_congr_right fun isName =>
      or_congr_right (and_congr_right fun _ => (and_iff_right isName).symm)

end FunctionFlow
