import FunctionFlow.Pattern.Basic

/-!
Contract: what patterns match, and that the search finds it.

`Pattern.Matches` puts no bound on the rounds of a repetition, where `Pattern.ends` stops after as
many rounds as the text has places. `Pattern.mem_ends` says that both agree: a round that does not
move can be left out, and it can be made as often as wanted.
-/

namespace FunctionFlow

/-- So many rounds lead from `start` to `stop`. -/
def Rounds (round : Nat → Nat → Prop) : (count start stop : Nat) → Prop
  | 0, start, stop => start = stop
  | count + 1, start, stop => ∃ middle, round start middle ∧ Rounds round count middle stop

/-- The pattern matches the characters from `start` to `stop`. -/
def Pattern.Matches (text : Array Char) : Pattern → (start stop : Nat) → Prop
  | empty, start, stop => start = stop
  | one set, start, stop => set.containsSome text[start]? = true ∧ start + 1 = stop
  | check assertion, start, stop => assertion.holds text start = true ∧ start = stop
  | both first second, start, stop =>
    ∃ middle, first.Matches text start middle ∧ second.Matches text middle stop
  | either first second, start, stop =>
    first.Matches text start stop ∨ second.Matches text start stop
  | repeated least most inner, start, stop =>
    ∃ further, (∀ limit ∈ most, further ≤ limit - least) ∧
      Rounds (inner.Matches text) (least + further) start stop
  | captured inner, start, stop => inner.Matches text start stop

namespace CharSet

theorem contains_single {wanted char : Char} :
    (single wanted).contains char = true ↔ char = wanted := by
  rw [← Char.toNat_inj]
  simp only [contains, containsCode, single, range, holdsCode, Bool.or_false, Bool.and_eq_true,
    decide_eq_true_eq]
  omega

theorem contains_anything (char : Char) : anything.contains char = true := by
  have below : char.toNat ≤ lastCode := by
    rcases char.valid with low | high
    · exact Nat.le_trans (Nat.le_of_lt low) (by decide)
    · exact Nat.le_of_lt_succ high.2
  simp [contains, containsCode, anything, holdsCode, below]

end CharSet

/-! ### Rounds -/

namespace Rounds

variable {round : Nat → Nat → Prop} {count start stop : Nat}

theorem add_iff {first second : Nat} : Rounds round (first + second) start stop ↔
    ∃ middle, Rounds round first start middle ∧ Rounds round second middle stop := by
  induction first generalizing start with
  | zero => simp [Rounds]
  | succ first inductionHypothesis =>
    rw [Nat.add_right_comm]
    simp only [Rounds, inductionHypothesis]
    grind

theorem stay (stays : round start start) (count : Nat) : Rounds round count start start := by
  induction count with
  | zero => rfl
  | succ count inductionHypothesis => exact ⟨start, stays, inductionHypothesis⟩

section

variable {size : Nat} (advances : ∀ start stop, round start stop →
  start ≤ stop ∧ (start = stop ∨ stop ≤ size))
include advances

theorem forward (rounds : Rounds round count start stop) :
    start ≤ stop ∧ (start = stop ∨ stop ≤ size) := by
  induction count generalizing start with
  | zero => exact ⟨Nat.le_of_eq rounds, .inl rounds⟩
  | succ count inductionHypothesis =>
    obtain ⟨middle, first, rest⟩ := rounds
    have := advances start middle first
    have := inductionHypothesis rest
    omega

theorem shorten (rounds : Rounds round count start stop) :
    ∃ fewer ≤ count, fewer ≤ stop - start ∧ Rounds round fewer start stop := by
  induction count generalizing start with
  | zero => exact ⟨0, Nat.le_refl 0, Nat.zero_le _, rounds⟩
  | succ count inductionHypothesis =>
    obtain ⟨middle, first, rest⟩ := rounds
    obtain ⟨fewer, fewerRounds, short, shorter⟩ := inductionHypothesis rest
    by_cases moves : start = middle
    · exact ⟨fewer, by omega, by omega, moves ▸ shorter⟩
    · have := advances start middle first
      have := rest.forward advances
      exact ⟨fewer + 1, by omega, by omega, middle, first, shorter⟩

/-- Among more rounds than there are steps from `start` to `stop`, one does not move, and it can be
made as often as wanted. -/
theorem stretch (rounds : Rounds round count start stop) (long : stop - start < count)
    {other : Nat} (enough : stop - start ≤ other) : Rounds round other start stop := by
  induction count generalizing start other with
  | zero => omega
  | succ count inductionHypothesis =>
    obtain ⟨middle, first, rest⟩ := rounds
    by_cases moves : start = middle
    · obtain ⟨fewer, _, short, shorter⟩ := rest.shorten advances
      subst moves
      obtain ⟨more, rfl⟩ := Nat.exists_eq_add_of_le (Nat.le_trans short enough)
      rw [Nat.add_comm]
      exact add_iff.mpr ⟨start, stay first more, shorter⟩
    · have := advances start middle first
      have := rest.forward advances
      cases other with
      | zero => omega
      | succ other => exact ⟨middle, first, inductionHypothesis rest (by omega) (by omega)⟩

theorem min_iff :
    Rounds round (min count (size + 1)) start stop ↔ Rounds round count start stop := by
  by_cases within : count ≤ size + 1
  · rw [Nat.min_eq_left within]
  · rw [Nat.min_eq_right (by omega)]
    constructor
    · intro rounds
      have := rounds.forward advances
      exact rounds.stretch advances (by omega) (by omega)
    · intro rounds
      have := rounds.forward advances
      exact rounds.stretch advances (by omega) (by omega)

end

end Rounds

/-! ### Places -/

theorem mem_addPlaces {places more : List Nat} {place : Nat} :
    place ∈ addPlaces places more ↔ place ∈ places ∨ place ∈ more := by
  unfold addPlaces
  induction more generalizing places with
  | nil => simp
  | cons first rest inductionHypothesis =>
    rw [List.foldl_cons, inductionHypothesis, List.mem_cons]
    by_cases known : places.contains first
    · rw [if_pos known]
      grind
    · rw [if_neg known]
      grind

section

variable {step : List Nat → List Nat} {round : Nat → Nat → Prop}
  (isStep : ∀ places {stop}, stop ∈ step places ↔ ∃ start ∈ places, round start stop)
include isStep

theorem mem_takeSteps {count : Nat} {places : List Nat} {stop : Nat} :
    stop ∈ takeSteps step count places ↔ ∃ start ∈ places, Rounds round count start stop := by
  induction count generalizing places with
  | zero => simp [takeSteps, Rounds]
  | succ count inductionHypothesis =>
    simp only [takeSteps, inductionHypothesis, isStep, Rounds]
    grind

/-- Where the places in `found` that are not among the newest lead has been found before. -/
theorem mem_spread {count : Nat} {newest found : List Nat} (known : newest ⊆ found)
    (closed : ∀ start ∈ found, start ∉ newest → ∀ stop, round start stop → stop ∈ found)
    {stop : Nat} : stop ∈ spread step count newest found ↔
      ∃ rounds ≤ count, ∃ start ∈ found, Rounds round rounds start stop := by
  induction count generalizing newest found with
  | zero => simp [spread, Rounds]
  | succ count inductionHypothesis =>
    unfold spread
    extract_lets next
    have mem_next {place : Nat} : place ∈ next ↔
        (∃ start ∈ newest, round start place) ∧ place ∉ found := by
      simp [next, isStep]
    have leads : ∀ start ∈ found, ∀ stop, round start stop → stop ∈ found ∨ stop ∈ next := by
      grind
    by_cases noneNew : next.isEmpty
    · rw [if_pos noneNew]
      have stays : ∀ start ∈ found, ∀ stop, round start stop → stop ∈ found := by
        simpa [List.isEmpty_iff.mp noneNew] using leads
      constructor
      · exact fun isFound => ⟨0, Nat.zero_le _, stop, isFound, rfl⟩
      · rintro ⟨rounds, _, start, isFound, leadsTo⟩
        clear inductionHypothesis
        induction rounds generalizing start with
        | zero => exact leadsTo ▸ isFound
        | succ rounds inductionHypothesis =>
          obtain ⟨middle, first, rest⟩ := leadsTo
          exact inductionHypothesis (by omega) middle (stays start isFound middle first) rest
    · rw [if_neg noneNew, inductionHypothesis (fun _ isNext => mem_addPlaces.mpr (.inr isNext))]
      · constructor
        · rintro ⟨rounds, within, start, isStart, leadsTo⟩
          rcases mem_addPlaces.mp isStart with isFound | isNext
          · exact ⟨rounds, by omega, start, isFound, leadsTo⟩
          · obtain ⟨⟨before, isNewest, first⟩, _⟩ := mem_next.mp isNext
            exact ⟨rounds + 1, by omega, before, known isNewest, start, first, leadsTo⟩
        · rintro ⟨rounds, within, start, isFound, leadsTo⟩
          cases rounds with
          | zero => exact ⟨0, Nat.zero_le _, start, mem_addPlaces.mpr (.inl isFound), leadsTo⟩
          | succ rounds =>
            obtain ⟨middle, first, rest⟩ := leadsTo
            exact ⟨rounds, by omega, middle, mem_addPlaces.mpr (leads start isFound middle first),
              rest⟩
      · intro start isStart notNext stop first
        have isFound := (mem_addPlaces.mp isStart).resolve_right notNext
        exact mem_addPlaces.mpr (leads start isFound stop first)

end

/-! ### Matches -/

namespace Pattern

variable {text : Array Char} {start stop : Nat}

theorem Matches.forward {pattern : Pattern} (isMatch : pattern.Matches text start stop) :
    start ≤ stop ∧ (start = stop ∨ stop ≤ text.size) := by
  induction pattern generalizing start stop with
  | empty => exact ⟨Nat.le_of_eq isMatch, .inl isMatch⟩
  | one set =>
    obtain ⟨contained, rfl⟩ := isMatch
    have within : start < text.size := by
      refine Nat.lt_of_not_le fun beyond => ?_
      rw [Array.getElem?_eq_none beyond] at contained
      cases contained
    exact ⟨Nat.le_succ start, .inr within⟩
  | check assertion => exact ⟨Nat.le_of_eq isMatch.2, .inl isMatch.2⟩
  | both first second forwardFirst forwardSecond =>
    obtain ⟨middle, isFirst, isSecond⟩ := isMatch
    have := forwardFirst isFirst
    have := forwardSecond isSecond
    omega
  | either first second forwardFirst forwardSecond =>
    exact isMatch.elim forwardFirst forwardSecond
  | repeated least most inner inductionHypothesis =>
    obtain ⟨further, _, rounds⟩ := isMatch
    exact rounds.forward fun _ _ => inductionHypothesis
  | captured inner inductionHypothesis => exact inductionHypothesis isMatch

theorem mem_ends (pattern : Pattern) {starts : List Nat} :
    stop ∈ pattern.ends text starts ↔ ∃ start ∈ starts, pattern.Matches text start stop := by
  induction pattern generalizing starts stop with
  | empty => simp [ends, Matches]
  | one set => simp [ends, Matches, and_assoc]
  | check assertion =>
    simp only [ends, Matches, List.mem_filter]
    grind
  | both first second mem_first mem_second =>
    simp only [ends, Matches, mem_first, mem_second]
    grind
  | either first second mem_first mem_second =>
    simp only [ends, Matches, mem_addPlaces, mem_first, mem_second]
    grind
  | captured inner inductionHypothesis => exact inductionHypothesis
  | repeated least most inner inductionHypothesis =>
    have advances (start stop : Nat) (isMatch : inner.Matches text start stop) :=
      isMatch.forward
    have isStep (places : List Nat) {stop : Nat} : stop ∈ inner.ends text places ↔
        ∃ start ∈ places, inner.Matches text start stop := inductionHypothesis
    simp only [ends, Matches]
    rw [mem_spread isStep (List.Subset.refl _) fun start isBase notBase => absurd isBase notBase]
    simp only [mem_takeSteps isStep, roundsThatCount, Rounds.min_iff advances, Rounds.add_iff]
    constructor
    · rintro ⟨further, within, middle, ⟨start, isStart, before⟩, rest⟩
      refine ⟨start, isStart, further, ?_, middle, before, rest⟩
      rintro limit ⟨⟩
      exact Nat.le_trans within (Nat.min_le_left _ _)
    · rintro ⟨start, isStart, further, within, middle, before, rest⟩
      obtain ⟨fewer, fewerRounds, short, shorter⟩ := rest.shorten advances
      have := rest.forward advances
      refine ⟨fewer, ?_, middle, ⟨start, isStart, before⟩, shorter⟩
      cases most with
      | none =>
        show fewer ≤ text.size + 1
        omega
      | some limit =>
        have := within limit rfl
        show fewer ≤ min (limit - least) (text.size + 1)
        omega

theorem isFoundIn_iff {pattern : Pattern} {text : String} : pattern.isFoundIn text = true ↔
    ∃ start stop, start ≤ text.toList.length ∧
      pattern.Matches text.toList.toArray start stop := by
  have found {places : List Nat} : (!places.isEmpty) = true ↔ ∃ place, place ∈ places := by
    rw [Bool.not_eq_true', List.isEmpty_eq_false_iff_exists_mem]
  rw [isFoundIn, found]
  simp only [mem_ends, List.mem_range, List.size_toArray]
  grind

/-! ### Pieces of patterns -/

section

variable {text : List Char}

theorem matches_single {wanted : Char} : (one (.single wanted)).Matches text.toArray start stop ↔
    text[start]? = some wanted ∧ start + 1 = stop := by
  rw [Matches, List.getElem?_toArray]
  cases text[start]? with
  | none => simp [CharSet.containsSome]
  | some char => simp [CharSet.containsSome, CharSet.contains_single]

theorem matches_many {set : CharSet} :
    (captured (repeated 0 none (one set))).Matches text.toArray start stop ↔
      start ≤ stop ∧ ∀ place, start ≤ place → place < stop →
        set.containsSome text[place]? = true := by
  have rounds (count : Nat) : Rounds ((one set).Matches text.toArray) count start stop ↔
      start + count = stop ∧ ∀ place, start ≤ place → place < stop →
        set.containsSome text[place]? = true := by
    induction count generalizing start with
    | zero =>
      simp only [Rounds, Nat.add_zero]
      grind
    | succ count inductionHypothesis =>
      simp only [Rounds, inductionHypothesis]
      simp only [Matches, List.getElem?_toArray]
      grind
  show (∃ further, (∀ limit ∈ none, further ≤ limit - 0) ∧
    Rounds ((one set).Matches text.toArray) (0 + further) start stop) ↔ _
  simp only [Nat.zero_add, rounds]
  constructor
  · rintro ⟨further, _, rfl, all⟩
    exact ⟨Nat.le_add_right _ _, all⟩
  · rintro ⟨before, all⟩
    exact ⟨stop - start, nofun, by omega, all⟩

theorem matches_sequence {text : Array Char} {first : Pattern} {others : List Pattern} :
    (sequence (first :: others)).Matches text start stop ↔
      ∃ middle, first.Matches text start middle ∧ (sequence others).Matches text middle stop := by
  generalize isLater : sequence others = later
  unfold sequence
  rw [isLater]
  split
  · simp [Matches]
  · simp [Matches]
  · rfl

def literal (needle : List Char) : List Pattern :=
  needle.map fun char => one (.single char)

theorem cons_prefix_drop {char : Char} {needle : List Char} :
    char :: needle <+: text.drop start ↔
      text[start]? = some char ∧ needle <+: text.drop (start + 1) := by
  rw [← List.head?_drop, ← List.tail_drop]
  cases text.drop start with
  | nil => simp
  | cons found rest => simp [List.cons_prefix_cons, eq_comm]

theorem matches_literal {needle : List Char} {others : List Pattern} :
    (sequence (literal needle ++ others)).Matches text.toArray start stop ↔
      needle <+: text.drop start ∧
        (sequence others).Matches text.toArray (start + needle.length) stop := by
  induction needle generalizing start with
  | nil => simp [literal]
  | cons char needle inductionHypothesis =>
    rw [cons_prefix_drop, List.length_cons, Nat.add_comm needle.length, ← Nat.add_assoc, and_assoc,
      ← inductionHypothesis, literal, List.map_cons, List.cons_append, matches_sequence]
    simp only [matches_single, and_assoc, exists_and_left, exists_eq_left']
    rfl

theorem matches_literal_end {needle : List Char} :
    (sequence (literal needle)).Matches text.toArray start stop ↔
      needle <+: text.drop start ∧ start + needle.length = stop := by
  rw [← List.append_nil (literal needle), matches_literal]
  rfl

end

end Pattern

end FunctionFlow
