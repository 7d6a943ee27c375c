import FunctionFlow.Id

/-!
Contract: computations that succeed.
-/

namespace FunctionFlow

/-! ### Look-ups -/

@[simp] theorem Checked.ok_bind {α β : Type} (value : α) (next : α → Checked β) :
    ((.ok value : Checked α) >>= next) = next value := rfl

theorem Checked.mapM_eq_ok {α β : Type} {compute : α → Checked β} {items : List α}
    (total : ∀ item ∈ items, ∃ result, compute item = .ok result) :
    ∃ results, items.mapM compute = .ok results ∧
      ∀ result, result ∈ results ↔ ∃ item ∈ items, compute item = .ok result := by
  induction items with
  | nil => exact ⟨[], rfl, by simp⟩
  | cons first rest inductionHypothesis =>
    obtain ⟨firstResult, computed⟩ := total first List.mem_cons_self
    obtain ⟨results, computedRest, mem_results⟩ :=
      inductionHypothesis fun item member => total item (List.mem_cons_of_mem _ member)
    refine ⟨firstResult :: results, ?_, fun result => ?_⟩
    · rw [List.mapM_cons, computed, computedRest]
      rfl
    · simp only [List.mem_cons, mem_results, exists_eq_or_imp, computed, Except.ok.injEq]
      rw [@eq_comm _ result]

theorem Checked.total_of_mapM {α β : Type} {compute : α → Checked β} {items : List α}
    {results : List β} (computed : items.mapM compute = .ok results) :
    ∀ item ∈ items, ∃ result, compute item = .ok result := by
  induction items generalizing results with
  | nil => exact List.forall_mem_nil _
  | cons first rest inductionHypothesis =>
    rw [List.mapM_cons] at computed
    obtain ⟨result, isResult, computed⟩ := Checked.bind_eq_ok.mp computed
    obtain ⟨others, areOthers, _⟩ := Checked.bind_eq_ok.mp computed
    exact List.forall_mem_cons.mpr ⟨⟨result, isResult⟩, inductionHypothesis areOthers⟩

theorem fetch_of_lt {α : Type} {table : Array α} {id : Nat} (below : id < table.size)
    (missing : OutOfRange) : ∃ entry ∈ table, fetch table id missing = .ok entry :=
  ⟨table[id], Array.getElem_mem below, fetch_eq_ok.mpr (Array.getElem?_eq_getElem below)⟩

theorem fetch_modify {α : Type} (table : Array α) (changed : Nat) (update : α → α) (id : Nat)
    (missing : OutOfRange) :
    fetch (table.modify changed update) id missing =
      (fun entry => if changed = id then update entry else entry) <$> fetch table id missing := by
  rw [fetch, fetch, Array.getElem?_modify]
  by_cases isChanged : changed = id
  · simp only [isChanged, if_true]
    cases table[id]? <;> rfl
  · simp only [isChanged, if_false]
    cases table[id]? <;> rfl

/-! ### Answers -/

namespace Checked

variable {α β : Type}

@[simp] theorem toOption_ok (answer : α) : (.ok answer : Checked α).toOption = some answer := rfl

theorem toOption_bind (compute : Checked α) (next : α → Checked β) :
    (compute >>= next).toOption = compute.toOption.bind fun answer => (next answer).toOption := by
  cases compute <;> rfl

theorem toOption_eq_some {compute : Checked α} {answer : α} :
    compute.toOption = some answer ↔ compute = .ok answer := by
  cases compute <;> simp [Except.toOption]

theorem toOption_fetch (table : Array α) (id : Nat) (missing : OutOfRange) :
    (fetch table id missing).toOption = table[id]? := by
  unfold fetch
  cases table[id]? <;> rfl

end Checked

/-! ### Entries of tables -/

namespace Table

variable {α : Type} {entries : Array α} {entry last : α} {id changed : Nat}

theorem below (found : entries[id]? = some entry) : id < entries.size :=
  (Array.getElem?_eq_some_iff.mp found).1

theorem push_kept (found : entries[id]? = some entry) : (entries.push last)[id]? = some entry := by
  have below : id < entries.size := Table.below found
  rw [Array.getElem?_push, if_neg (Nat.ne_of_lt below)]
  exact found

theorem push_cases (found : (entries.push last)[id]? = some entry) :
    entries[id]? = some entry ∨ (id = entries.size ∧ entry = last) := by
  rw [Array.getElem?_push] at found
  by_cases atEnd : id = entries.size
  · rw [if_pos atEnd] at found
    exact .inr ⟨atEnd, (Option.some.inj found).symm⟩
  · rw [if_neg atEnd] at found
    exact .inl found

theorem set_cases (found : (entries.setIfInBounds changed last)[id]? = some entry) :
    (id = changed ∧ entry = last) ∨ (id ≠ changed ∧ entries[id]? = some entry) := by
  by_cases same : changed = id
  · subst same
    have below : changed < entries.size := by
      have inSet := Table.below found
      rwa [Array.size_setIfInBounds] at inSet
    rw [Array.getElem?_setIfInBounds_self_of_lt below] at found
    exact .inl ⟨rfl, (Option.some.inj found).symm⟩
  · rw [Array.getElem?_setIfInBounds_ne same] at found
    exact .inr ⟨fun isChanged => same isChanged.symm, found⟩

theorem modify_eq_set (found : entries[id]? = some entry) (update : α → α) :
    entries.modify id update = entries.setIfInBounds id (update entry) := by
  refine Array.ext_getElem? fun other => ?_
  rw [Array.getElem?_modify, Array.getElem?_setIfInBounds]
  by_cases same : id = other
  · subst same
    have below : id < entries.size := Table.below found
    rw [if_pos rfl, if_pos rfl, if_pos below, found, Option.map_some]
  · rw [if_neg same, if_neg same]

theorem modify_cases {update : α → α} (member : entry ∈ entries.modify changed update) :
    entry ∈ entries ∨ ∃ old ∈ entries, entry = update old := by
  obtain ⟨id, found⟩ := Array.getElem?_of_mem member
  rw [Array.getElem?_modify] at found
  by_cases isChanged : changed = id
  · rw [if_pos isChanged] at found
    obtain ⟨old, isOld, rfl⟩ := Option.map_eq_some_iff.mp found
    exact .inr ⟨old, Array.mem_of_getElem? isOld, rfl⟩
  · rw [if_neg isChanged] at found
    exact .inl (Array.mem_of_getElem? found)

def Kept {β : Type} (field : α → β) (entries later : Array α) : Prop :=
  ∀ (id : Nat) (entry : α), entries[id]? = some entry →
    ∃ kept, later[id]? = some kept ∧ field kept = field entry

namespace Kept

variable {β : Type} {field : α → β} {middle later : Array α}

theorem refl : Kept field entries entries := fun _ _ found => ⟨_, found, rfl⟩

theorem trans (first : Kept field entries middle) (second : Kept field middle later) :
    Kept field entries later := by
  intro id entry found
  obtain ⟨_, between, sameFirst⟩ := first id entry found
  obtain ⟨kept, isKept, sameSecond⟩ := second id _ between
  exact ⟨kept, isKept, sameSecond.trans sameFirst⟩

theorem size_le (kept : Kept field entries later) : entries.size ≤ later.size := by
  apply Nat.le_of_not_lt
  intro shrunk
  obtain ⟨_, found, _⟩ := kept _ _ (Array.getElem?_eq_getElem shrunk)
  rw [Array.getElem?_size] at found
  cases found

theorem push : Kept field entries (entries.push last) := fun _ _ found => ⟨_, push_kept found, rfl⟩

theorem set {old : α} (isOld : entries[changed]? = some old) (same : field last = field old) :
    Kept field entries (entries.setIfInBounds changed last) := by
  intro id entry found
  by_cases isChanged : changed = id
  · subst isChanged
    have below : changed < entries.size := Table.below found
    rw [isOld] at found
    cases found
    exact ⟨last, Array.getElem?_setIfInBounds_self_of_lt below, same⟩
  · exact ⟨entry, (Array.getElem?_setIfInBounds_ne isChanged).trans found, rfl⟩

end Kept

end Table

/-! ### Computations on a state -/

/-- The computation succeeds from `state`, and `outcome` holds of its answer and of the state after
it. -/
def Yields {σ α : Type} (compute : StateT σ Checked α) (state : σ) (outcome : α → σ → Prop) :
    Prop :=
  ∃ answer after, compute.run state = .ok (answer, after) ∧ outcome answer after

namespace Yields

variable {σ α β : Type} {state : σ}

theorem pure {answer : α} {outcome : α → σ → Prop} (holds : outcome answer state) :
    Yields (Pure.pure answer) state outcome :=
  ⟨answer, state, rfl, holds⟩

theorem mono {compute : StateT σ Checked α} {strong weak : α → σ → Prop}
    (yields : Yields compute state strong)
    (implies : ∀ answer after, strong answer after → weak answer after) :
    Yields compute state weak := by
  obtain ⟨answer, after, ran, holds⟩ := yields
  exact ⟨answer, after, ran, implies answer after holds⟩

theorem bind {first : StateT σ Checked α} {next : α → StateT σ Checked β}
    {middle : α → σ → Prop} {outcome : β → σ → Prop} (begins : Yields first state middle)
    (goesOn : ∀ answer after, middle answer after → Yields (next answer) after outcome) :
    Yields (first >>= next) state outcome := by
  obtain ⟨answer, between, ran, holds⟩ := begins
  obtain ⟨result, after, ranOn, final⟩ := goesOn answer between holds
  refine ⟨result, after, ?_, final⟩
  rw [StateT.run_bind, ran]
  exact ranOn

theorem discard {compute : StateT σ Checked α} {outcome : σ → Prop}
    (yields : Yields compute state fun _ after => outcome after) :
    Yields (Functor.discard compute) state fun _ after => outcome after := by
  obtain ⟨answer, after, ran, holds⟩ := yields
  refine ⟨(), after, ?_, holds⟩
  change StateT.run ((fun _ => ()) <$> compute) state = _
  rw [StateT.run_map, ran]
  rfl

theorem lift {lookup : Checked α} {answer : α} (found : lookup = .ok answer) :
    Yields (liftM lookup : StateT σ Checked α) state fun value after =>
      value = answer ∧ after = state := by
  refine ⟨answer, state, ?_, rfl, rfl⟩
  rw [found]
  rfl

theorem lift_bind {lookup : Checked α} {next : α → StateT σ Checked β} {answer : α}
    {outcome : β → σ → Prop} (found : lookup = .ok answer)
    (goesOn : Yields (next answer) state outcome) :
    Yields (liftM lookup >>= next) state outcome := by
  refine (lift found).bind ?_
  rintro _ _ ⟨rfl, rfl⟩
  exact goesOn

end Yields

theorem Checked.eq_ok_of_run_lift {σ α : Type} {lookup : Checked α} {state after : σ} {answer : α}
    (ran : (liftM lookup : StateT σ Checked α).run state = .ok (answer, after)) :
    lookup = .ok answer := by
  cases lookup with
  | error => cases ran
  | ok value =>
    cases ran
    rfl

end FunctionFlow
