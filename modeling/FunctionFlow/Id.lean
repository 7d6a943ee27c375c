/-!
Contract: ids and the ways in which following ids can fail.
-/

namespace FunctionFlow

abbrev FileId := Nat

abbrev FunctionId := Nat

abbrev CallId := Nat

abbrev DeclId := Nat

abbrev ScopeId := Nat

abbrev NodeId := Nat

abbrev VertexId := Nat

/-- A look-up beyond the end of a table, or of a text, or a walk that does not end. -/
inductive OutOfRange where
  | file (id : FileId)
  | function (id : FunctionId)
  | call (id : CallId)
  | declaration (id : DeclId)
  | scope (id : ScopeId)
  | vertex (id : VertexId)
  | text (startByte endByte : Nat)
  /-- A chain of scopes that runs in a circle. -/
  | endless
  deriving DecidableEq, Repr

abbrev Checked := Except OutOfRange

/-- The entry of `table` at `id`; `missing` when the table is too short. -/
def fetch {α : Type} (table : Array α) (id : Nat) (missing : OutOfRange) : Checked α :=
  match table[id]? with
  | some entry => .ok entry
  | none => .error missing

theorem Checked.bind_eq_ok {α β : Type} {first : Checked α} {second : α → Checked β} {answer : β} :
    (first >>= second) = .ok answer ↔ ∃ middle, first = .ok middle ∧ second middle = .ok answer := by
  cases first with
  | error failure =>
    constructor
    · intro failed
      cases failed
    · rintro ⟨_, failed, _⟩
      cases failed
  | ok value =>
    constructor
    · intro done
      exact ⟨value, rfl, done⟩
    · rintro ⟨_, same, done⟩
      cases same
      exact done

theorem fetch_eq_ok {α : Type} {table : Array α} {id : Nat} {missing : OutOfRange} {entry : α} :
    fetch table id missing = .ok entry ↔ table[id]? = some entry := by
  unfold fetch
  split <;> simp_all

theorem lt_of_fetch {α : Type} {table : Array α} {id : Nat} {missing : OutOfRange} {entry : α}
    (found : fetch table id missing = .ok entry) : id < table.size :=
  (Array.getElem?_eq_some_iff.mp (fetch_eq_ok.mp found)).1

end FunctionFlow
