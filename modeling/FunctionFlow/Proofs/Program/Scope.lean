import FunctionFlow.Program.Scope
import FunctionFlow.Proofs.Program.InRange

/-!
Contract: names in sight of a scope.
-/

namespace FunctionFlow

namespace NameTable

variable {α : Type} {table : NameTable α} {name other : String} {value : α}

theorem mem_of_find? (found : table.find? name = some value) : (name, value) ∈ table.entries := by
  obtain ⟨before, after, split, _⟩ := List.lookup_eq_some_iff.mp found
  rw [split]
  exact List.mem_append_right _ List.mem_cons_self

private theorem lookup_cons_eq {rest : List (String × α)} :
    List.lookup other ((name, value) :: rest) =
      if other = name then some value else rest.lookup other := by
  rw [List.lookup_cons]
  by_cases same : other = name
  · simp [same]
  · simp [same, beq_eq_false_iff_ne.mpr same]

theorem find?_insert :
    (table.insert name value).find? other =
      if other = name then some value else table.find? other := by
  simp only [insert, find?]
  fun_induction insertEntry name value table.entries with
  | case1 => rw [lookup_cons_eq]
  | case2 => rw [lookup_cons_eq]
  | case3 kept rest _ =>
    rw [lookup_cons_eq, lookup_cons_eq]
    split <;> rfl
  | case4 next kept rest _ apart inductionHypothesis =>
    rw [lookup_cons_eq, inductionHypothesis, lookup_cons_eq]
    by_cases same : other = name
    · have notNext : other ≠ next := fun isNext => apart (same.symm.trans isNext)
      rw [if_pos same, if_neg notNext, if_pos same]
    · rw [if_neg same, if_neg same]

def erase (table : NameTable α) (name : String) : NameTable α where
  entries := table.entries.filter fun entry => entry.1 ≠ name

theorem find?_erase :
    (table.erase name).find? other = if other = name then none else table.find? other := by
  simp only [erase, find?]
  induction table.entries with
  | nil => exact (ite_self none).symm
  | cons first rest inductionHypothesis =>
    obtain ⟨next, kept⟩ := first
    rw [lookup_cons_eq]
    by_cases isErased : next = name
    · subst isErased
      rw [List.filter_cons_of_neg (by simp), inductionHypothesis]
      by_cases same : other = next
      · rw [if_pos same, if_pos same]
      · rw [if_neg same, if_neg same, if_neg same]
    · rw [List.filter_cons_of_pos (by simpa using isErased), lookup_cons_eq, inductionHypothesis]
      by_cases same : other = name
      · have notNext : other ≠ next := fun isNext => isErased (isNext.symm.trans same)
        rw [if_neg notNext, if_pos same, if_pos same]
      · rw [if_neg same, if_neg same]

theorem mem_insert {entry : String × α} (member : entry ∈ (table.insert name value).entries) :
    entry = (name, value) ∨ entry ∈ table.entries := by
  unfold insert at member
  generalize table.entries = entries at *
  fun_induction insertEntry name value entries with
  | case1 => simpa using member
  | case2 => simpa using member
  | case3 kept rest _ =>
    rcases List.mem_cons.mp member with same | later
    · exact .inl same
    · exact .inr (List.mem_cons_of_mem _ later)
  | case4 next kept rest _ _ inductionHypothesis =>
    rcases List.mem_cons.mp member with same | later
    · exact .inr (same ▸ List.mem_cons_self)
    · exact (inductionHypothesis later).imp_right (List.mem_cons_of_mem _)

end NameTable

namespace Program

variable {program : Program}

/-! ### Walks outwards -/

/-- Every scope comes after its parent. -/
def ParentsFirst (program : Program) : Prop :=
  ∀ (scope : ScopeId) (entry : Scope), program.scopes[scope]? = some entry →
    ∀ parent ∈ entry.parent, parent < scope

theorem parentsFirst_iff (program : Program) :
    program.ParentsFirst ↔ ∀ scope : Fin program.scopes.size,
      ∀ parent ∈ program.scopes[scope].parent, parent < scope.val := by
  constructor
  · intro first scope
    exact first scope _ (Array.getElem?_eq_getElem scope.isLt)
  · intro first scope entry found
    obtain ⟨below, rfl⟩ := Array.getElem?_eq_some_iff.mp found
    exact first ⟨scope, below⟩

instance (program : Program) : Decidable program.ParentsFirst :=
  decidable_of_iff _ program.parentsFirst_iff.symm

theorem ParentsFirst.addScope (parents : program.ParentsFirst) (kind : ScopeKind)
    {parent : Option ScopeId} (inside : ∀ outer ∈ parent, outer < program.scopes.size) :
    (program.addScope kind parent).2.ParentsFirst := by
  intro scope entry found
  rcases Table.push_cases found with old | ⟨rfl, rfl⟩
  · exact parents scope entry old
  · exact inside

/-- `outer` is reached from `inner` through parents, and the scopes on the way satisfy `passed`. -/
inductive Climbs (program : Program) (passed : ScopeId → Scope → Prop) : ScopeId → ScopeId → Prop
  | here {scope : ScopeId} : Climbs program passed scope scope
  | leave {inner between outer : ScopeId} {entry : Scope}
    (found : program.scopes[inner]? = some entry) (passes : passed inner entry)
    (parent : entry.parent = some between) (onward : Climbs program passed between outer) :
    Climbs program passed inner outer

theorem Climbs.imp {passed weaker : ScopeId → Scope → Prop} {inner outer : ScopeId}
    (climbs : program.Climbs passed inner outer)
    (implies : ∀ id entry, passed id entry → weaker id entry) :
    program.Climbs weaker inner outer := by
  induction climbs with
  | here => exact .here
  | leave found passes parent _ inductionHypothesis =>
    exact .leave found (implies _ _ passes) parent inductionHypothesis

theorem InRange.climbs_lt (inRange : program.InRange) {passed : ScopeId → Scope → Prop}
    {inner outer : ScopeId} (climbs : program.Climbs passed inner outer)
    (below : inner < program.scopes.size) : outer < program.scopes.size := by
  induction climbs with
  | here => exact below
  | leave found _ parent _ inductionHypothesis =>
    exact inductionHypothesis ((inRange.scopes _ (Array.mem_of_getElem? found)).parent _ parent)

section

variable {α : Type} {ask : ScopeId → Scope → Option α} {steps : Nat} {scope : ScopeId}

theorem ParentsFirst.climbWithin_ok (parents : program.ParentsFirst)
    (below : scope < program.scopes.size) (enough : scope < steps) :
    ∃ answer, program.climbWithin ask steps scope = .ok answer := by
  induction steps generalizing scope with
  | zero => cases enough
  | succ steps inductionHypothesis =>
    have isEntry := Array.getElem?_eq_getElem below
    rw [climbWithin, Program.scope, fetch_eq_ok.mpr isEntry, Checked.ok_bind]
    split
    · exact ⟨_, rfl⟩
    · rename_i parent _ isParent
      have closer : parent < scope := parents scope _ isEntry parent isParent
      exact inductionHypothesis (Nat.lt_trans closer below)
        (Nat.lt_of_lt_of_le closer (Nat.le_of_lt_succ enough))
    · exact ⟨none, rfl⟩

theorem ParentsFirst.climb_ok (parents : program.ParentsFirst)
    (below : scope < program.scopes.size) : ∃ answer, program.climb ask scope = .ok answer :=
  parents.climbWithin_ok below (Nat.lt_succ_of_lt below)

/-- The answer of a walk is given by a scope on the way, after scopes that answered nothing. -/
theorem climbs_of_climbWithin {answer : α}
    (answered : program.climbWithin ask steps scope = .ok (some answer)) :
    ∃ id entry, program.Climbs (fun id entry => ask id entry = none) scope id ∧
      program.scopes[id]? = some entry ∧ ask id entry = some answer := by
  induction steps generalizing scope with
  | zero => cases answered
  | succ steps inductionHypothesis =>
    obtain ⟨entry, found, answered⟩ := Checked.bind_eq_ok.mp answered
    have isEntry := fetch_eq_ok.mp found
    split at answered
    · rename_i gives
      cases answered
      exact ⟨scope, entry, .here, isEntry, gives⟩
    · rename_i parent asked isParent
      obtain ⟨id, outer, climbs, isOuter, gives⟩ := inductionHypothesis answered
      exact ⟨id, outer, .leave isEntry asked isParent climbs, isOuter, gives⟩
    · cases answered

end

/-- Walks over two tables give the same answer if the scopes on the way give the same answers and have
the same parents. -/
theorem climbWithin_congr {other : Program} {α : Type} {ask otherAsk : ScopeId → Scope → Option α}
    {answer : Option α}
    (alike : ∀ id entry, program.scopes[id]? = some entry →
      ask id entry = none ∨ ask id entry = answer →
      ∃ later, other.scopes[id]? = some later ∧ later.parent = entry.parent ∧
        otherAsk id later = ask id entry)
    {steps : Nat} {scope : ScopeId}
    (answered : program.climbWithin ask steps scope = .ok answer) :
    other.climbWithin otherAsk steps scope = .ok answer := by
  induction steps generalizing scope with
  | zero => exact answered
  | succ steps inductionHypothesis =>
    obtain ⟨entry, fetched, answered⟩ := Checked.bind_eq_ok.mp answered
    have isEntry := fetch_eq_ok.mp fetched
    cases asked : ask scope entry with
    | some value =>
      rw [asked] at answered
      cases answered
      obtain ⟨later, isLater, _, same⟩ := alike scope entry isEntry (.inr asked)
      rw [climbWithin, Program.scope, fetch_eq_ok.mpr isLater, Checked.ok_bind, same, asked]
      rfl
    | none =>
      obtain ⟨later, isLater, sameParent, same⟩ := alike scope entry isEntry (.inl asked)
      rw [climbWithin, Program.scope, fetch_eq_ok.mpr isLater, Checked.ok_bind, same, asked,
        sameParent]
      rw [asked] at answered
      cases parent : entry.parent with
      | none =>
        rw [parent] at answered
        exact answered
      | some outer =>
        rw [parent] at answered
        exact inductionHypothesis answered

theorem lookup_congr {other : Program} (sameSize : other.scopes.size = program.scopes.size)
    {name otherName : String} {answer : Option DeclId}
    (alike : ∀ (id : ScopeId) (entry : Scope), program.scopes[id]? = some entry →
      entry.names.find? name = none ∨ entry.names.find? name = answer →
      ∃ later : Scope, other.scopes[id]? = some later ∧ later.parent = entry.parent ∧
        later.names.find? otherName = entry.names.find? name)
    {scope : ScopeId} (looked : program.lookup scope name = .ok answer) :
    other.lookup scope otherName = .ok answer := by
  have answered : program.climbWithin (fun _ entry => entry.names.find? name)
      (program.scopes.size + 1) scope = .ok answer := looked
  rw [lookup, climb, sameSize]
  exact climbWithin_congr alike answered

/-! ### Long walks -/

section

variable {α : Type} {ask : ScopeId → Scope → Option α} {scope : ScopeId}

def onward? (program : Program) (ask : ScopeId → Scope → Option α) (scope : ScopeId) :
    Option ScopeId :=
  program.scopes[scope]?.bind fun entry => if (ask scope entry).isSome then none else entry.parent

theorem climbWithin_onward {parent : ScopeId} (goes : program.onward? ask scope = some parent)
    (steps : Nat) :
    program.climbWithin ask (steps + 1) scope = program.climbWithin ask steps parent := by
  obtain ⟨entry, found, goes⟩ := Option.bind_eq_some_iff.mp goes
  cases answered : ask scope entry with
  | some answer => simp [answered] at goes
  | none =>
    have isParent : entry.parent = some parent := by simpa [answered] using goes
    rw [climbWithin, Program.scope, fetch_eq_ok.mpr found, Checked.ok_bind, answered, isParent]

theorem climbWithin_stops (stops : program.onward? ask scope = none) (steps : Nat) :
    program.climbWithin ask (steps + 1) scope = program.climbWithin ask 1 scope := by
  rw [climbWithin, climbWithin]
  cases found : program.scope scope with
  | error => rfl
  | ok entry =>
    rw [onward?, fetch_eq_ok.mp found, Option.bind_some] at stops
    rw [Checked.ok_bind, Checked.ok_bind]
    cases answered : ask scope entry with
    | some answer => rfl
    | none =>
      have noParent : entry.parent = none := by simpa [answered] using stops
      rw [noParent]

/-- A walk from `scope` leaves this many scopes before it ends. -/
inductive Leaves (program : Program) (ask : ScopeId → Scope → Option α) : Nat → ScopeId → Prop
  | here {scope : ScopeId} (stops : program.onward? ask scope = none) : Leaves program ask 0 scope
  | onward {count : Nat} {scope parent : ScopeId} (goes : program.onward? ask scope = some parent)
    (leaves : Leaves program ask count parent) : Leaves program ask (count + 1) scope

theorem Leaves.unique {count other : Nat} (leaves : program.Leaves ask count scope)
    (leavesToo : program.Leaves ask other scope) : count = other := by
  induction leaves generalizing other with
  | here stops =>
    cases leavesToo with
    | here => rfl
    | onward goes => exact nomatch stops.symm.trans goes
  | onward goes _ inductionHypothesis =>
    cases leavesToo with
    | here stops => exact nomatch goes.symm.trans stops
    | onward goesToo leavesToo =>
      cases goes.symm.trans goesToo
      rw [inductionHypothesis leavesToo]

/-- A walk that ends leaves no scope twice: from there it would have ended at two distances. -/
theorem Leaves.visited {count : Nat} (leaves : program.Leaves ask count scope) :
    ∃ visited : List ScopeId, visited.length = count ∧ visited.Nodup ∧
      ∀ id ∈ visited, id < program.scopes.size ∧ ∃ left ≤ count, program.Leaves ask left id := by
  induction leaves with
  | here => exact ⟨[], rfl, List.nodup_nil, List.forall_mem_nil _⟩
  | @onward count scope parent goes leaves inductionHypothesis =>
    obtain ⟨visited, length, distinct, each⟩ := inductionHypothesis
    have whole : program.Leaves ask (count + 1) scope := .onward goes leaves
    refine ⟨scope :: visited, congrArg (· + 1) length, List.nodup_cons.mpr ⟨?_, distinct⟩,
      List.forall_mem_cons.mpr ⟨⟨?_, count + 1, Nat.le_refl _, whole⟩, ?_⟩⟩
    · intro again
      obtain ⟨_, left, within, leavesToo⟩ := each scope again
      have same := whole.unique leavesToo
      omega
    · obtain ⟨entry, found, _⟩ := Option.bind_eq_some_iff.mp goes
      exact Table.below found
    · intro id inside
      obtain ⟨below, left, within, leavesToo⟩ := each id inside
      exact ⟨below, left, Nat.le_succ_of_le within, leavesToo⟩

theorem Leaves.count_le {count : Nat} (leaves : program.Leaves ask count scope) :
    count ≤ program.scopes.size := by
  obtain ⟨visited, rfl, distinct, each⟩ := leaves.visited
  rw [← List.length_range (n := program.scopes.size)]
  exact distinct.length_le_of_subset fun id inside => List.mem_range.mpr (each id inside).1

theorem Leaves.climbWithin_eq {count : Nat} (leaves : program.Leaves ask count scope) {steps : Nat}
    (enough : count < steps) :
    program.climbWithin ask steps scope = program.climbWithin ask (count + 1) scope := by
  induction leaves generalizing steps with
  | here stops =>
    obtain ⟨steps, rfl⟩ := Nat.exists_eq_succ_of_ne_zero (Nat.ne_of_gt enough)
    exact climbWithin_stops stops steps
  | onward goes _ inductionHypothesis =>
    obtain ⟨steps, rfl⟩ := Nat.exists_eq_succ_of_ne_zero (Nat.ne_of_gt (Nat.zero_lt_of_lt enough))
    rw [climbWithin_onward goes, climbWithin_onward goes]
    exact inductionHypothesis (Nat.lt_of_succ_lt_succ enough)

theorem climbWithin_of_not_leaves (endless : ∀ count, ¬ program.Leaves ask count scope)
    (steps : Nat) : program.climbWithin ask steps scope = .error .endless := by
  induction steps generalizing scope with
  | zero => rfl
  | succ steps inductionHypothesis =>
    cases goes : program.onward? ask scope with
    | none => exact absurd (.here goes) (endless 0)
    | some parent =>
      rw [climbWithin_onward goes]
      exact inductionHypothesis fun count leaves => endless (count + 1) (.onward goes leaves)

theorem climbWithin_eq_climb {steps : Nat} (enough : program.scopes.size < steps) :
    program.climbWithin ask steps scope = program.climb ask scope := by
  by_cases ends : ∃ count, program.Leaves ask count scope
  · obtain ⟨count, leaves⟩ := ends
    rw [climb, leaves.climbWithin_eq (Nat.lt_of_le_of_lt leaves.count_le enough),
      leaves.climbWithin_eq (Nat.lt_succ_of_le leaves.count_le)]
  · have endless := not_exists.mp ends
    rw [climb, climbWithin_of_not_leaves endless, climbWithin_of_not_leaves endless]

end

theorem ParentsFirst.lookup_ok (parents : program.ParentsFirst) {scope : ScopeId}
    (below : scope < program.scopes.size) (name : String) :
    ∃ answer, program.lookup scope name = .ok answer :=
  parents.climb_ok below

theorem lookup_lt (scopes : ∀ entry ∈ program.scopes, entry.InRange program.sizes)
    {scope : ScopeId} {name : String} {decl : DeclId}
    (looked : program.lookup scope name = .ok (some decl)) : decl < program.decls.size := by
  obtain ⟨id, entry, _, isEntry, found⟩ := climbs_of_climbWithin looked
  exact (scopes entry (Array.mem_of_getElem? isEntry)).names _
    (NameTable.mem_of_find? found)

/-! ### Declarations in sight -/

/-- `outer` is reached from `inner` by leaving blocks. -/
def LeavesBlocks (program : Program) (inner outer : ScopeId) : Prop :=
  program.Climbs (fun _ entry => entry.kind = .block) inner outer

def Declares (program : Program) (scope : ScopeId) (decl : DeclId) : Prop :=
  ∃ outer entry name, program.LeavesBlocks scope outer ∧ program.scopes[outer]? = some entry ∧
    entry.names.find? name = some decl

theorem InRange.declares_lt (inRange : program.InRange) {scope : ScopeId} {decl : DeclId}
    (declares : program.Declares scope decl) : decl < program.decls.size := by
  obtain ⟨_, entry, name, _, isEntry, found⟩ := declares
  exact (inRange.scopes entry (Array.mem_of_getElem? isEntry)).names _
    (NameTable.mem_of_find? found)

theorem ParentsFirst.hoistingScope_ok (parents : program.ParentsFirst) {scope : ScopeId}
    (below : scope < program.scopes.size) :
    ∃ outer, program.hoistingScope scope = .ok outer ∧ program.LeavesBlocks scope outer := by
  obtain ⟨answer, climbed⟩ := parents.climb_ok below
  refine ⟨answer.getD scope, ?_, ?_⟩
  · rw [hoistingScope, climbed]
    rfl
  cases answer with
  | none => exact .here
  | some outer =>
    obtain ⟨id, entry, climbs, _, gives⟩ := climbs_of_climbWithin climbed
    split at gives
    · cases gives
    · cases gives
      refine climbs.imp fun id entry passed => ?_
      split at passed
      · rename_i isBlock
        exact isBlock.1
      · cases passed

theorem declare_cases {scope : ScopeId} {name : String} {kind : DeclKind} {file : FileId}
    {span : Span} {decl : DeclId} {after : Program}
    (declared : program.declare scope name kind file span = .ok (decl, after)) :
    ∃ entry, program.scopes[scope]? = some entry ∧
      ((entry.names.find? name = some decl ∧ after = program) ∨
        (entry.names.find? name = none ∧
          (decl, after) = program.addDeclaration scope entry name kind file span)) := by
  obtain ⟨entry, found, declared⟩ := Checked.bind_eq_ok.mp declared
  refine ⟨entry, fetch_eq_ok.mp found, ?_⟩
  split at declared
  · rename_i existing isExisting
    cases declared
    exact .inl ⟨isExisting, rfl⟩
  · rename_i isNew
    exact .inr ⟨isNew, (Except.ok.inj declared).symm⟩

theorem declare_frame {scope : ScopeId} {name : String} {kind : DeclKind} {file : FileId}
    {span : Span} {decl : DeclId} {after : Program}
    (declared : program.declare scope name kind file span = .ok (decl, after)) :
    ∃ scopes decls, after = { program with scopes, decls } ∧
      scopes.size = program.scopes.size := by
  obtain ⟨entry, _, ⟨_, rfl⟩ | ⟨_, added⟩⟩ := declare_cases declared
  · exact ⟨_, _, rfl, rfl⟩
  · cases added
    exact ⟨_, _, rfl, Array.size_setIfInBounds⟩

theorem ParentsFirst.declare (parents : program.ParentsFirst) {scope : ScopeId} {name : String}
    {kind : DeclKind} {file : FileId} {span : Span} {decl : DeclId} {after : Program}
    (declared : program.declare scope name kind file span = .ok (decl, after)) :
    after.ParentsFirst := by
  obtain ⟨entry, isEntry, ⟨_, rfl⟩ | ⟨_, added⟩⟩ := declare_cases declared
  · exact parents
  cases added
  intro id later found
  rcases Table.set_cases found with ⟨rfl, rfl⟩ | ⟨_, old⟩
  · exact parents _ entry isEntry
  · exact parents id later old

theorem declare_ok {scope : ScopeId} (below : scope < program.scopes.size) (name : String)
    (kind : DeclKind) (file : FileId) (span : Span) :
    ∃ decl after, program.declare scope name kind file span = .ok (decl, after) := by
  obtain ⟨entry, _, found⟩ := fetch_of_lt below (.scope scope)
  rw [declare, Program.scope, found, Checked.ok_bind]
  split <;> exact ⟨_, _, rfl⟩

end Program

end FunctionFlow
