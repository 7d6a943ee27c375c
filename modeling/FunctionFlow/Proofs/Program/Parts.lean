import FunctionFlow.Program.Call
import Mathlib.Data.List.Perm.Basic

/-!
Contract: expressions and what they are made of.
-/

namespace FunctionFlow

def Property.value : Property → Expr
  | mk _ value => value

def Property.mapValue (update : Expr → Expr) : Property → Property
  | mk key value => mk key (update value)

def Stmt.value? : Stmt → Option Expr
  | .expr value => some value
  | .declare _ initial => initial
  | .result returned => returned

namespace Expr

/-- The expressions that an expression is made of, in order. -/
def parts : Expr → List Expr
  | function .. | ident .. | this .. => []
  | member _ whole _ => [whole]
  | call _ _ callee arguments => callee :: arguments
  | assign _ target value => [target, value]
  | select _ guards values => guards ++ values
  | object _ entries => entries.map Property.value
  | inert _ parts => parts

def mapParts (update : Expr → Expr) : Expr → Expr
  | member node whole name => member node (update whole) name
  | call node site callee arguments => call node site (update callee) (arguments.map update)
  | assign node target value => assign node (update target) (update value)
  | select node guards values => select node (guards.map update) (values.map update)
  | object node entries => object node (entries.map (Property.mapValue update))
  | inert node parts => inert node (parts.map update)
  | expr => expr

/-! ### Induction -/

/-- What holds of an expression whenever it holds of its parts holds of all expressions. -/
@[elab_as_elim]
theorem formInduction {motive : Expr → Prop}
    (function : ∀ node target, motive (.function node target))
    (ident : ∀ node reference, motive (.ident node reference))
    (this : ∀ node owner, motive (.this node owner))
    (member : ∀ node whole name, motive whole → motive (.member node whole name))
    (call : ∀ node site callee arguments, motive callee → (∀ value ∈ arguments, motive value) →
      motive (.call node site callee arguments))
    (assign : ∀ node target value, motive target → motive value →
      motive (.assign node target value))
    (select : ∀ node guards values, (∀ guard ∈ guards, motive guard) →
      (∀ value ∈ values, motive value) → motive (.select node guards values))
    (object : ∀ node entries, (∀ key value, .mk key value ∈ entries → motive value) →
      motive (.object node entries))
    (inert : ∀ node parts, (∀ part ∈ parts, motive part) → motive (.inert node parts))
    (expr : Expr) : motive expr := by
  refine @Expr.rec motive (fun entry => ∀ key value, .mk key value = entry → motive value)
    (fun exprs => ∀ item ∈ exprs, motive item)
    (fun entries => ∀ key value, .mk key value ∈ entries → motive value)
    function ident this member call assign select object inert ?entry ?noExprs ?exprs ?noEntries
    ?entries expr
  case entry =>
    rintro _ value holds _ _ ⟨⟩
    exact holds
  case noExprs => exact List.forall_mem_nil _
  case exprs => exact fun _ _ first rest => List.forall_mem_cons.mpr ⟨first, rest⟩
  case noEntries =>
    intro key value inside
    cases inside
  case entries =>
    intro _ _ first rest key value inside
    rcases List.mem_cons.mp inside with same | later
    · exact first key value same
    · exact rest key value later

@[elab_as_elim]
theorem partsInduction {motive : Expr → Prop}
    (step : ∀ expr, (∀ part ∈ expr.parts, motive part) → motive expr) (expr : Expr) :
    motive expr := by
  induction expr using formInduction with
  | function | ident | this => exact step _ (List.forall_mem_nil _)
  | member _ _ _ whole => exact step _ (List.forall_mem_singleton.mpr whole)
  | call _ _ _ _ callee arguments => exact step _ (List.forall_mem_cons.mpr ⟨callee, arguments⟩)
  | assign _ _ _ target value =>
    exact step _ (List.forall_mem_cons.mpr ⟨target, List.forall_mem_singleton.mpr value⟩)
  | select _ _ _ guards values => exact step _ (List.forall_mem_append.mpr ⟨guards, values⟩)
  | object _ _ entries =>
    refine step _ (List.forall_mem_map.mpr ?_)
    rintro ⟨key, value⟩ inside
    exact entries key value inside
  | inert _ _ parts => exact step _ parts

end Expr

/-! ### All parts -/

namespace Expr

theorem allOf_eq (exprs : List Expr) : allOf exprs = exprs.flatMap all := by
  induction exprs with
  | nil => rfl
  | cons first rest inductionHypothesis => rw [allOf, inductionHypothesis, List.flatMap_cons]

theorem allOf_append (left right : List Expr) : allOf (left ++ right) = allOf left ++ allOf right := by
  simp only [allOf_eq, List.flatMap_append]

theorem mem_allOf {part : Expr} {exprs : List Expr} :
    part ∈ allOf exprs ↔ ∃ expr ∈ exprs, part ∈ expr.all := by
  rw [allOf_eq, List.mem_flatMap]

end Expr

theorem Property.allOf_eq (entries : List Property) :
    Property.allOf entries = Expr.allOf (entries.map Property.value) := by
  induction entries with
  | nil => rfl
  | cons first rest inductionHypothesis =>
    obtain ⟨key, value⟩ := first
    rw [Property.allOf, inductionHypothesis]
    rfl

namespace Expr

variable {expr part inner : Expr}

theorem all_eq (expr : Expr) : expr.all = expr :: expr.parts.flatMap all := by
  cases expr <;> simp [all, parts, allOf_eq, Property.allOf_eq]

theorem mem_all : part ∈ expr.all ↔ part = expr ∨ ∃ direct ∈ expr.parts, part ∈ direct.all := by
  rw [all_eq, List.mem_cons, List.mem_flatMap]

theorem mem_all_self (expr : Expr) : expr ∈ expr.all :=
  mem_all.mpr (.inl rfl)

theorem mem_all_of_part (isPart : part ∈ expr.parts) : part ∈ expr.all :=
  mem_all.mpr (.inr ⟨part, isPart, part.mem_all_self⟩)

theorem mem_all_trans (inside : inner ∈ part.all) (whole : Expr) (member : part ∈ whole.all) :
    inner ∈ whole.all := by
  induction whole using partsInduction with
  | step whole inductionHypothesis =>
    rcases mem_all.mp member with rfl | ⟨direct, isPart, deeper⟩
    · exact inside
    · exact mem_all.mpr (.inr ⟨direct, isPart, inductionHypothesis direct isPart deeper⟩)

end Expr

theorem Stmt.exprs_eq (stmt : Stmt) : stmt.exprs = stmt.value?.toList.flatMap Expr.all := by
  rcases stmt with _ | ⟨_, _ | _⟩ | (_ | _) <;> simp [Stmt.exprs, Stmt.value?]

theorem Stmt.mem_exprs {stmt : Stmt} {expr : Expr} :
    expr ∈ stmt.exprs ↔ ∃ value ∈ stmt.value?, expr ∈ value.all := by
  rw [Stmt.exprs_eq, List.mem_flatMap]
  simp only [Option.mem_toList, Option.mem_def]

theorem Stmt.mem_exprs_trans {part inner : Expr} (inside : inner ∈ part.all) {stmt : Stmt}
    (member : part ∈ stmt.exprs) : inner ∈ stmt.exprs := by
  obtain ⟨value, isValue, within⟩ := Stmt.mem_exprs.mp member
  exact Stmt.mem_exprs.mpr ⟨value, isValue, Expr.mem_all_trans inside value within⟩

/-! ### Functions that change the parts with the whole -/

namespace Expr

theorem parts_mapParts (update : Expr → Expr) (expr : Expr) :
    (expr.mapParts update).parts = expr.parts.map update := by
  cases expr with
  | object _ entries =>
    have values (entry : Property) : (entry.mapValue update).value = update entry.value := by
      cases entry
      rfl
    simp [mapParts, parts, values]
  | _ => simp [mapParts, parts]

theorem mapParts_congr {update further : Expr → Expr} {expr : Expr}
    (same : ∀ part ∈ expr.parts, update part = further part) :
    expr.mapParts update = expr.mapParts further := by
  cases expr with
  | object _ entries =>
    refine congrArg _ (List.map_congr_left ?_)
    rintro ⟨key, value⟩ inside
    exact congrArg _ (same value (List.mem_map_of_mem inside))
  | _ => simp_all [mapParts, parts]

theorem mapParts_mapParts (update further : Expr → Expr) (expr : Expr) :
    (expr.mapParts update).mapParts further = expr.mapParts (further ∘ update) := by
  have values (entry : Property) :
      (entry.mapValue update).mapValue further = entry.mapValue (further ∘ update) := by
    cases entry
    rfl
  cases expr <;> simp [mapParts, values]

theorem mapParts_id (expr : Expr) : expr.mapParts id = expr := by
  have values : Property.mapValue id = id := by
    funext entry
    cases entry
    rfl
  cases expr <;> simp [mapParts, values]

/-- A function that changes an expression as `head` does, and the parts as the expression. -/
structure Maps (head whole : Expr → Expr) : Prop where
  parts_head : ∀ expr, (head expr).parts = expr.parts
  eq : ∀ expr, whole expr = (head expr).mapParts whole

namespace Maps

variable {head further whole other : Expr → Expr} (maps : Maps head whole)

theorem refl : Maps id id :=
  ⟨fun _ => rfl, fun expr => expr.mapParts_id.symm⟩

include maps

theorem parts (expr : Expr) : (whole expr).parts = expr.parts.map whole := by
  rw [maps.eq, parts_mapParts, maps.parts_head]

theorem all (expr : Expr) : (whole expr).all = expr.all.map whole := by
  induction expr using partsInduction with
  | step expr inductionHypothesis =>
    rw [all_eq, maps.parts, all_eq expr, List.map_cons, List.flatMap_map, List.map_flatMap,
      List.flatMap_congr inductionHypothesis]

theorem exprs {stmt changed : Stmt} (isValue : changed.value? = stmt.value?.map whole) :
    changed.exprs = stmt.exprs.map whole := by
  rw [Stmt.exprs_eq, Stmt.exprs_eq, isValue]
  cases stmt.value? <;> simp [maps.all]

theorem congr (others : Maps further other) (expr : Expr)
    (same : ∀ part ∈ expr.all, head part = further part) : whole expr = other expr := by
  induction expr using partsInduction with
  | step expr inductionHypothesis =>
    rw [maps.eq, others.eq, same expr expr.mem_all_self]
    refine mapParts_congr fun part isPart => ?_
    rw [others.parts_head] at isPart
    exact inductionHypothesis part isPart fun inner within =>
      same inner (mem_all_trans within expr (mem_all_of_part isPart))

theorem comp (others : Maps further other)
    (commutes : ∀ update expr, further (mapParts update expr) = (further expr).mapParts update) :
    Maps (further ∘ head) (other ∘ whole) where
  parts_head expr := (others.parts_head _).trans (maps.parts_head expr)
  eq expr := by
    show other (whole expr) = _
    rw [maps.eq, others.eq, commutes, mapParts_mapParts]
    rfl

end Maps

end Expr

end FunctionFlow
