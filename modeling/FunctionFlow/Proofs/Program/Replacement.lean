import FunctionFlow.Proofs.Program.InRange

/-!
Contract: one place of a program, filled with one expression or another.
-/

namespace FunctionFlow

variable {fill : Expr → Program} {part : Expr} {sizes : TableSizes}

mutual
/-- `fill` puts an expression into a place of a larger expression. -/
inductive Expr.Place : (Expr → Expr) → Prop
  | here : Expr.Place fun expr => expr
  | object {fill : Expr → Expr} (node : NodeId) (property : Option String)
    (inside : Expr.Place fill) : Expr.Place fun expr => .member node (fill expr) property
  | callee {fill : Expr → Expr} (node : NodeId) (site : CallId) (args : List Expr)
    (inside : Expr.Place fill) : Expr.Place fun expr => .call node site (fill expr) args
  | args {fill : Expr → List Expr} (node : NodeId) (site : CallId) (callee : Expr)
    (inside : Expr.PlaceIn fill) : Expr.Place fun expr => .call node site callee (fill expr)
  | target {fill : Expr → Expr} (node : NodeId) (value : Expr) (inside : Expr.Place fill) :
    Expr.Place fun expr => .assign node (fill expr) value
  | value {fill : Expr → Expr} (node : NodeId) (target : Expr) (inside : Expr.Place fill) :
    Expr.Place fun expr => .assign node target (fill expr)
  | guards {fill : Expr → List Expr} (node : NodeId) (values : List Expr)
    (inside : Expr.PlaceIn fill) : Expr.Place fun expr => .select node (fill expr) values
  | values {fill : Expr → List Expr} (node : NodeId) (guards : List Expr)
    (inside : Expr.PlaceIn fill) : Expr.Place fun expr => .select node guards (fill expr)
  | properties {fill : Expr → List Property} (node : NodeId) (inside : Property.PlaceIn fill) :
    Expr.Place fun expr => .object node (fill expr)
  | parts {fill : Expr → List Expr} (node : NodeId) (inside : Expr.PlaceIn fill) :
    Expr.Place fun expr => .inert node (fill expr)
/-- `fill` puts an expression into a place of one of several expressions. -/
inductive Expr.PlaceIn : (Expr → List Expr) → Prop
  | first {fill : Expr → Expr} (rest : List Expr) (inside : Expr.Place fill) :
    Expr.PlaceIn fun expr => fill expr :: rest
  | rest {fill : Expr → List Expr} (first : Expr) (inside : Expr.PlaceIn fill) :
    Expr.PlaceIn fun expr => first :: fill expr
/-- `fill` puts an expression into a place of the value of one of several properties. -/
inductive Property.PlaceIn : (Expr → List Property) → Prop
  | first {fill : Expr → Expr} (key : Option String) (rest : List Property)
    (inside : Expr.Place fill) : Property.PlaceIn fun expr => .mk key (fill expr) :: rest
  | rest {fill : Expr → List Property} (first : Property) (inside : Property.PlaceIn fill) :
    Property.PlaceIn fun expr => first :: fill expr
end

/-- `fill` puts an expression into a place of a statement. -/
inductive Stmt.Place : (Expr → Stmt) → Prop
  | expr {fill : Expr → Expr} (inside : Expr.Place fill) : Stmt.Place fun expr => .expr (fill expr)
  | declare {fill : Expr → Expr} (decl : DeclId) (inside : Expr.Place fill) :
    Stmt.Place fun expr => .declare decl (some (fill expr))
  | result {fill : Expr → Expr} (inside : Expr.Place fill) :
    Stmt.Place fun expr => .result (some (fill expr))

/-- `fill` puts an expression into a place of a body of a program. -/
inductive Program.Place : (Expr → Program) → Prop
  | topLevel {fill : Expr → Stmt} (program : Program) (earlier later : List SourceModule)
    (top : SourceModule) (before after : List Stmt) (inside : Stmt.Place fill) :
    Program.Place fun expr =>
      { program with modules :=
          (earlier ++ { top with body := before ++ fill expr :: after } :: later).toArray }
  | function {fill : Expr → Stmt} (program : Program) (earlier later : List FunctionDef)
    (definition : FunctionDef) (before after : List Stmt) (inside : Stmt.Place fill) :
    Program.Place fun expr =>
      { program with functions :=
          (earlier ++ { definition with body := before ++ fill expr :: after } :: later).toArray }

/-! ### Around the place -/

/-- The expression with its parts left aside. -/
def Expr.bare : Expr → Expr
  | .member node _ property => .member node (.inert 0 []) property
  | .call node site _ _ => .call node site (.inert 0 []) []
  | .assign node _ _ => .assign node (.inert 0 []) (.inert 0 [])
  | .select node _ _ => .select node [] []
  | .object node _ => .object node []
  | .inert node _ => .inert node []
  | expr => expr

theorem Expr.node_bare (expr : Expr) : expr.bare.node = expr.node := by
  cases expr <;> rfl

theorem Expr.headInRange_bare (expr : Expr) :
    expr.bare.HeadInRange sizes ↔ expr.HeadInRange sizes := by
  cases expr <;> rfl

def Expr.OneMore (extra : Expr) (more less : List Expr) : Prop :=
  (more.map Expr.bare).Perm (extra :: less.map Expr.bare)

namespace Expr.OneMore

variable {extra : Expr} {more less : List Expr}

section

variable (oneMore : Expr.OneMore extra more less)
include oneMore

theorem append_right (rest : List Expr) :
    Expr.OneMore extra (more ++ rest) (less ++ rest) := by
  unfold Expr.OneMore at oneMore ⊢
  rw [List.map_append, List.map_append, ← List.cons_append]
  exact oneMore.append_right _

theorem append_left (rest : List Expr) :
    Expr.OneMore extra (rest ++ more) (rest ++ less) := by
  unfold Expr.OneMore at oneMore ⊢
  rw [List.map_append, List.map_append]
  exact (oneMore.append_left _).trans List.perm_middle

theorem cons {first other : Expr}
    (same : first.bare = other.bare) : Expr.OneMore extra (first :: more) (other :: less) := by
  unfold Expr.OneMore at oneMore ⊢
  rw [List.map_cons, List.map_cons, same]
  exact (oneMore.cons _).trans (List.Perm.swap _ _ _)

theorem nodes :
    (more.map Expr.node).Perm (extra.node :: less.map Expr.node) := by
  have mapped := oneMore.map Expr.node
  simp only [List.map_map, List.map_cons, Function.comp_def, Expr.node_bare] at mapped
  exact mapped

theorem exists_bare (member : part ∈ less) :
    ∃ whole ∈ more, whole.bare = part.bare :=
  List.mem_map.mp (oneMore.mem_iff.mpr (List.mem_cons_of_mem _ (List.mem_map_of_mem member)))

theorem bare_cases (member : part ∈ more) :
    part.bare = extra ∨ ∃ whole ∈ less, whole.bare = part.bare := by
  rcases List.mem_cons.mp (oneMore.mem_iff.mp (List.mem_map_of_mem member)) with same | found
  · exact .inl same
  · exact .inr (List.mem_map.mp found)

theorem headInRange (inRange : ∀ part ∈ more, part.HeadInRange sizes) :
    ∀ part ∈ less, part.HeadInRange sizes := by
  intro part member
  obtain ⟨whole, isWhole, same⟩ := oneMore.exists_bare member
  rw [← Expr.headInRange_bare, ← same, Expr.headInRange_bare]
  exact inRange whole isWhole

end

end Expr.OneMore

section

variable {extra old new : Expr}

mutual
theorem Expr.Place.oneMore (oneMore : Expr.OneMore extra old.all new.all) {fill : Expr → Expr} :
    Expr.Place fill → Expr.OneMore extra (fill old).all (fill new).all
  | .here => oneMore
  | .object _ _ inside => .cons (inside.oneMore oneMore) rfl
  | .callee _ _ _ inside => .cons ((inside.oneMore oneMore).append_right _) rfl
  | .args _ _ _ inside => .cons ((inside.oneMore oneMore).append_left _) rfl
  | .target _ _ inside => .cons ((inside.oneMore oneMore).append_right _) rfl
  | .value _ _ inside => .cons ((inside.oneMore oneMore).append_left _) rfl
  | .guards _ _ inside => .cons ((inside.oneMore oneMore).append_right _) rfl
  | .values _ _ inside => .cons ((inside.oneMore oneMore).append_left _) rfl
  | .properties _ inside => .cons (inside.oneMore oneMore) rfl
  | .parts _ inside => .cons (inside.oneMore oneMore) rfl
theorem Expr.PlaceIn.oneMore (oneMore : Expr.OneMore extra old.all new.all)
    {fill : Expr → List Expr} :
    Expr.PlaceIn fill → Expr.OneMore extra (Expr.allOf (fill old)) (Expr.allOf (fill new))
  | .first _ inside => (inside.oneMore oneMore).append_right _
  | .rest _ inside => (inside.oneMore oneMore).append_left _
theorem Property.PlaceIn.oneMore (oneMore : Expr.OneMore extra old.all new.all)
    {fill : Expr → List Property} :
    Property.PlaceIn fill →
      Expr.OneMore extra (Property.allOf (fill old)) (Property.allOf (fill new))
  | .first _ _ inside => (inside.oneMore oneMore).append_right _
  | .rest (.mk _ _) inside => (inside.oneMore oneMore).append_left _
end

mutual
theorem Expr.Place.mem_all (inside : part ∈ old.all) {fill : Expr → Expr} :
    Expr.Place fill → part ∈ (fill old).all
  | .here => inside
  | .object _ _ place => List.mem_cons_of_mem _ (place.mem_all inside)
  | .callee _ _ _ place => List.mem_cons_of_mem _ (List.mem_append_left _ (place.mem_all inside))
  | .args _ _ _ place => List.mem_cons_of_mem _ (List.mem_append_right _ (place.mem_allOf inside))
  | .target _ _ place => List.mem_cons_of_mem _ (List.mem_append_left _ (place.mem_all inside))
  | .value _ _ place => List.mem_cons_of_mem _ (List.mem_append_right _ (place.mem_all inside))
  | .guards _ _ place => List.mem_cons_of_mem _ (List.mem_append_left _ (place.mem_allOf inside))
  | .values _ _ place => List.mem_cons_of_mem _ (List.mem_append_right _ (place.mem_allOf inside))
  | .properties _ place => List.mem_cons_of_mem _ (place.mem_allOf inside)
  | .parts _ place => List.mem_cons_of_mem _ (place.mem_allOf inside)
theorem Expr.PlaceIn.mem_allOf (inside : part ∈ old.all) {fill : Expr → List Expr} :
    Expr.PlaceIn fill → part ∈ Expr.allOf (fill old)
  | .first _ place => List.mem_append_left _ (place.mem_all inside)
  | .rest _ place => List.mem_append_right _ (place.mem_allOf inside)
theorem Property.PlaceIn.mem_allOf (inside : part ∈ old.all) {fill : Expr → List Property} :
    Property.PlaceIn fill → part ∈ Property.allOf (fill old)
  | .first _ _ place => List.mem_append_left _ (place.mem_all inside)
  | .rest (.mk _ _) place => List.mem_append_right _ (place.mem_allOf inside)
end

theorem Stmt.Place.oneMore (oneMore : Expr.OneMore extra old.all new.all) {fill : Expr → Stmt}
    (place : Stmt.Place fill) : Expr.OneMore extra (fill old).exprs (fill new).exprs := by
  cases place with
  | expr inside | declare _ inside | result inside => exact inside.oneMore oneMore

theorem Program.Place.bodies (place : Program.Place fill) :
    ∃ earlier later owner before after fillStmt, Stmt.Place fillStmt ∧ ∀ expr,
      (fill expr).bodies = earlier ++ (owner, before ++ fillStmt expr :: after) :: later := by
  let ofModules (tops : List SourceModule) : List (Option FunctionId × List Stmt) :=
    tops.map fun top => (none, top.body)
  let ofFunctions (definitions : List FunctionDef) (first : Nat) :
      List (Option FunctionId × List Stmt) :=
    (definitions.zipIdx first).map fun entry => (some entry.2, entry.1.body)
  cases place with
  | @topLevel fillStmt program earlier later top before after inside =>
    refine ⟨ofModules earlier, ofModules later ++ ofFunctions program.functions.toList 0, none,
      before, after, fillStmt, inside, fun expr => ?_⟩
    simp only [Program.bodies, ofModules, ofFunctions, List.map_append, List.map_cons,
      List.append_assoc, List.cons_append]
  | @function fillStmt program earlier later definition before after inside =>
    refine ⟨ofModules program.modules.toList ++ ofFunctions earlier 0,
      ofFunctions later (earlier.length + 1), some earlier.length, before, after, fillStmt, inside,
      fun expr => ?_⟩
    simp only [Program.bodies, ofModules, ofFunctions, List.zipIdx_append, List.zipIdx_cons,
      List.map_append, List.map_cons, Nat.zero_add, List.append_assoc]

theorem Program.Place.mem_exprs (place : Program.Place fill) (inside : part ∈ old.all) :
    part ∈ (fill old).exprs := by
  obtain ⟨earlier, later, owner, before, after, fillStmt, filled, bodies⟩ := place.bodies
  have member : part ∈ (fillStmt old).exprs := by
    cases filled with
    | expr place | declare _ place | result place => exact place.mem_all inside
  simp [Program.exprs, bodies, member]

theorem Program.Place.exists_stmt (place : Program.Place fill) (old new : Expr)
    {owner : Option FunctionId} {body : List Stmt} {stmt : Stmt}
    (isBody : (owner, body) ∈ (fill old).bodies) (inBody : stmt ∈ body) :
    ∃ newBody newStmt, (owner, newBody) ∈ (fill new).bodies ∧ newStmt ∈ newBody ∧
      (newStmt = stmt ∨
        ∃ fillStmt, Stmt.Place fillStmt ∧ stmt = fillStmt old ∧ newStmt = fillStmt new) := by
  obtain ⟨earlier, later, filled, before, after, fillStmt, inside, bodies⟩ := place.bodies
  simp only [bodies, List.mem_append, List.mem_cons, Prod.mk.injEq] at isBody ⊢
  rcases isBody with isEarlier | ⟨rfl, rfl⟩ | isLater
  · exact ⟨body, stmt, .inl isEarlier, inBody, .inl rfl⟩
  · refine ⟨before ++ fillStmt new :: after, ?_⟩
    rcases List.mem_append.mp inBody with isBefore | isAfter
    · exact ⟨stmt, .inr (.inl ⟨rfl, rfl⟩), List.mem_append_left _ isBefore, .inl rfl⟩
    rcases List.mem_cons.mp isAfter with rfl | isAfter
    · exact ⟨_, .inr (.inl ⟨rfl, rfl⟩), List.mem_append_right _ List.mem_cons_self,
        .inr ⟨fillStmt, inside, rfl, rfl⟩⟩
    · exact ⟨stmt, .inr (.inl ⟨rfl, rfl⟩),
        List.mem_append_right _ (List.mem_cons_of_mem _ isAfter), .inl rfl⟩
  · exact ⟨body, stmt, .inr (.inr isLater), inBody, .inl rfl⟩

theorem Program.Place.oneMore (oneMore : Expr.OneMore extra old.all new.all)
    (place : Program.Place fill) : Expr.OneMore extra (fill old).exprs (fill new).exprs := by
  obtain ⟨earlier, later, owner, before, after, fillStmt, inside, bodies⟩ := place.bodies
  simp only [Program.exprs, bodies, List.flatMap_append, List.flatMap_cons]
  exact ((((inside.oneMore oneMore).append_right _).append_left _).append_right _).append_left _

theorem Program.Place.bodyHas (oneMore : Expr.OneMore extra old.all new.all)
    (place : Program.Place fill) {owner : Option FunctionId} :
    ((fill old).BodyHas owner part →
      part.bare = extra ∨ ∃ whole, (fill new).BodyHas owner whole ∧ whole.bare = part.bare) ∧
    ((fill new).BodyHas owner part →
      ∃ whole, (fill old).BodyHas owner whole ∧ whole.bare = part.bare) := by
  constructor
  · rintro ⟨body, stmt, isBody, inBody, inStmt⟩
    obtain ⟨newBody, newStmt, isNew, inNew, rfl | ⟨fillStmt, inside, rfl, rfl⟩⟩ :=
      place.exists_stmt old new isBody inBody
    · exact .inr ⟨part, ⟨newBody, newStmt, isNew, inNew, inStmt⟩, rfl⟩
    · exact ((inside.oneMore oneMore).bare_cases inStmt).imp_right fun ⟨whole, inWhole, same⟩ =>
        ⟨whole, ⟨newBody, _, isNew, inNew, inWhole⟩, same⟩
  · rintro ⟨body, stmt, isBody, inBody, inStmt⟩
    obtain ⟨oldBody, oldStmt, isOld, inOld, rfl | ⟨fillStmt, inside, rfl, rfl⟩⟩ :=
      place.exists_stmt new old isBody inBody
    · exact ⟨part, ⟨oldBody, oldStmt, isOld, inOld, inStmt⟩, rfl⟩
    · obtain ⟨whole, inWhole, same⟩ := (inside.oneMore oneMore).exists_bare inStmt
      exact ⟨whole, ⟨oldBody, _, isOld, inOld, inWhole⟩, same⟩

/-! ### Tables -/

theorem Stmt.Place.inRange (oneMore : Expr.OneMore extra old.all new.all) {fill : Expr → Stmt}
    (place : Stmt.Place fill) (inRange : (fill old).InRange sizes) : (fill new).InRange sizes := by
  cases place with
  | expr inside => exact (inside.oneMore oneMore).headInRange inRange
  | declare _ inside =>
    refine ⟨inRange.1, ?_⟩
    rintro _ ⟨⟩
    exact (inside.oneMore oneMore).headInRange (inRange.2 _ rfl)
  | result inside =>
    rintro _ ⟨⟩
    exact (inside.oneMore oneMore).headInRange (inRange _ rfl)

theorem Program.Place.inRange (oneMore : Expr.OneMore extra old.all new.all)
    (place : Program.Place fill) (inRange : (fill old).InRange) : (fill new).InRange := by
  have sizes : (fill new).sizes = (fill old).sizes := by
    cases place with
    | topLevel => rfl
    | function => simp [Program.sizes]
  have filled {sizes : TableSizes} {fill : Expr → Stmt} {before after : List Stmt}
      (inside : Stmt.Place fill)
      (body : ∀ stmt ∈ before ++ fill old :: after, stmt.InRange sizes) :
      ∀ stmt ∈ before ++ fill new :: after, stmt.InRange sizes := by
    simp only [List.forall_mem_append, List.forall_mem_cons] at body ⊢
    exact ⟨body.1, inside.inRange oneMore body.2.1, body.2.2⟩
  cases place with
  | topLevel program earlier later top before after inside =>
    refine ⟨inRange.functions, inRange.calls, inRange.decls, inRange.scopes, ?_⟩
    have modules := inRange.modules
    simp only [List.mem_toArray, List.forall_mem_append, List.forall_mem_cons] at modules ⊢
    obtain ⟨first, ⟨file, scope, body⟩, last⟩ := modules
    exact ⟨first, ⟨file, scope, filled inside body⟩, last⟩
  | function program earlier later definition before after inside =>
    have functions := inRange.functions
    simp only [List.mem_toArray, List.forall_mem_append, List.forall_mem_cons] at functions
    obtain ⟨first, ⟨id, file, enclosing, params, scope, body⟩, last⟩ := functions
    constructor
    all_goals rw [sizes]
    case functions =>
      simp only [List.mem_toArray, List.forall_mem_append, List.forall_mem_cons]
      exact ⟨first, ⟨id, file, enclosing, params, scope, filled inside body⟩, last⟩
    case calls => exact inRange.calls
    case decls => exact inRange.decls
    case scopes => exact inRange.scopes
    case modules => exact inRange.modules

end

/-- Two programs agree in all but their bodies, as far as the analyses read them. -/
structure Program.SameTables (program other : Program) : Prop where
  functions : other.functions.size = program.functions.size
  calls : other.calls = program.calls
  decls : other.decls = program.decls
  scopes : other.scopes = program.scopes
  ownScopes : other.functions.toList.map (·.scope) = program.functions.toList.map (·.scope)

theorem Program.Place.sameTables (place : Program.Place fill) (old new : Expr) :
    (fill old).SameTables (fill new) := by
  cases place with
  | topLevel => exact ⟨rfl, rfl, rfl, rfl, rfl⟩
  | function => exact ⟨by simp, rfl, rfl, rfl, by simp⟩

end FunctionFlow
