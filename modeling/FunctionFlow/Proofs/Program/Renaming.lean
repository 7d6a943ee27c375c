import FunctionFlow.Proofs.Program.InRange

/-!
Contract: programs under other ids.
-/

namespace FunctionFlow

/-- The kinds of positions and identities in a program. -/
inductive IdKind where
  | file
  | function
  | call
  | decl
  | scope
  | node
  /-- Positions in the table of top-level code. -/
  | top
  deriving DecidableEq, Repr

abbrev Renaming := IdKind → Nat → Nat

namespace Renaming

def refl : Renaming := fun _ id => id

def trans (first second : Renaming) : Renaming := fun kind => second kind ∘ first kind

@[simp] theorem trans_kind (first second : Renaming) (kind : IdKind) :
    first.trans second kind = second kind ∘ first kind := rfl

def shift (distance : IdKind → Nat) : Renaming := fun kind id => distance kind + id

end Renaming

/-! ### What holds ids -/

def NameTable.map {α β : Type} (update : α → β) (table : NameTable α) : NameTable β where
  entries := table.entries.map fun entry => (entry.1, update entry.2)

def Binding.rename (ids : Renaming) : Binding → Binding
  | unresolved => unresolved
  | declared decl => declared (ids .decl decl)
  | global => global

def Reference.rename (ids : Renaming) (reference : Reference) : Reference where
  name := reference.name
  scope := ids .scope reference.scope
  binding := reference.binding.rename ids

mutual
def Expr.rename (ids : Renaming) : Expr → Expr
  | .function node target => .function (ids .node node) (ids .function target)
  | .ident node reference => .ident (ids .node node) (reference.rename ids)
  | .this node owner => .this (ids .node node) (owner.map (ids .function))
  | .member node whole name => .member (ids .node node) (whole.rename ids) name
  | .call node site callee arguments =>
    .call (ids .node node) (ids .call site) (callee.rename ids)
      (Expr.renameAll ids arguments)
  | .assign node target value =>
    .assign (ids .node node) (target.rename ids) (value.rename ids)
  | .select node guards values =>
    .select (ids .node node) (Expr.renameAll ids guards) (Expr.renameAll ids values)
  | .object node entries => .object (ids .node node) (Property.renameAll ids entries)
  | .inert node parts => .inert (ids .node node) (Expr.renameAll ids parts)
def Expr.renameAll (ids : Renaming) : List Expr → List Expr
  | [] => []
  | first :: rest => first.rename ids :: Expr.renameAll ids rest
def Property.renameAll (ids : Renaming) : List Property → List Property
  | [] => []
  | .mk key value :: rest => .mk key (value.rename ids) :: Property.renameAll ids rest
end

def Property.rename (ids : Renaming) : Property → Property
  | .mk key value => .mk key (value.rename ids)

def Stmt.rename (ids : Renaming) : Stmt → Stmt
  | .expr value => .expr (value.rename ids)
  | .declare decl initial => .declare (ids .decl decl) (initial.map (·.rename ids))
  | .result returned => .result (returned.map (·.rename ids))

def DeclKind.rename (ids : Renaming) : DeclKind → DeclKind
  | parameter owner index => parameter (ids .function owner) index
  | kind => kind

def Declaration.rename (ids : Renaming) (decl : Declaration) : Declaration :=
  { decl with
    id := ids .decl decl.id
    kind := decl.kind.rename ids
    scope := ids .scope decl.scope
    file := ids .file decl.file
    functionValue := decl.functionValue.map (ids .function) }

def Scope.rename (ids : Renaming) (scope : Scope) : Scope :=
  { scope with
    id := ids .scope scope.id
    parent := scope.parent.map (ids .scope)
    names := scope.names.map (ids .decl) }

def FunctionDef.rename (ids : Renaming) (definition : FunctionDef) : FunctionDef :=
  { definition with
    id := ids .function definition.id
    file := ids .file definition.file
    enclosing := definition.enclosing.map (ids .function)
    params := definition.params.map (·.map (ids .decl))
    scope := ids .scope definition.scope
    body := definition.body.map (·.rename ids) }

def CallSite.rename (ids : Renaming) (site : CallSite) : CallSite :=
  { site with
    id := ids .call site.id
    file := ids .file site.file
    enclosing := site.enclosing.map (ids .function) }

def SourceModule.rename (ids : Renaming) (top : SourceModule) : SourceModule where
  file := ids .file top.file
  scope := ids .scope top.scope
  body := top.body.map (·.rename ids)

/-! ### Expressions, form by form -/

@[simp] theorem Expr.renameAll_eq (ids : Renaming) (exprs : List Expr) :
    Expr.renameAll ids exprs = exprs.map (Expr.rename ids) := by
  induction exprs with
  | nil => rfl
  | cons first rest inductionHypothesis => rw [Expr.renameAll, inductionHypothesis, List.map_cons]

@[simp] theorem Property.renameAll_eq (ids : Renaming) (entries : List Property) :
    Property.renameAll ids entries = entries.map (Property.rename ids) := by
  induction entries with
  | nil => rfl
  | cons first rest inductionHypothesis =>
    obtain ⟨key, value⟩ := first
    rw [Property.renameAll, inductionHypothesis, List.map_cons, Property.rename]

theorem Expr.literal?_rename (ids : Renaming) (expr : Expr) :
    (expr.rename ids).literal? = expr.literal?.map (ids .function) := by
  cases expr <;> rfl

theorem Expr.isMember_rename (ids : Renaming) (expr : Expr) :
    (expr.rename ids).isMember = expr.isMember := by
  cases expr <;> rfl

def Expr.renameHead (ids : Renaming) : Expr → Expr
  | .function node target => .function (ids .node node) (ids .function target)
  | .ident node reference => .ident (ids .node node) (reference.rename ids)
  | .this node owner => .this (ids .node node) (owner.map (ids .function))
  | .member node whole name => .member (ids .node node) whole name
  | .call node site callee arguments => .call (ids .node node) (ids .call site) callee arguments
  | .assign node target value => .assign (ids .node node) target value
  | .select node guards values => .select (ids .node node) guards values
  | .object node entries => .object (ids .node node) entries
  | .inert node parts => .inert (ids .node node) parts

theorem Expr.rename_maps (ids : Renaming) : Expr.Maps (Expr.renameHead ids) (Expr.rename ids) where
  parts_head expr := by cases expr <;> rfl
  eq expr := by
    have values : Property.rename ids = Property.mapValue (Expr.rename ids) := by
      funext entry
      cases entry
      rfl
    cases expr <;> simp only [Expr.rename, Expr.renameHead, Expr.mapParts, Expr.renameAll_eq,
      Property.renameAll_eq, values]

theorem Stmt.exprs_rename (ids : Renaming) (stmt : Stmt) :
    (stmt.rename ids).exprs = stmt.exprs.map (Expr.rename ids) :=
  (Expr.rename_maps ids).exprs (by cases stmt <;> rfl)

/-! ### Two renamings in a row -/

section

variable {first second : Renaming}

@[simp] theorem NameTable.map_map {α β γ : Type} (update : α → β) (further : β → γ)
    (table : NameTable α) : (table.map update).map further = table.map (further ∘ update) := by
  simp [NameTable.map, Function.comp_def]

@[simp] theorem Binding.rename_rename (binding : Binding) :
    (binding.rename first).rename second = binding.rename (first.trans second) := by
  cases binding <;> rfl

@[simp] theorem Reference.rename_rename (reference : Reference) :
    (reference.rename first).rename second = reference.rename (first.trans second) := by
  simp [Reference.rename]

@[simp] theorem Expr.rename_rename (expr : Expr) :
    (expr.rename first).rename second = expr.rename (first.trans second) := by
  have both := (Expr.rename_maps first).comp (Expr.rename_maps second)
    fun _ expr => by cases expr <;> rfl
  exact both.congr (Expr.rename_maps _) expr fun part _ => by cases part <;> simp [Expr.renameHead]

@[simp] theorem Stmt.rename_rename (stmt : Stmt) :
    (stmt.rename first).rename second = stmt.rename (first.trans second) := by
  cases stmt <;> simp [Stmt.rename, Function.comp_def]

@[simp] theorem DeclKind.rename_rename (kind : DeclKind) :
    (kind.rename first).rename second = kind.rename (first.trans second) := by
  cases kind <;> rfl

@[simp] theorem Declaration.rename_rename (decl : Declaration) :
    (decl.rename first).rename second = decl.rename (first.trans second) := by
  simp [Declaration.rename]

@[simp] theorem Scope.rename_rename (scope : Scope) :
    (scope.rename first).rename second = scope.rename (first.trans second) := by
  simp [Scope.rename]

@[simp] theorem FunctionDef.rename_rename (definition : FunctionDef) :
    (definition.rename first).rename second = definition.rename (first.trans second) := by
  simp [FunctionDef.rename, Function.comp_def]

@[simp] theorem CallSite.rename_rename (site : CallSite) :
    (site.rename first).rename second = site.rename (first.trans second) := by
  simp [CallSite.rename]

@[simp] theorem SourceModule.rename_rename (top : SourceModule) :
    (top.rename first).rename second = top.rename (first.trans second) := by
  simp [SourceModule.rename, Function.comp_def]

end

/-! ### The trivial renaming -/

@[simp] theorem Renaming.refl_kind (kind : IdKind) : Renaming.refl kind = id := rfl

@[simp] theorem NameTable.map_id {α : Type} (table : NameTable α) : table.map id = table := by
  simp [NameTable.map]

@[simp] theorem Binding.rename_refl (binding : Binding) : binding.rename .refl = binding := by
  cases binding <;> rfl

@[simp] theorem Expr.rename_refl (expr : Expr) : expr.rename .refl = expr :=
  (Expr.rename_maps _).congr .refl expr fun part _ => by
    cases part <;> simp [Expr.renameHead, Reference.rename]

@[simp] theorem Stmt.rename_refl (stmt : Stmt) : stmt.rename .refl = stmt := by
  cases stmt <;> simp [Stmt.rename]

@[simp] theorem DeclKind.rename_refl (kind : DeclKind) : kind.rename .refl = kind := by
  cases kind <;> rfl

@[simp] theorem Declaration.rename_refl (decl : Declaration) : decl.rename .refl = decl := by
  simp [Declaration.rename]

@[simp] theorem Scope.rename_refl (scope : Scope) : scope.rename .refl = scope := by
  simp [Scope.rename]

@[simp] theorem FunctionDef.rename_refl (definition : FunctionDef) :
    definition.rename .refl = definition := by
  simp [FunctionDef.rename]

theorem FunctionDef.map_rename_refl : List.map (FunctionDef.rename .refl) = fun all => all := by
  funext definitions
  exact (List.map_congr_left fun definition _ => definition.rename_refl).trans (List.map_id _)

@[simp] theorem CallSite.rename_refl (site : CallSite) : site.rename .refl = site := by
  simp [CallSite.rename]

@[simp] theorem SourceModule.rename_refl (top : SourceModule) : top.rename .refl = top := by
  simp [SourceModule.rename]

theorem SourceModule.map_rename_refl : List.map (SourceModule.rename .refl) = id := by
  funext tops
  exact (List.map_congr_left fun top _ => top.rename_refl).trans (List.map_id _)

/-! ### Only the ids that occur count -/

def Program.counts (program : Program) : IdKind → Nat
  | .file => program.files.size
  | .function => program.functions.size
  | .call => program.calls.size
  | .decl => program.decls.size
  | .scope => program.scopes.size
  | .node => program.nextNode
  | .top => program.modules.size

def Program.Agree (program : Program) (first second : Renaming) : Prop :=
  ∀ kind, ∀ id < program.counts kind, first kind id = second kind id

def Expr.Known (program : Program) (expr : Expr) : Prop :=
  ∀ part ∈ expr.all, part.HeadInRange program.sizes ∧ part.node < program.nextNode

section

variable {program : Program} {first second : Renaming} (agree : program.Agree first second)
include agree

theorem Program.Agree.map {kind : IdKind} {id : Option Nat}
    (below : ∀ value ∈ id, value < program.counts kind) :
    id.map (first kind) = id.map (second kind) :=
  Option.map_congr fun value isValue => agree kind value (below value isValue)

theorem Binding.rename_congr {binding : Binding} (inRange : binding.InRange program.sizes) :
    binding.rename first = binding.rename second := by
  cases binding with
  | declared decl => exact congrArg declared (agree .decl decl inRange)
  | unresolved | global => rfl

theorem Expr.rename_congr (expr : Expr) (known : expr.Known program) :
    expr.rename first = expr.rename second := by
  refine (Expr.rename_maps _).congr (Expr.rename_maps _) expr fun part inside => ?_
  obtain ⟨inRange, numbered⟩ := known part inside
  have sameNode := agree .node part.node numbered
  cases part with
  | function _ target => exact congrArg₂ Expr.function sameNode (agree .function target inRange)
  | ident _ reference =>
    have sameScope : first .scope reference.scope = second .scope reference.scope :=
      agree .scope reference.scope inRange.1
    refine congrArg₂ Expr.ident sameNode ?_
    simp only [Reference.rename, sameScope, Binding.rename_congr agree inRange.2]
  | this _ owner => exact congrArg₂ Expr.this sameNode (agree.map inRange)
  | call _ site callee arguments =>
    exact congrArg₂ (Expr.call · · callee arguments) sameNode (agree .call site inRange)
  | member _ whole name => exact congrArg (Expr.member · whole name) sameNode
  | assign _ target value => exact congrArg (Expr.assign · target value) sameNode
  | select _ guards values => exact congrArg (Expr.select · guards values) sameNode
  | object _ entries => exact congrArg (Expr.object · entries) sameNode
  | inert _ parts => exact congrArg (Expr.inert · parts) sameNode

theorem Stmt.rename_congr {stmt : Stmt} (inRange : stmt.InRange program.sizes)
    (numbered : ∀ expr ∈ stmt.exprs, expr.node < program.nextNode) :
    stmt.rename first = stmt.rename second := by
  have sameValue (value : Expr) (isValue : value ∈ stmt.value?) :
      value.rename first = value.rename second :=
    Expr.rename_congr agree value fun part inside =>
      ⟨inRange.value isValue part inside, numbered part (Stmt.mem_exprs.mpr ⟨value, isValue, inside⟩)⟩
  cases stmt with
  | expr value => exact congrArg Stmt.expr (sameValue value rfl)
  | declare decl =>
    exact congrArg₂ Stmt.declare (agree .decl decl inRange.1) (Option.map_congr sameValue)
  | result => exact congrArg Stmt.result (Option.map_congr sameValue)

theorem body_rename_congr {body : List Stmt}
    (inRange : ∀ stmt ∈ body, stmt.InRange program.sizes)
    (numbered : ∀ stmt ∈ body, ∀ expr ∈ stmt.exprs, expr.node < program.nextNode) :
    body.map (Stmt.rename first) = body.map (Stmt.rename second) :=
  List.map_congr_left fun stmt inside =>
    Stmt.rename_congr agree (inRange stmt inside) (numbered stmt inside)

theorem Declaration.rename_congr {decl : Declaration} (inRange : decl.InRange program.sizes) :
    decl.rename first = decl.rename second := by
  have sameId : first .decl decl.id = second .decl decl.id := agree .decl decl.id inRange.id
  have sameScope : first .scope decl.scope = second .scope decl.scope :=
    agree .scope decl.scope inRange.scope
  have sameFile : first .file decl.file = second .file decl.file :=
    agree .file decl.file inRange.file
  have sameValue : decl.functionValue.map (first .function) =
      decl.functionValue.map (second .function) := agree.map inRange.functionValue
  have sameKind : decl.kind.rename first = decl.kind.rename second := by
    have kindInRange := inRange.kind
    cases kind : decl.kind with
    | parameter owner index =>
      rw [kind] at kindInRange
      exact congrArg (DeclKind.parameter · index) (agree .function owner kindInRange)
    | _ => rfl
  simp only [Declaration.rename, sameId, sameScope, sameFile, sameValue, sameKind]

theorem Scope.rename_congr {scope : Scope} (inRange : scope.InRange program.sizes) :
    scope.rename first = scope.rename second := by
  have sameId : first .scope scope.id = second .scope scope.id := agree .scope scope.id inRange.id
  have sameParent : scope.parent.map (first .scope) = scope.parent.map (second .scope) :=
    agree.map inRange.parent
  have sameNames : scope.names.map (first .decl) = scope.names.map (second .decl) := by
    refine congrArg NameTable.mk (List.map_congr_left fun entry inside => ?_)
    exact congrArg (Prod.mk entry.1) (agree .decl entry.2 (inRange.names entry inside))
  simp only [Scope.rename, sameId, sameParent, sameNames]

theorem FunctionDef.rename_congr {definition : FunctionDef}
    (inRange : definition.InRange program.sizes)
    (numbered : ∀ stmt ∈ definition.body, ∀ expr ∈ stmt.exprs, expr.node < program.nextNode) :
    definition.rename first = definition.rename second := by
  have sameId : first .function definition.id = second .function definition.id :=
    agree .function definition.id inRange.id
  have sameFile : first .file definition.file = second .file definition.file :=
    agree .file definition.file inRange.file
  have sameScope : first .scope definition.scope = second .scope definition.scope :=
    agree .scope definition.scope inRange.scope
  have sameEnclosing : definition.enclosing.map (first .function) =
      definition.enclosing.map (second .function) := agree.map inRange.enclosing
  have sameParams : definition.params.map (·.map (first .decl)) =
      definition.params.map (·.map (second .decl)) :=
    List.map_congr_left fun param inside => agree.map (inRange.params param inside)
  simp only [FunctionDef.rename, sameId, sameFile, sameScope, sameEnclosing, sameParams,
    body_rename_congr agree inRange.body numbered]

theorem CallSite.rename_congr {site : CallSite} (inRange : site.InRange program.sizes) :
    site.rename first = site.rename second := by
  have sameId : first .call site.id = second .call site.id := agree .call site.id inRange.id
  have sameFile : first .file site.file = second .file site.file :=
    agree .file site.file inRange.file
  have sameEnclosing : site.enclosing.map (first .function) =
      site.enclosing.map (second .function) := agree.map inRange.enclosing
  simp only [CallSite.rename, sameId, sameFile, sameEnclosing]

theorem SourceModule.rename_congr {top : SourceModule} (inRange : top.InRange program.sizes)
    (numbered : ∀ stmt ∈ top.body, ∀ expr ∈ stmt.exprs, expr.node < program.nextNode) :
    top.rename first = top.rename second := by
  have sameFile : first .file top.file = second .file top.file := agree .file top.file inRange.file
  have sameScope : first .scope top.scope = second .scope top.scope :=
    agree .scope top.scope inRange.scope
  simp only [SourceModule.rename, sameFile, sameScope,
    body_rename_congr agree inRange.body numbered]

end

end FunctionFlow
