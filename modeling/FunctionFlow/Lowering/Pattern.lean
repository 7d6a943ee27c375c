import FunctionFlow.Lowering.State

/-!
Contract: lowering of binding patterns, imports and exports.

An imported name is read from the property of its exported name, a default import from `default`.
Names that are exported as themselves are global names already.
-/

namespace FunctionFlow.Lowering

def bindPattern (inner : Rules) (context : Context) (node : Node) (scope : ScopeId)
    (kind : DeclKind) (key : Option String) : Lower Unit := do
  match PatternForm.ofKind node.kind with
  | .name =>
    let decl ← declare context scope node kind
    match key with
    | some key => readInto decl key
    | none => return ()
  | .shorthand =>
    let decl ← declare context scope node kind
    readInto decl (← text context node)
  | .defaulted =>
    match node.field? "left" with
    | some left => inner.pattern context left scope kind key
    | none => pure ()
    match node.field? "right" with
    | some right => inner.effects context right
    | none => return ()
  | .pair =>
    let key ← propertyKey? context (node.field? "key")
    match node.field? "value" with
    | some value => inner.pattern context value scope kind key
    | none => return ()
  | .nested => node.parts.forM fun part => inner.pattern context part scope kind none
  | .nothing => return ()

def declareImport (context : Context) (name : Node) (imported : String) : Lower Unit := do
  let decl ← declare context context.scope name .imported
  readInto decl imported

def importSpecifier (context : Context) (node : Node) : Lower Unit := do
  let name := node.field? "name"
  let imported ← propertyKey? context name
  match (node.field? "alias").or name, imported with
  | some visible, some imported => declareImport context visible imported
  | _, _ => return ()

def importClause (inner : Rules) (context : Context) (node : Node) : Lower Unit :=
  node.parts.forM fun part =>
    match part.kind with
    | "identifier" => declareImport context part "default"
    | "import_specifier" => importSpecifier context part
    | "namespace_import" =>
      part.parts.forM fun name => discard <| declare context context.scope name .imported
    | _ => inner.imports context part

def importStatement (inner : Rules) (context : Context) (node : Node) : Lower Unit :=
  (node.parts.filter (·.kind == "import_clause")).forM (inner.imports context)

def exportSpecifier (context : Context) (node : Node) : Lower Unit := do
  let renamed ← propertyKey? context (node.field? "alias")
  match node.field? "name", renamed with
  | some name, some renamed =>
    if name.kind = "identifier" then
      if (← text context name) = renamed then return ()
      else exportProperty renamed (← reference context name)
  | _, _ => return ()

def exportStatement (inner : Rules) (context : Context) (node : Node) : Lower Unit := do
  match node.field? "declaration", node.field? "value" with
  | some declaration, _ =>
    inner.statement context declaration
    match node.hasToken "default", declaration.field? "name" with
    | true, some name => exportProperty "default" (← reference context name)
    | _, _ => return ()
  | none, some value =>
    exportProperty "default" (← inner.expression context value (some "default"))
  | none, none =>
    if (node.field? "source").isNone then
      (node.parts.filter (·.kind == "export_clause")).forM fun clause =>
        clause.parts.forM (exportSpecifier context)

end FunctionFlow.Lowering
