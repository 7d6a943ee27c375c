import FunctionFlow.Lowering.Expression
import FunctionFlow.Lowering.Pattern

/-!
Contract: lowering of statements, and of whole trees.

The rules for one more level of height are built from the rules for one level less, so lowering
follows the tree and ends.
-/

namespace FunctionFlow.Lowering

def functionDeclaration (inner : Rules) (context : Context) (node : Node) : Lower Unit := do
  let name ← text? context (node.field? "name")
  let function ← functionDef inner context node name
  match node.field? "name" with
  | some name =>
    let decl ← declare context context.scope name .function
    emit (.declare decl (some (← fresh (.function · function))))
  | none => return ()

def classDeclaration (inner : Rules) (context : Context) (node : Node) : Lower Unit := do
  let name ← text? context (node.field? "name")
  let value ← classDef inner context node name
  match node.field? "name" with
  | some name =>
    let decl ← declare context context.scope name .classDef
    emit (.declare decl (some value))
  | none => return ()

def declarator (inner : Rules) (context : Context) (scope : ScopeId) (kind : DeclKind)
    (node : Node) : Lower Unit := do
  match node.field? "name" with
  | some name =>
    if name.kind = "identifier" then
      let decl ← declare context scope name kind
      match node.field? "value" with
      | some value =>
        let hint ← text context name
        emit (.declare decl (some (← inner.expression context value (some hint))))
      | none => emit (.declare decl none)
    else
      inner.pattern context name scope kind none
      match node.field? "value" with
      | some value => inner.effects context value
      | none => return ()
  | none => return ()

def declarators (inner : Rules) (context : Context) (scope : ScopeId) (kind : DeclKind)
    (node : Node) : Lower Unit :=
  (node.parts.filter (·.kind == "variable_declarator")).forM
    (declarator inner context scope kind)

def lexicalKind (node : Node) : DeclKind :=
  match node.children.head? with
  | some token => if token.kind = "const" then .constant else .lexical
  | none => .lexical

/-- How the loop over a collection declares its names, if it does. -/
def loopKind (node : Node) : Option DeclKind :=
  match (node.field? "kind").map (·.kind) with
  | some "var" => some .hoisted
  | some "let" => some .lexical
  | some "const" => some .constant
  | _ => none

def declaringLoop (inner : Rules) (context : Context) (node left : Node) (kind : DeclKind) :
    Lower Unit := do
  let scope ← if kind = .hoisted then hoistingScope context else pure context.scope
  inner.pattern context left scope kind none
  match node.field? "right" with
  | some right => inner.effects context right
  | none => pure ()
  match node.field? "body" with
  | some body => inner.statement context body
  | none => return ()

def loop (inner : Rules) (context : Context) (node : Node) : Lower Unit :=
  match node.kind == "for_in_statement", loopKind node, node.field? "left" with
  | true, some kind, some left => declaringLoop inner context node left kind
  | _, _, _ => inner.statements context node

def handler (inner : Rules) (context : Context) (node : Node) : Lower Unit := do
  match node.field? "parameter" with
  | some parameter => inner.pattern context parameter context.scope .caught none
  | none => pure ()
  match node.field? "body" with
  | some body => inner.statements context body
  | none => return ()

def namespaceBody (inner : Rules) (context : Context) (node : Node) : Lower Unit := do
  match node.field? "body" with
  | some body => inner.statements (← enterBlock context) body
  | none => return ()

def result (inner : Rules) (context : Context) (node : Node) : Lower Unit := do
  match node.parts.head? with
  | some value => emit (.result (some (← inner.expression context value none)))
  | none => emit (.result none)

def statement (inner : Rules) (context : Context) (node : Node) : Lower Unit := do
  match StatementForm.ofKind node.kind with
  | .function => functionDeclaration inner context node
  | .classDef => classDeclaration inner context node
  | .hoisted => declarators inner context (← hoistingScope context) .hoisted node
  | .lexical => declarators inner context context.scope (lexicalKind node) node
  | .expressions => node.parts.forM (inner.effects context)
  | .result => result inner context node
  | .block => inner.statements (← enterBlock context) node
  | .loop => loop inner (← enterBlock context) node
  | .handler => handler inner (← enterBlock context) node
  | .imports => importStatement inner context node
  | .exports => exportStatement inner context node
  | .namespaceBody => namespaceBody inner context node
  | .nothing => return ()
  | .compound => inner.statements context node
  | .bare => effect (← expression inner context node none)

/-- The rules for trees one level higher than those of `inner`. -/
def Rules.raise (inner : Rules) : Rules where
  statement := Lowering.statement inner
  expression := Lowering.expression inner
  pattern := bindPattern inner
  imports := importClause inner

def Rules.none : Rules where
  statement _ _ := return ()
  expression _ _ _ := inert []
  pattern _ _ _ _ _ := return ()
  imports _ _ := return ()

/-- The rules for trees of at most the given height. -/
def Rules.atHeight : Nat → Rules
  | 0 => .none
  | height + 1 => (atHeight height).raise

end FunctionFlow.Lowering
