import FunctionFlow.Tree.Node

/-!
Contract: the forms of statements, expressions, patterns and members.

The grammars of JavaScript and TypeScript have many kinds of nodes; what values do depends on their
form only.
-/

namespace FunctionFlow

/-- What a node in statement position does with values. -/
inductive StatementForm where
  | function
  | classDef
  | hoisted
  | lexical
  | expressions
  | result
  | block
  | loop
  | handler
  | imports
  | exports
  | namespaceBody
  | nothing
  /-- A statement made of further statements and expressions. -/
  | compound
  | bare
  deriving DecidableEq, Repr

def isCompoundKind (kind : String) : Bool :=
  "_statement".toList.isSuffixOf kind.toList || "_declaration".toList.isSuffixOf kind.toList
    || "_clause".toList.isSuffixOf kind.toList || "switch_".toList.isPrefixOf kind.toList
    || kind == "program"

def StatementForm.ofKind (kind : String) : StatementForm :=
  match kind with
  | "function_declaration" | "generator_function_declaration" => .function
  | "class_declaration" | "abstract_class_declaration" => .classDef
  | "variable_declaration" => .hoisted
  | "lexical_declaration" => .lexical
  | "expression_statement" => .expressions
  | "return_statement" => .result
  | "statement_block" | "class_static_block" => .block
  | "for_statement" | "for_in_statement" => .loop
  | "catch_clause" => .handler
  | "import_statement" => .imports
  | "export_statement" => .exports
  | "internal_module" | "module" => .namespaceBody
  | "empty_statement" | "debugger_statement" | "function_signature" | "interface_declaration"
  | "type_alias_declaration" | "ambient_declaration" | "abstract_method_signature"
  | "import_alias" => .nothing
  | kind => if isCompoundKind kind then .compound else .bare

/-- What an expression does with values. -/
inductive ExpressionForm where
  | name
  | this
  /-- Another expression in brackets, or with a type beside it. -/
  | wrapped
  | function
  | classDef
  | member
  | subscript
  | call
  | construct
  | assign
  | update
  | binary
  | conditional
  | sequence
  | object
  /-- An expression whose value carries no function. -/
  | inert
  deriving DecidableEq, Repr

def ExpressionForm.ofKind (kind : String) : ExpressionForm :=
  match kind with
  | "identifier" => .name
  | "this" => .this
  | "parenthesized_expression" | "as_expression" | "satisfies_expression" | "non_null_expression"
  | "type_assertion" => .wrapped
  | "function_expression" | "function" | "generator_function" | "arrow_function" => .function
  | "class" => .classDef
  | "member_expression" => .member
  | "subscript_expression" => .subscript
  | "call_expression" => .call
  | "new_expression" => .construct
  | "assignment_expression" => .assign
  | "augmented_assignment_expression" => .update
  | "binary_expression" => .binary
  | "ternary_expression" => .conditional
  | "sequence_expression" => .sequence
  | "object" => .object
  | _ => .inert

/-- How a node of a binding pattern binds names. -/
inductive PatternForm where
  | name
  | shorthand
  | defaulted
  | pair
  | nested
  | nothing
  deriving DecidableEq, Repr

def PatternForm.ofKind (kind : String) : PatternForm :=
  match kind with
  | "identifier" => .name
  | "shorthand_property_identifier_pattern" => .shorthand
  | "assignment_pattern" | "object_assignment_pattern" => .defaulted
  | "pair_pattern" => .pair
  | "object_pattern" | "array_pattern" | "rest_pattern" => .nested
  | _ => .nothing

inductive KeyForm where
  | plain
  | quoted
  | computed
  deriving DecidableEq, Repr

def KeyForm.ofKind (kind : String) : KeyForm :=
  match kind with
  | "property_identifier" | "private_property_identifier" | "identifier"
  | "shorthand_property_identifier" | "number" => .plain
  | "string" => .quoted
  | _ => .computed

end FunctionFlow
