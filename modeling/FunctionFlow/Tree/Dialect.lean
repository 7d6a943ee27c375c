import FunctionFlow.Text.Case
import FunctionFlow.Text.Path

/-!
Contract: the dialect in which a file is written.
-/

namespace FunctionFlow

inductive Dialect where
  | javaScript
  | typeScript
  | tsx
  deriving DecidableEq, Repr, Inhabited

namespace Dialect

def name : Dialect → String
  | javaScript => "JavaScript"
  | typeScript => "TypeScript"
  | tsx => "Tsx"

def ofPath (path : String) : Dialect :=
  match (Path.extension? path).map Text.lower with
  | some "ts" | some "mts" | some "cts" => typeScript
  | some "tsx" => tsx
  | _ => javaScript

end Dialect

end FunctionFlow
