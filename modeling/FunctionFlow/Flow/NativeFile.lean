import FunctionFlow.Flow.Native
import FunctionFlow.Toml.Document

/-!
Contract: tables of built-in functions that are written in TOML.

All entries of the table have to be texts. The rest of the document only has to be well formed.
-/

namespace FunctionFlow

def Toml.momentName : String := "$__toml_private_datetime"

def NativeTable.ofToml? (text : String) : Option NativeTable := do
  match (← Toml.parse? text).find? "natives" with
  | some (.table table) | some (.inline table) => return .ofList (← table.texts?)
  | some (.moment rendered) => return .ofList [(Toml.momentName, rendered)]
  | _ => none

end FunctionFlow
