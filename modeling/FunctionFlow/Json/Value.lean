import FunctionFlow.Json.Real

/-!
Contract: JSON values and their printed form.

Inside texts, quotes, backslashes and control characters are escaped, and nothing else is.
-/

namespace FunctionFlow

mutual
inductive Json where
  | null
  | bool (value : Bool)
  | number (value : Int)
  | real (value : Binary64)
  | text (value : String)
  | array (elements : List Json)
  | object (members : List JsonMember)
inductive JsonMember where
  | mk (key : String) (value : Json)
end

instance : Inhabited Json := ⟨.null⟩

namespace Json

def hexDigit (value : Nat) : Char :=
  if value < 10 then Char.ofNat ('0'.toNat + value) else Char.ofNat ('a'.toNat + (value - 10))

def escapeChar (char : Char) : List Char :=
  match char with
  | '"' => ['\\', '"']
  | '\\' => ['\\', '\\']
  | '\x08' => ['\\', 'b']
  | '\x0c' => ['\\', 'f']
  | '\n' => ['\\', 'n']
  | '\r' => ['\\', 'r']
  | '\t' => ['\\', 't']
  | char =>
    if char.toNat < 32 then
      ['\\', 'u', '0', '0', hexDigit (char.toNat / 16), hexDigit (char.toNat % 16)]
    else [char]

def quote (text : String) : List Char :=
  '"' :: text.toList.flatMap escapeChar ++ ['"']

def newLine (level : Nat) : List Char :=
  '\n' :: List.replicate (2 * level) ' '

mutual
def renderAt (level : Nat) : Json → List Char
  | .null => "null".toList
  | .bool true => "true".toList
  | .bool false => "false".toList
  | .number value => (toString value).toList
  | .real value => value.render
  | .text value => quote value
  | .array [] => "[]".toList
  | .array (first :: rest) =>
    '[' :: newLine (level + 1) ++ first.renderAt (level + 1) ++ renderElements (level + 1) rest
      ++ newLine level ++ [']']
  | .object [] => ['\x7b', '\x7d']
  | .object (.mk key value :: rest) =>
    '\x7b' :: newLine (level + 1) ++ quote key ++ ": ".toList ++ value.renderAt (level + 1)
      ++ renderMembers (level + 1) rest ++ newLine level ++ ['\x7d']
def renderElements (level : Nat) : List Json → List Char
  | [] => []
  | value :: rest =>
    ',' :: newLine level ++ value.renderAt level ++ renderElements level rest
def renderMembers (level : Nat) : List JsonMember → List Char
  | [] => []
  | .mk key value :: rest =>
    ',' :: newLine level ++ quote key ++ ": ".toList ++ value.renderAt level
      ++ renderMembers level rest
end

def render (value : Json) : List Char := value.renderAt 0

end Json

end FunctionFlow
