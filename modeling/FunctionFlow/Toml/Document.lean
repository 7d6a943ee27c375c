import FunctionFlow.Toml.Moment
import FunctionFlow.Toml.Number
import FunctionFlow.Toml.Table
import FunctionFlow.Toml.Text

/-!
Contract: reading TOML documents.

Arrays and tables in braces nest through `valueAt`, whose argument bounds the depth.
-/

namespace FunctionFlow.Toml

def depthLimit : Nat := 80

def isBareKeyChar (char : Char) : Bool :=
  char.isAlphanum || char == '_' || char == '-'

def bareKey : Reader String := do
  let first ← Reader.satisfy isBareKeyChar
  let rest ← Reader.takeWhile isBareKeyChar
  return String.ofList (first :: rest)

def keyPart : Reader String := do
  blanks
  let part ← basicText <|> literalText <|> bareKey
  blanks
  return part

def key : Reader (List String × String) := do
  let parts ← Reader.separated keyPart (discard <| Reader.char '.')
  if depthLimit ≤ parts.length then failure
  match parts.getLast? with
  | some last => return (parts.dropLast, last)
  | none => failure

def assignment (value : Reader Item) : Reader (List String × String × Item) := do
  let (path, last) ← key
  discard <| Reader.char '='
  blanks
  return (path, last, ← value)

def arrayRest (value : Reader Item) : Reader Item := do
  let element : Reader Unit := do
    gap
    discard value
    gap
  let comma : Reader Unit := discard <| Reader.char ','
  discard <| Reader.option (Reader.separated element comma *> Reader.option comma)
  gap
  discard <| Reader.char ']'
  return .array

def inlineRest (value : Reader Item) : Reader Item := do
  let entry : Reader (List String × String × Item) := assignment value <* blanks
  let entries ← Reader.option (Reader.separated entry (discard <| Reader.char ','))
  blanks
  discard <| Reader.char '\x7d'
  let start := Table.mk .header []
  match (entries.getD []).foldlM (fun table (path, last, item) => table.assign path last item) start with
  | some table => return .inline table
  | none => failure

def plainValue : Reader Item :=
  (do return .text (← anyText))
  <|> (do return .moment (← readMoment).render)
  <|> (do
    number
    return .plain)
  <|> (do
    Reader.word "true" <|> Reader.word "false"
    return .plain)

def valueAt : (depth : Nat) → Reader Item
  | 0 => plainValue
  | depth + 1 =>
    (Reader.char '[' *> arrayRest (valueAt depth))
    <|> (Reader.char '\x7b' *> inlineRest (valueAt depth))
    <|> plainValue

def header : Reader Statement :=
  (do
    Reader.word "[["
    let (path, last) ← key
    Reader.word "]]"
    return .append path last)
  <|> (do
    Reader.word "["
    let (path, last) ← key
    Reader.word "]"
    return .define path last)

def statement : Reader Statement :=
  header
  <|> (do
    let (path, last, item) ← assignment (valueAt (depthLimit - 1))
    return .assign path last item)

def line : Reader (Option Statement) := do
  blanks
  (do
    lineEnd
    return none)
  <|> (do
    comment
    lineEnd <|> Reader.endOfText
    return none)
  <|> (do
    let said ← statement
    restOfLine
    return some said)

def document : Reader (List Statement) := do
  discard <| Reader.option (Reader.char '\ufeff')
  let lines ← Reader.many line
  blanks
  return lines.filterMap id

def parse? (text : String) : Option Table := do
  Document.ofStatements (← document.all text)

end FunctionFlow.Toml
