import FunctionFlow.Text.Digit

/-!
Contract: white space, comments and texts of TOML documents.

Line ends inside texts are read as line feeds. A text on several lines may end in up to two quotes
before its three closing ones.
-/

namespace FunctionFlow.Toml

def isBlank (char : Char) : Bool := char == ' ' || char == '\t'

def isPrintable (char : Char) : Bool :=
  char == '\t' || (' ' ≤ char && char ≤ '~') || '\x80' ≤ char

def blanks : Reader Unit := discard (Reader.takeWhile isBlank)

def lineEnd : Reader Unit := Reader.word "\n" <|> Reader.word "\r\n"

def comment : Reader Unit := do
  discard <| Reader.char '#'
  discard <| Reader.takeWhile isPrintable

def restOfLine : Reader Unit := do
  blanks
  discard <| Reader.option comment
  lineEnd <|> Reader.endOfText

def gap : Reader Unit :=
  discard <| Reader.many
    ((discard <| Reader.satisfy isBlank) <|> lineEnd <|> comment)

def escape : Reader Char := do
  match ← Reader.satisfy fun _ => true with
  | 'b' => return '\x08'
  | 't' => return '\t'
  | 'n' => return '\n'
  | 'f' => return '\x0c'
  | 'r' => return '\r'
  | '"' => return '"'
  | '\\' => return '\\'
  | 'u' => Reader.hexChar 4
  | 'U' => Reader.hexChar 8
  | _ => failure

def escapedChar : Reader Char :=
  (Reader.satisfy fun char => isPrintable char && char != '"' && char != '\\')
  <|> (Reader.char '\\' *> escape)

def basicText : Reader String := do
  discard <| Reader.char '"'
  let chars ← Reader.many escapedChar
  discard <| Reader.char '"'
  return String.ofList chars

def literalText : Reader String := do
  discard <| Reader.char '\''
  let chars ← Reader.takeWhile fun char => isPrintable char && char != '\''
  discard <| Reader.char '\''
  return String.ofList chars

def innerQuotes (quote : Char) : Reader (List Char) := do
  let run ← Reader.takeWhile (· == quote)
  if run.length = 1 ∨ run.length = 2 then return run else failure

def closingQuotes (quote : Char) : Reader (List Char) := do
  let run ← Reader.takeWhile (· == quote)
  if 3 ≤ run.length ∧ run.length ≤ 5 then return run.drop 3 else failure

def foldedLines : Reader (List Char) := do
  discard <| Reader.char '\\'
  blanks
  lineEnd
  discard <| Reader.many ((discard <| Reader.satisfy isBlank) <|> lineEnd)
  return []

def lineFeed : Reader (List Char) := do
  lineEnd
  return ['\n']

def textOfPieces (quote : Char) (piece : Reader (List Char)) : Reader String := do
  Reader.word (String.ofList [quote, quote, quote])
  discard <| Reader.option lineEnd
  let pieces ← Reader.many (piece <|> lineFeed <|> innerQuotes quote)
  let last ← closingQuotes quote
  return String.ofList (pieces.flatten ++ last)

def longBasicText : Reader String :=
  textOfPieces '"' (foldedLines <|> (do return [← escapedChar]))

def longLiteralText : Reader String :=
  textOfPieces '\'' do
    return [← Reader.satisfy fun char => isPrintable char && char != '\'']

def anyText : Reader String :=
  longBasicText <|> basicText <|> longLiteralText <|> literalText

end FunctionFlow.Toml
