import FunctionFlow.Text.Search
import FunctionFlow.Tree.Dialect

/-!
Contract: the script block of a Vue component.

Blanking writes one space for every byte outside the block and keeps line feeds, so that every
position of the script is its position in the component.
-/

namespace FunctionFlow

structure Component where
  /-- The text before the block, without its opening tag. -/
  before : List Char
  attributes : List Char
  body : List Char
  after : List Char
  deriving DecidableEq, Repr

namespace Component

def tagStart : List Char := "<script".toList

def tagEnd : List Char := ">".toList

def closingTag : List Char := "</script>".toList

def split (text : List Char) : Option Component := do
  let (before, rest) ← Text.breakOn tagStart text
  let (attributes, rest) ← Text.breakOn tagEnd rest
  let (body, after) ← Text.breakOn closingTag rest
  return { before, attributes, body, after }

/-- One space for each byte of a character; a line feed stays. -/
def blankChar (char : Char) : List Char :=
  if char = '\n' then [char] else List.replicate char.utf8Size ' '

def blank (text : List Char) : List Char :=
  text.flatMap blankChar

def script (component : Component) : List Char :=
  blank (component.before ++ tagStart ++ component.attributes ++ tagEnd) ++ component.body
    ++ blank (closingTag ++ component.after)

def dialect (component : Component) : Dialect :=
  let attributes := String.ofList component.attributes
  if Text.occursIn "lang=\"ts\"" attributes || Text.occursIn "lang='ts'" attributes then .typeScript
  else .javaScript

def scriptOf? (text : String) : Option (String × Dialect) :=
  (split text.toList).map fun component => (String.ofList component.script, component.dialect)

end Component

end FunctionFlow
