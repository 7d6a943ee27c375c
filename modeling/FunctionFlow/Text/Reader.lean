import FunctionFlow.Text.Search

/-!
Contract: reading a text from its front.

A reader that fails takes nothing, so an alternative starts where the first choice started.
-/

namespace FunctionFlow

/-- Readers take characters from the front of a text. -/
abbrev Reader := StateT (List Char) Option

namespace Reader

variable {α : Type}

def satisfy (test : Char → Bool) : Reader Char := fun text =>
  match text with
  | [] => none
  | first :: rest => if test first then some (first, rest) else none

def char (wanted : Char) : Reader Char := satisfy (· == wanted)

def word (wanted : String) : Reader Unit := fun text =>
  (Text.dropLeading? wanted.toList text).map fun rest => ((), rest)

def takeWhile (test : Char → Bool) : Reader (List Char) := fun text =>
  some (text.takeWhile test, text.dropWhile test)

def endOfText : Reader Unit := fun text =>
  if text.isEmpty then some ((), text) else none

def option (item : Reader α) : Reader (Option α) :=
  (some <$> item) <|> pure none

def manyWithin (item : Reader α) : (bound : Nat) → Reader (List α)
  | 0 => pure []
  | bound + 1 =>
    (do
      let first ← item
      let rest ← manyWithin item bound
      return first :: rest)
    <|> pure []

def many (item : Reader α) : Reader (List α) := do
  manyWithin item (← get).length

def separated (item : Reader α) (separator : Reader Unit) : Reader (List α) := do
  let first ← item
  let rest ← many (separator *> item)
  return first :: rest

def all (item : Reader α) (text : String) : Option α :=
  ((item <* endOfText).run text.toList).map (·.1)

end Reader

end FunctionFlow
