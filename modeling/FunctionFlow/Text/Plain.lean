/-!
Contract: texts without what only a terminal understands.

A sequence that was begun and not ended swallows the rest of the text, except that white space ends
the short kinds of sequences and is kept.
-/

namespace FunctionFlow

inductive ControlState where
  | ground
  | escape
  | escapeRest
  | numbered
  | command
  | string
  deriving DecidableEq, Repr, Inhabited

namespace ControlState

def isKeptControl (char : Char) : Bool :=
  char == '\t' || char == '\n' || char == '\x0c' || char == '\r'

def afterText : ControlState → Char → ControlState
  | .ground, _ => .ground
  | .escape, char =>
    if char == '[' then .numbered
    else if char == ']' then .command
    else if char == 'P' || char == 'X' || char == '^' || char == '_' then .string
    else if char < '0' then .escapeRest
    else .ground
  | .escapeRest, char => if char < '0' then .escapeRest else .ground
  | .numbered, char => if char < '@' then .numbered else .ground
  | state, _ => state

def isLong : ControlState → Bool
  | .command | .string => true
  | _ => false

def step (state : ControlState) (char : Char) : ControlState × Bool :=
  if char == '\x1b' then (.escape, false)
  else if char == '\x18' || char == '\x1a' then (.ground, false)
  else if char < ' ' then
    if state.isLong then (if state = .command ∧ char = '\x07' then .ground else state, false)
    else if isKeptControl char then (.ground, true)
    else (state, false)
  else if '\x7f' ≤ char then (state, state = .ground ∧ char ≠ '\x7f')
  else (state.afterText char, state = .ground)

end ControlState

namespace Text

def plainFrom : ControlState → List Char → List Char
  | _, [] => []
  | state, char :: rest =>
    match state.step char with
    | (state, true) => char :: plainFrom state rest
    | (state, false) => plainFrom state rest

def plain (text : String) : String := String.ofList (plainFrom .ground text.toList)

end Text

end FunctionFlow
