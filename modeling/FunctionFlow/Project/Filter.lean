import FunctionFlow.Error
import FunctionFlow.Pattern.Size
import FunctionFlow.Pattern.Syntax

/-!
Contract: rules that choose files.

A name that no rule matches is kept.
-/

namespace FunctionFlow

structure FilterRule where
  isInclude : Bool
  pattern : String
  isMatch : String → Bool

namespace FilterRule

def ofPattern (rule : String) (isInclude : Bool) (rest : List Char) : Fallible FilterRule :=
  let pattern := Text.trim (String.ofList rest)
  match Pattern.parse? pattern with
  | none => throw (.invalidRule rule .malformedPattern)
  | some parsed =>
    if parsed.hasFittingSize then return { isInclude, pattern, isMatch := parsed.isFoundIn }
    else throw (.invalidRule rule (.oversizedPattern Pattern.sizeLimit))

def parse (rule : String) : Fallible FilterRule :=
  match rule.toList with
  | '+' :: rest => ofPattern rule true rest
  | '-' :: rest => ofPattern rule false rest
  | _ => throw (.invalidRule rule .missingSign)

def ruleLines (text : String) : List String :=
  ((text.splitOn "\n").map Text.trim).filter fun line =>
    !line.isEmpty && line.toList.head? != some '#'

def parseAll (text : String) : Fallible (List FilterRule) :=
  (ruleLines text).mapM parse

end FilterRule

namespace Filter

def keeps (rules : List FilterRule) (name : String) : Bool :=
  match rules.reverse.find? (·.isMatch name) with
  | some rule => rule.isInclude
  | none => true

/-- The names that the rules keep, each once, in order of first occurrence. -/
def choose (rules : List FilterRule) (names : List String) : List String :=
  distinct (names.filter (keeps rules))

end Filter

end FunctionFlow
