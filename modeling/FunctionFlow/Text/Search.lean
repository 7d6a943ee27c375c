/-!
Contract: finding one text inside another.
-/

namespace FunctionFlow.Text

def dropLeading? : (needle text : List Char) → Option (List Char)
  | [], text => some text
  | _ :: _, [] => none
  | wanted :: needle, found :: text =>
    if wanted = found then dropLeading? needle text else none

/-- The text before the first occurrence of `needle` and the text after it. -/
def breakOn (needle : List Char) : List Char → Option (List Char × List Char)
  | [] => (dropLeading? needle []).map fun rest => ([], rest)
  | char :: text =>
    match dropLeading? needle (char :: text) with
    | some rest => some ([], rest)
    | none => (breakOn needle text).map fun (before, after) => (char :: before, after)

def occursIn (needle text : String) : Bool :=
  (breakOn needle.toList text.toList).isSome

end FunctionFlow.Text
