/-!
Contract: comparison of ASCII words without regard to case.

The words compared in this library are spelled with ASCII letters other than `k`. The only
character beyond ASCII whose small form is a single ASCII letter is the Kelvin sign, whose small
form is `k`, so the map of ASCII letters decides these comparisons for all texts.
-/

namespace FunctionFlow.Text

def lower (text : String) : String :=
  String.ofList (text.toList.map Char.toLower)

def endsInWord (ending text : String) : Bool :=
  ending.toList.isSuffixOf (lower text).toList

end FunctionFlow.Text
