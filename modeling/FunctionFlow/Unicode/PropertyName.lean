import FunctionFlow.Unicode.Age
import FunctionFlow.Unicode.Segment

/-!
Contract: characters chosen by the name of a property.
-/

namespace FunctionFlow.PropertyName

def simplify (name : List Char) : String :=
  let startsWithIs := (name.take 2).map Char.toLower == ['i', 's']
  let kept := (if startsWithIs then name.drop 2 else name).filter fun char =>
    char.toNat < 0x80 && !(char == ' ' || char == '_' || char == '-')
  let small := String.ofList (kept.map Char.toLower)
  if startsWithIs && small == "c" then "isc" else small

def isCategoryFirst (name : String) : Bool := name == "cf" || name == "sc" || name == "lc"

def charsNamed? (name : List Char) : Option CharSet :=
  let name := simplify name
  (if isCategoryFirst name then none else propertyNamed? name)
    <|> Category.charsNamed? name <|> scriptNamed? name

def charsOfValue? (property value : List Char) : Option CharSet :=
  let value := simplify value
  match simplify property with
  | "gc" | "generalcategory" => Category.charsNamed? value
  | "sc" | "script" => scriptNamed? value
  | "scx" | "scriptextensions" => scriptExtensionNamed? value
  | "age" => ageNamed? value
  | "gcb" | "graphemeclusterbreak" => Segment.grapheme? value
  | "wb" | "wordbreak" => Segment.word? value
  | "sb" | "sentencebreak" => Segment.sentence? value
  | _ => none

end FunctionFlow.PropertyName
