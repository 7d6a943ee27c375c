import FunctionFlow.Text.Blank
import FunctionFlow.Unicode.CharProperty

/-!
Contract: the classes of characters that patterns have short names for.
-/

namespace FunctionFlow.CharSet

def digit : CharSet := Category.decimalNumber.chars

def blank : CharSet := ofRanges Text.blankRanges

/-- The characters of words of all scripts: letters, marks, decimal digits, connectors and joiners. -/
def word : CharSet := unionOf [CharProperty.alphabetic, CharProperty.joinControl.chars,
  Category.charsOf (.decimalNumber :: .connectorPunctuation :: Category.mark)]

def number : CharSet := Category.charsOf Category.number

def asciiDigit : CharSet := range '0' '9'

def asciiBlank : CharSet := union (range '\t' '\r') (single ' ')

def asciiLetter : CharSet := union (range 'A' 'Z') (range 'a' 'z')

def asciiWord : CharSet := unionOf [asciiLetter, asciiDigit, single '_']

def asciiClass? : String → Option CharSet
  | "alnum" => some (union asciiLetter asciiDigit)
  | "alpha" => some asciiLetter
  | "ascii" => some ascii
  | "blank" => some (union (single '\t') (single ' '))
  | "cntrl" => some (union (range '\x00' '\x1f') (single '\x7f'))
  | "digit" => some asciiDigit
  | "graph" => some (range '!' '~')
  | "lower" => some (range 'a' 'z')
  | "print" => some (range ' ' '~')
  | "punct" => some (unionOf [range '!' '/', range ':' '@', range '[' '\x60', range '\x7b' '~'])
  | "space" => some asciiBlank
  | "upper" => some (range 'A' 'Z')
  | "word" => some asciiWord
  | "xdigit" => some (unionOf [asciiDigit, range 'A' 'F', range 'a' 'f'])
  | _ => none

end FunctionFlow.CharSet
