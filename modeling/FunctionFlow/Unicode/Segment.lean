import FunctionFlow.Unicode.CharProperty
import FunctionFlow.Unicode.Script

/-!
Contract: what characters mean for the division of texts.

Most classes are made up of categories and properties, with some characters more or less. The tables
are those of version 16.
-/

namespace FunctionFlow

namespace Segment

def graphemeExtend (_ : Unit) : CharSet :=
  (CharProperty.graphemeExtend ()).union CharProperty.emojiModifier.chars

def grapheme? : String → Option CharSet
  | "cr" => some (.read "d")
  | "control" | "cn" => some (.read
    "0-9 2-1 2-11 60-20 e 56f 11f2 7fd 3-1 19-6 32-f de90 f1-b 3435-f 8861-3 14d0-7 c2e86-1f 61-7f
    f1-e0f")
  | "extend" | "ex" => some (graphemeExtend ())
  | "l" => some (.read "1100-5f 9801-1c")
  | "lf" => some (.read "a")
  | "lv" => some (.read "ac00 1cx18e")
  | "lvt" => some (.read "ac01-1a 2-1ax18e")
  | "prepend" | "pp" =>
    some (.read "600-5 d8 32 181-1 51 46c 1036f 10 f5-1 20e 56e 2 f9 4a-5 2bd 1bc")
  | "regionalindicator" | "ri" => some CharProperty.regionalIndicator.chars
  | "spacingmark" | "sm" => some (((Category.spacingMark.chars.union (.read "e33 80")).difference
      (graphemeExtend ())).difference
        (.read "102b-1 c 2a-2 3-6 16 4-5 3 b-2 9c5 2-1 9017 2 6ca3-1"))
  | "t" => some (.read "11a8-57 c5cc-30")
  | "v" => some (.read "1160-47 c609-16 959d 4-3")
  | "zwj" => some (.read "200d")
  | _ => none

def wordExtend (_ : Unit) : CharSet := (graphemeExtend ()).union Category.spacingMark.chars

def hebrewLetter (_ : Unit) : CharSet := .read "5d0-1a 5-3 f52b 2-9 2-c 2-4 2 2-1x2 2-9"

def katakana (_ : Unit) : CharSet := .read
  "3031-4 66-1 4-5a 2-3 f1-f d1-2e 2-57 cc0f-37 b053-3 2-6 2-1 2 120-2 33 f-3"

def wordLetter (_ : Unit) : CharSet :=
  ((CharProperty.alphabetic.difference (.unionOf [CharProperty.ideographic.chars, wordExtend (),
    hebrewLetter (), katakana (), .unionOf (["hiragana", "thai", "lao"].filterMap scriptNamed?)])
    ).difference (.read
      "1000-2a 15 11-5 5-3 4 4-1 8-2 5-c d 6f2-33 24 5 174-1d 3-4 c-2b 5-19 57-34 53 8f39-4 2-9 b-4
      62-16 4 4-31 2 4-1 3-4 3 2 19-2 6c23-1a 26-6")).union
    (.read "2c2-3 d-5 7-1 6-6 2 2-10 25b-2 2 2c 69 a115-e a-1 68-1 3d1")

def word? : String → Option CharSet
  | "aletter" | "le" => some (wordLetter ())
  | "cr" => some (.read "d")
  | "doublequote" | "dq" => some (.read "22")
  | "extend" => some (wordExtend ())
  | "extendnumlet" | "ex" => some (Category.connectorPunctuation.chars.union (.read "202f"))
  | "format" | "fo" => some (Category.format.chars.difference (.read "200b-2 de013-5f"))
  | "hebrewletter" | "hl" => some (hebrewLetter ())
  | "katakana" | "ka" => some (katakana ())
  | "lf" => some (.read "a")
  | "midletter" | "ml" => some (.read "3a 7d 2d0 1d8 95 1a33 ddec 42 c5")
  | "midnum" | "mn" => some (.read "2c f 343 20b 83-1 5f 18c 184c ddcc 4 3c 4 b8 f")
  | "midnumlet" | "mb" => some (.read "2e 1fea-1 b de2e b5 7")
  | "newline" | "nl" => some (.read "b-1 79 1fa3-1")
  | "numeric" | "nu" => some (Category.decimalNumber.chars.union (.read "66b"))
  | "regionalindicator" | "ri" => some CharProperty.regionalIndicator.chars
  | "singlequote" | "sq" => some (.read "27")
  | "wsegspace" => some (.read "20 1660 980-6 2-2 55 fa1")
  | "zwj" => some (.read "200d")
  | _ => none

def sentenceExtend (_ : Unit) : CharSet := .unionOf
  [CharProperty.graphemeExtend (), Category.spacingMark.chars, CharProperty.joinControl.chars]

def lower (_ : Unit) : CharSet :=
  (CharProperty.lowercase ()).difference
    ((CharProperty.graphemeExtend ()).union (.read "10d0-2a 3-2"))

def upper (_ : Unit) : CharSet :=
  (Category.titlecaseLetter.chars.union (CharProperty.uppercase ())).difference
    (.read "1c90-2a 3-2")

def ambiguousTerm (_ : Unit) : CharSet := .read "2e 1ff6 de2e bc"

def sentence? : String → Option CharSet
  | "aterm" | "at" => some (ambiguousTerm ())
  | "cr" => some (.read "d")
  | "close" | "cl" => some (((Category.charsOf
      [.openPunctuation, .closePunctuation, .initialPunctuation, .finalPunctuation]).union
        (CharProperty.quotationMark.chars.difference (.read "ff02 5"))).union
          (.read "275b-5 6a0-1 5-2 3 1c86b-2"))
  | "extend" | "ex" => some (sentenceExtend ())
  | "format" | "fo" => some (Category.format.chars.difference (.read "200c-1 de013-5f"))
  | "lf" => some (.read "a")
  | "lower" | "lo" => some (lower ())
  | "numeric" | "nu" => some (Category.decimalNumber.chars.union (.read "66b-1"))
  | "oletter" | "le" => some ((CharProperty.alphabetic.difference
      (.unionOf [lower (), upper (), sentenceExtend ()])).union (.read "5f3"))
  | "scontinue" | "sc" => some (.read
      "2c-1 d 523 af-1 1eb 100a 6 80b-1 fed ce0f-1 2 1e-1x2 4 3 b a9-1 d 4a")
  | "sterm" | "st" => some (CharProperty.sentenceTerminal.chars.difference (ambiguousTerm ()))
  | "sep" | "se" => some (.read "85 1fa3-1")
  | "sp" => some (.read "9 2-1 14 80 15e0 980-a 25 30 fa1")
  | "upper" | "up" => some (upper ())
  | _ => none

end Segment

end FunctionFlow
