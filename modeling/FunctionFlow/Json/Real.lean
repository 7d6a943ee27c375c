import FunctionFlow.Decimal.Shortest
import FunctionFlow.Text.Digit

/-!
Contract: numbers that are not whole, as JSON writes them.

Numbers from a hundred-thousandth up to 10 ^ 16 are written without an exponent, and then always
with a digit after the point. An exponent has a sign and at least two digits.
-/

namespace FunctionFlow.Binary64

def positional (digits : List Char) (point : Int) : List Char :=
  let zeros := fun count : Int => List.replicate count.toNat '0'
  if digits.length ≤ point then digits ++ zeros (point - digits.length) ++ ['.', '0']
  else if 0 < point then digits.take point.toNat ++ '.' :: digits.drop point.toNat
  else '0' :: '.' :: zeros (-point) ++ digits

def withExponent (digits : List Char) (exponent : Int) : List Char :=
  let fraction := if digits.length ≤ 1 then [] else '.' :: digits.drop 1
  digits.take 1 ++ fraction ++ ['e', if exponent < 0 then '-' else '+']
    ++ (padded 2 exponent.natAbs).toList

def render (value : Binary64) : List Char :=
  let (number, place) := value.shortest
  let digits := (toString number).toList
  let point := digits.length + place
  (if value.isNegative then ['-'] else [])
    ++ if -5 < point ∧ point ≤ 16 then positional digits point else withExponent digits (point - 1)

end FunctionFlow.Binary64
