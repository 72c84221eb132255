import Scrapscript.Binary64
import Scrapscript.Tree.Parts

/-!
The values of number literals.
-/

namespace Scrapscript

inductive NumberValue where
  | integer (value : Int)
  | float (value : Binary64)
deriving DecidableEq, Repr

namespace NumberValue

def ofDigits (digits : Text) : Nat :=
  digits.foldl (fun value digit => value * 10 + (digit.toNat - '0'.toNat)) 0

def fits (value : Int) : Bool :=
  decide (-9223372036854775808 ≤ value) && decide (value ≤ 9223372036854775807)

/-- The value of a whole number's digits, if it fits in 64 bits with its sign. -/
def integer? (negative : Bool) (digits : Text) : Option NumberValue :=
  let size : Int := ofDigits digits
  let value := if negative then -size else size
  if fits value then some (integer value) else none

/-- The double-precision number nearest to digits with a point among them. -/
def ofDecimal (negative : Bool) (digits : Text) : NumberValue :=
  let whole := digits.takeWhile (· != '.')
  let fraction := (digits.dropWhile (· != '.')).drop 1
  float ⟨negative, Magnitude.ofDecimal (ofDigits (whole ++ fraction)) (-fraction.length)⟩

end NumberValue

namespace Node

/-- The literal of a number's node without blanks, with its sign. -/
def literal (number : Node) : Text :=
  Token.textOf (Tree.significantTokens number.children)

def isFloat (number : Node) : Bool :=
  number.childLeaves.any (·.kind == .float)

/-- The value of a number's node. A whole number that is too large has none. -/
def numberValue? (number : Node) : Option NumberValue :=
  let negative := number.literal.head? == some '-'
  let digits := Text.withoutFirst '-' number.literal
  if number.isFloat then some (NumberValue.ofDecimal negative digits)
  else NumberValue.integer? negative digits

end Node

end Scrapscript
