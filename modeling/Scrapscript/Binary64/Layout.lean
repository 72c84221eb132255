import Scrapscript.Text
import Scrapscript.Binary64

/-!
Writing a double-precision number with the fewest digits that read back as the same number.
-/

namespace Scrapscript

structure Layout where
  /-- For which powers of ten of the first digit the number is written without an exponent. -/
  positional : Int → Bool
  /-- Whether a whole number without an exponent ends in `.0`. -/
  keepsPoint : Bool
  tie : Tie

namespace Layout

/-- Digits written out in full, with the point in its place. -/
def writePositional (layout : Layout) (digits : Text) (exponent : Int) : Text :=
  if 0 ≤ exponent then
    digits ++ List.replicate exponent.toNat '0' ++ if layout.keepsPoint then ['.', '0'] else []
  else
    let decimals := (-exponent).toNat
    if decimals < digits.length then
      digits.take (digits.length - decimals) ++ '.' :: digits.drop (digits.length - decimals)
    else '0' :: '.' :: List.replicate (decimals - digits.length) '0' ++ digits

/-- One digit before the point, and an exponent with its sign. -/
def writeScientific (digits : Text) (leading : Int) : Text :=
  digits.take 1 ++ (if digits.length ≤ 1 then [] else '.' :: digits.drop 1)
    ++ ['e', if leading < 0 then '-' else '+'] ++ (Nat.repr leading.natAbs).toList

def writeMagnitude (layout : Layout) : Magnitude → Text
  | .infinite => ['i', 'n', 'f']
  | .finite mantissa exponent =>
      let shortest := Magnitude.shortest layout.tie mantissa exponent
      let digits := (Nat.repr shortest.coefficient).toList
      let leading := shortest.exponent + digits.length - 1
      if layout.positional leading then layout.writePositional digits shortest.exponent
      else writeScientific digits leading

/-- The text of a number. The sign of zero is written too. -/
def write (layout : Layout) (number : Binary64) : Text :=
  (if number.negative then ['-'] else []) ++ layout.writeMagnitude number.magnitude

/-- Never an exponent, no point after a whole number, and the greater of two equally near
decimals. -/
def plain : Layout where
  positional _ := true
  keepsPoint := false
  tie := .upward

end Layout

end Scrapscript
