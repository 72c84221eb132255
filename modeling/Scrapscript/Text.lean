/-!
Document text as a list of characters, with the two measures that matter for it: UTF-8 bytes, in
which offsets are counted, and UTF-16 units, in which editors count columns.
-/

namespace Scrapscript

abbrev Text := List Char

namespace Text

def bytes : Text → Nat
  | [] => 0
  | first :: rest => first.utf8Size + bytes rest

/-- Number of UTF-16 units of one character: characters beyond the basic plane take a pair. -/
def unitsOf (char : Char) : Nat :=
  if char.toNat < 0x10000 then 1 else 2

def units : Text → Nat
  | [] => 0
  | first :: rest => unitsOf first + units rest

/-- The text after the first `count` bytes, if that is a character boundary. -/
def dropBytes? : Nat → Text → Option Text
  | 0, text => some text
  | _ + 1, [] => none
  | count + 1, first :: rest =>
      if first.utf8Size ≤ count + 1 then dropBytes? (count + 1 - first.utf8Size) rest else none

/-- The first `count` bytes of the text, if they end at a character boundary. -/
def takeBytes? : Nat → Text → Option Text
  | 0, _ => some []
  | _ + 1, [] => none
  | count + 1, first :: rest =>
      if first.utf8Size ≤ count + 1 then
        (takeBytes? (count + 1 - first.utf8Size) rest).map (first :: ·)
      else none

/-- The text between two byte offsets, if both are character boundaries in order. -/
def slice? (text : Text) (start stop : Nat) : Option Text :=
  if stop < start then none
  else (text.dropBytes? start).bind (Text.takeBytes? (stop - start))

/-- The pieces between separating characters, one more than there are separators. -/
def pieces (separates : Char → Bool) : Text → List Text
  | [] => [[]]
  | first :: rest =>
      if separates first then [] :: pieces separates rest
      else match pieces separates rest with
        | [] => [[first]]
        | piece :: more => (first :: piece) :: more

def lines : Text → List Text :=
  pieces (· == '\n')

def mentions (needle : Text) : Text → Bool
  | [] => needle.isEmpty
  | first :: rest => needle.isPrefixOf (first :: rest) || mentions needle rest

/-- Characters with the property White_Space. -/
def isBlank (char : Char) : Bool :=
  let code := char.toNat
  (0x09 ≤ code && code ≤ 0x0D) || code == 0x20 || code == 0x85 || code == 0xA0
    || code == 0x1680 || (0x2000 ≤ code && code ≤ 0x200A) || code == 0x2028 || code == 0x2029
    || code == 0x202F || code == 0x205F || code == 0x3000

def trimStart (text : Text) : Text :=
  text.dropWhile isBlank

def trim (text : Text) : Text :=
  (text.trimStart.reverse.dropWhile isBlank).reverse

/-- The text without one character at its start, if it starts with that character. -/
def withoutFirst (char : Char) : Text → Text
  | [] => []
  | first :: rest => if first = char then rest else first :: rest

/-- The text without one character at its end, if it ends with that character. -/
def withoutLast (char : Char) (text : Text) : Text :=
  (withoutFirst char text.reverse).reverse

def asString (text : Text) : String :=
  String.ofList text

end Text

end Scrapscript
