import Scrapscript.Json

/-!
Reading strict JSON: one value with white space around it, no lone surrogates, no number beyond the
range of double precision, and no more than 127 arrays and objects inside one another.
-/

namespace Scrapscript.Json.Reader

/-- Reads a value from the start of a text and gives the text after it. -/
abbrev Scan (α : Type) := Text → Option (α × Text)

def isSpace (char : Char) : Bool :=
  char == ' ' || char == '\n' || char == '\t' || char == '\r'

def skipSpace (text : Text) : Text :=
  text.dropWhile isSpace

def after? : Text → Text → Option Text
  | [], text => some text
  | _ :: _, [] => none
  | expected :: more, first :: rest => if first = expected then after? more rest else none

def word (spelling : Text) (value : Json) : Scan Json := fun text =>
  (after? spelling text).map (value, ·)

def digit? (char : Char) : Option Nat :=
  if '0' ≤ char && char ≤ '9' then some (char.toNat - '0'.toNat) else none

def hexDigit? (char : Char) : Option Nat :=
  if 'a' ≤ char && char ≤ 'f' then some (char.toNat - 'a'.toNat + 10)
  else if 'A' ≤ char && char ≤ 'F' then some (char.toNat - 'A'.toNat + 10)
  else digit? char

def unit : Scan Nat
  | a :: b :: c :: d :: rest => do
      let a ← hexDigit? a
      let b ← hexDigit? b
      let c ← hexDigit? c
      let d ← hexDigit? d
      some (((a * 16 + b) * 16 + c) * 16 + d, rest)
  | _ => none

/-- The character after the letter of a numeric escape. A high surrogate needs its low partner in
an escape right after it. -/
def escapedUnit : Scan Char := fun text => do
  let (high, rest) ← unit text
  if 0xDC00 ≤ high && high < 0xE000 then none
  else if 0xD800 ≤ high && high < 0xDC00 then do
    let rest ← after? ['\\', 'u'] rest
    let (low, rest) ← unit rest
    if 0xDC00 ≤ low && low < 0xE000 then
      some (Char.ofNat (0x10000 + (high - 0xD800) * 0x400 + (low - 0xDC00)), rest)
    else none
  else some (Char.ofNat high, rest)

def escaped : Scan Char
  | [] => none
  | first :: rest =>
      match first with
      | '"' | '\\' | '/' => some (first, rest)
      | 'b' => some (Char.ofNat 8, rest)
      | 'f' => some (Char.ofNat 12, rest)
      | 'n' => some ('\n', rest)
      | 'r' => some ('\r', rest)
      | 't' => some ('\t', rest)
      | 'u' => escapedUnit rest
      | _ => none

/-- The rest of a string after its opening quote, at most one character for each one given. -/
def stringFrom : Text → Scan Text
  | [], _ => none
  | _ :: _, [] => none
  | _ :: rounds, first :: rest =>
      if first = '"' then some ([], rest)
      else if first = '\\' then do
        let (char, rest) ← escaped rest
        let (more, rest) ← stringFrom rounds rest
        some (char :: more, rest)
      else if first.toNat < 0x20 then none
      else do
        let (more, rest) ← stringFrom rounds rest
        some (first :: more, rest)

def string : Scan Text := fun text =>
  stringFrom text text

def greatestUnsigned : Nat := 18446744073709551615

/-- The size of the least whole number of 64 bits with a sign. -/
def leastSigned : Nat := 9223372036854775808

/-- The digits of a number: as many as fit in 64 bits, and a power of ten for the rest. -/
structure Significand where
  value : Nat
  exponent : Int

/-- Takes in a digit before or after the point. Once one does not fit, all later ones on its side of
the point are left out; a digit before the point that is left out counts as a power of ten. -/
def Significand.push (significand : Significand) (full fraction : Bool) (digit : Nat) :
    Significand × Bool :=
  let next := significand.value * 10 + digit
  if full || greatestUnsigned < next then
    (⟨significand.value, if fraction then significand.exponent else significand.exponent + 1⟩, true)
  else (⟨next, if fraction then significand.exponent - 1 else significand.exponent⟩, full)

def digits (fraction : Bool) : Significand → Bool → Text → Significand × Bool × Text
  | significand, full, [] => (significand, full, [])
  | significand, full, first :: rest =>
      match digit? first with
      | none => (significand, full, first :: rest)
      | some digit =>
          let (significand, full) := significand.push full fraction digit
          digits fraction significand full rest

/-- The digits before the point: a single zero, or digits that do not start with zero. -/
def whole : Text → Option (Significand × Bool × Text)
  | [] => none
  | first :: rest => do
      let digit ← digit? first
      if digit = 0 then
        if (rest.head?.bind digit?).isSome then none else some (⟨0, 0⟩, false, rest)
      else some (digits false ⟨digit, 0⟩ false rest)

/-- The value of some digits and the text after them; at least one is needed. -/
def natural : Scan Nat
  | [] => none
  | first :: rest => do
      let digit ← digit? first
      let rec go (value : Nat) : Text → Nat × Text
        | [] => (value, [])
        | next :: rest =>
            match digit? next with
            | some digit => go (value * 10 + digit) rest
            | none => (value, next :: rest)
      some (go digit rest)

def exponent : Scan Int := fun text =>
  match text with
  | '-' :: rest => (natural rest).map fun (power, rest) => (-(power : Int), rest)
  | '+' :: rest => (natural rest).map fun (power, rest) => ((power : Int), rest)
  | _ => (natural text).map fun (power, rest) => ((power : Int), rest)

/-- Multiplies a rounded number by a power of ten, in steps of at most 308 powers, rounding after
each. The result must stay in range. -/
def scale : Nat → Magnitude → Int → Option Magnitude
  | 0, _, _ => none
  | steps + 1, value, power =>
      if power.natAbs ≤ 308 then
        let factor := Magnitude.ofDecimal 1 power.natAbs
        if 0 ≤ power then
          match value.times factor with
          | .infinite => none
          | product => some product
        else some (value.dividedBy factor)
      else if value.isZero then some value
      else if 0 ≤ power then none
      else scale steps (value.dividedBy (Magnitude.ofDecimal 1 308)) (power + 308)

/-- A floating-point number. The digits are rounded first and the power of ten is applied to the
rounded number. -/
def float (negative : Bool) (significand : Significand) (power : Int) : Option Json :=
  (scale 4 (Magnitude.nearest significand.value 1) (significand.exponent + power)).map
    fun magnitude => .float ⟨negative, magnitude⟩

/-- A number without point and exponent: a whole number if it fits, and otherwise, like minus zero,
a floating-point number. -/
def integer (negative : Bool) (significand : Significand) (full : Bool) : Option Json :=
  if full then float negative significand 0
  else if !negative then some (.integer significand.value)
  else if significand.value = 0 || leastSigned < significand.value then float negative significand 0
  else some (.integer (-(significand.value : Int)))

def unsigned (negative : Bool) : Scan Json := fun text => do
  let (significand, full, rest) ← whole text
  let (significand, full, fractional, rest) ← match rest with
    | '.' :: first :: rest =>
        if (digit? first).isSome then
          let (significand, full, rest) := digits true significand false (first :: rest)
          some (significand, full, true, rest)
        else none
    | ['.'] => none
    | _ => some (significand, full, false, rest)
  match rest with
  | 'e' :: rest | 'E' :: rest => do
      let (power, rest) ← exponent rest
      (float negative significand power).map (·, rest)
  | _ =>
      if fractional then (float negative significand 0).map (·, rest)
      else (integer negative significand full).map (·, rest)

def number : Scan Json := fun text =>
  match text with
  | '-' :: rest => unsigned true rest
  | _ => unsigned false text

/-- The rest of an array after an element, at most one element for each character given. -/
def elementsFrom (element : Scan Json) : Text → Scan (List Json)
  | [], _ => none
  | _ :: rounds, text =>
      match skipSpace text with
      | ']' :: rest => some ([], rest)
      | ',' :: rest => do
          let (value, rest) ← element rest
          let (more, rest) ← elementsFrom element rounds rest
          some (value :: more, rest)
      | _ => none

def array (element : Scan Json) : Scan Json := fun text =>
  match skipSpace text with
  | ']' :: rest => some (.array [], rest)
  | _ => do
      let (first, rest) ← element text
      let (more, rest) ← elementsFrom element text rest
      some (.array (first :: more), rest)

def member (element : Scan Json) : Scan (Text × Json) := fun text => do
  let rest ← after? ['"'] (skipSpace text)
  let (key, rest) ← string rest
  let rest ← after? [':'] (skipSpace rest)
  let (value, rest) ← element rest
  some ((key, value), rest)

/-- The rest of an object after a member, at most one member for each character given. -/
def membersFrom (element : Scan Json) : Text → Scan (List (Text × Json))
  | [], _ => none
  | _ :: rounds, text =>
      match skipSpace text with
      | '}' :: rest => some ([], rest)
      | ',' :: rest => do
          let (entry, rest) ← member element rest
          let (more, rest) ← membersFrom element rounds rest
          some (entry :: more, rest)
      | _ => none

def object (element : Scan Json) : Scan Json := fun text =>
  match skipSpace text with
  | '}' :: rest => some (.object [], rest)
  | _ => do
      let (first, rest) ← member element text
      let (more, rest) ← membersFrom element text rest
      some (.object (first :: more), rest)

def scalar : Scan Json := fun text =>
  match text with
  | 'n' :: _ => word ['n', 'u', 'l', 'l'] .null text
  | 't' :: _ => word ['t', 'r', 'u', 'e'] (.bool true) text
  | 'f' :: _ => word ['f', 'a', 'l', 's', 'e'] (.bool false) text
  | '"' :: rest => (string rest).map fun (value, rest) => (.string value, rest)
  | _ => number text

/-- A value with white space before it and at most `depth` arrays and objects inside one another. -/
def value : Nat → Scan Json
  | 0, text => scalar (skipSpace text)
  | depth + 1, text =>
      match skipSpace text with
      | '[' :: rest => array (value depth) rest
      | '{' :: rest => object (value depth) rest
      | text => scalar text

def depthLimit : Nat := 127

end Reader

def parse? (text : Text) : Option Json := do
  let (value, rest) ← Reader.value Reader.depthLimit text
  if (Reader.skipSpace rest).isEmpty then some value else none

end Scrapscript.Json
