import Scrapscript.Text.Position

/-!
Conversion between byte offsets of a document and editor positions. The index is made in one pass
over the text: it holds where each line starts and which of its characters take more than one byte.
All other characters take one byte and one UTF-16 unit, so that columns differ only by those.

Offsets, columns and the numbers of lines are meant to have 32 bits. In a text that opens as a
document they do. How many lines there are need not fit, and is cut to 32 bits.
-/

namespace Scrapscript

/-- A character of more than one byte: the byte columns where it starts and stops. -/
structure WideChar where
  start : Nat
  stop : Nat
deriving DecidableEq, Repr

namespace WideChar

def width (wide : WideChar) : Nat :=
  wide.stop - wide.start

/-- UTF-16 units of the character: only one of four bytes takes a pair. -/
def units (wide : WideChar) : Nat :=
  if wide.width = 4 then 2 else 1

/-- Counts the units of a character instead of its bytes, if the byte column lies past it. -/
def correct (column character : Nat) (wide : WideChar) : Nat :=
  if wide.stop ≤ column then character - wide.width + wide.units else character

end WideChar

/-- How much of a line has been walked while a UTF-16 column is looked for. -/
structure Walk where
  units : Nat
  bytes : Nat
  /-- Where the last wide character stopped. -/
  cursor : Nat
deriving DecidableEq, Repr

namespace Walk

def start : Walk :=
  ⟨0, 0, 0⟩

/-- Walks past the next wide character. If the UTF-16 column lies before it, or between the two
units of it, the walk ends with the byte column instead. -/
def step (character : Nat) (walk : Walk) (wide : WideChar) : Except Nat Walk :=
  let narrow := wide.start - walk.cursor
  if character ≤ walk.units + narrow then .error (walk.bytes + (character - walk.units))
  else if character < walk.units + narrow + wide.units then .error (walk.bytes + narrow)
  else .ok ⟨walk.units + narrow + wide.units, walk.bytes + narrow + wide.width, wide.stop⟩

end Walk

/-- A line: the offset of its first byte, and its wide characters in order. -/
structure Line where
  start : Nat
  wide : List WideChar
deriving DecidableEq, Repr

namespace Line

/-- UTF-16 column of a byte column. -/
def unitColumn (line : Line) (column : Nat) : Nat :=
  line.wide.foldl (WideChar.correct column) column

/-- Byte column of a UTF-16 column, as if the line went on after its end. -/
def byteColumn (line : Line) (character : Nat) : Nat :=
  match line.wide.foldlM (Walk.step character) Walk.start with
  | .error column => column
  | .ok walk => walk.bytes + (character - walk.units)

end Line

/-- A pass over a text: the lines that are complete and the wide characters of the line at hand,
both latest first, where that line starts, and the offset reached. -/
structure Scan where
  lines : List Line
  start : Nat
  wide : List WideChar
  offset : Nat

namespace Scan

def begin : Scan :=
  ⟨[], 0, [], 0⟩

def line (scan : Scan) : Line :=
  ⟨scan.start, scan.wide.reverse⟩

def step (scan : Scan) (char : Char) : Scan :=
  let next := scan.offset + char.utf8Size
  if char = '\n' then ⟨scan.line :: scan.lines, next, [], next⟩
  else if 1 < char.utf8Size then
    let column := scan.offset - scan.start
    { scan with wide := ⟨column, column + char.utf8Size⟩ :: scan.wide, offset := next }
  else { scan with offset := next }

def read (scan : Scan) (text : Text) : Scan :=
  text.foldl step scan

end Scan

structure LineIndex where
  lines : List Line
  length : Nat
deriving DecidableEq

namespace LineIndex

def ofText (text : Text) : LineIndex :=
  let scan := Scan.begin.read text
  ⟨(scan.line :: scan.lines).reverse, scan.offset⟩

def isEmpty (index : LineIndex) : Bool :=
  index.length == 0

/-- How many lines there are, as a number of 32 bits. -/
def lineCount (index : LineIndex) : Nat :=
  index.lines.length % UInt32.size

def line (index : LineIndex) (number : Nat) : Line :=
  index.lines.getD number ⟨0, []⟩

/-- Line number and byte column of an offset, where an offset past the end stands for the end. -/
def lineColumn (index : LineIndex) (offset : Nat) : Nat × Nat :=
  let offset := min offset index.length
  let number := (index.lines.takeWhile (·.start ≤ offset)).length - 1
  (number, offset - (index.line number).start)

def position (index : LineIndex) (offset : Nat) : Position :=
  let (number, column) := index.lineColumn offset
  ⟨number, (index.line number).unitColumn column⟩

def range (index : LineIndex) (start stop : Nat) : Range :=
  Range.between (index.position start) (index.position stop)

/-- Where the content of a line stops: before the line break, or at the end of the text. -/
def lineStop (index : LineIndex) (number : Nat) : Nat :=
  match index.lines[number + 1]? with
  | some next => next.start - 1
  | none => index.length

/-- Byte offset of an editor position. There is none past the last line, and a column past the end
of its line stands for the end of the line. -/
def offset? (index : LineIndex) (position : Position) : Option Nat :=
  match index.lines[position.line]? with
  | none => none
  | some line =>
      let length := index.lineStop position.line - line.start
      some (line.start + min (line.byteColumn position.character) length)

end LineIndex

end Scrapscript
