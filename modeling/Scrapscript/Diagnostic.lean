import Scrapscript.Text.Position

/-!
Problems that are reported for a document.
-/

namespace Scrapscript

inductive Severity where
  | error
  | warning
  | information
  | hint
deriving DecidableEq, Repr

/-- The number by which editors know the severity. -/
def Severity.number : Severity → Nat
  | error => 1
  | warning => 2
  | information => 3
  | hint => 4

inductive Code where
  | unparsed
  | syntaxError
  | mixedList
  | malformedWhere
  | fieldWithoutValue
  | listSeparator
  | withoutArrow
  | nonExhaustive
deriving DecidableEq, Repr

def Code.label : Code → String
  | unparsed => "E0000"
  | syntaxError => "E0001"
  | mixedList => "E0002"
  | malformedWhere => "E0003"
  | fieldWithoutValue => "E0004"
  | listSeparator => "E0005"
  | withoutArrow => "E0006"
  | nonExhaustive => "W0001"

structure Diagnostic where
  range : Range
  severity : Severity
  code : Option String
  message : String
deriving DecidableEq

namespace Diagnostic

def source : String := "scrapscript"

def error (range : Range) (code : Code) (message : String) : Diagnostic :=
  ⟨range, .error, some code.label, message⟩

def warning (range : Range) (code : Code) (message : String) : Diagnostic :=
  ⟨range, .warning, some code.label, message⟩

end Diagnostic

/-- Diagnostics in the order in which they were found. -/
structure Findings where
  diagnostics : List Diagnostic

namespace Findings

def empty : Findings :=
  ⟨[]⟩

def add (findings : Findings) (diagnostic : Diagnostic) : Findings :=
  ⟨findings.diagnostics ++ [diagnostic]⟩

def extend (findings : Findings) (more : List Diagnostic) : Findings :=
  ⟨findings.diagnostics ++ more⟩

def size (findings : Findings) : Nat :=
  findings.diagnostics.length

def isEmpty (findings : Findings) : Bool :=
  findings.diagnostics.isEmpty

def finish (findings : Findings) (limit : Nat) : List Diagnostic :=
  findings.diagnostics.take limit

end Findings

end Scrapscript
