/-!
What a client can configure for a document.
-/

namespace Scrapscript

structure Settings where
  problemLimit : Nat := 1000
  /-- Whether where clauses, record fields, list separators and arrows are checked. -/
  validation : Bool := true
  /-- Whether the elements of a list are compared. -/
  typeChecking : Bool := true
  /-- Whether pattern matches need a case that matches anything. -/
  exhaustiveness : Bool := true
  highlighting : Bool := true
deriving DecidableEq, Repr

namespace Settings

def default : Settings := {}

def withLimit (settings : Settings) (limit : Nat) : Settings :=
  { settings with problemLimit := limit }

end Settings

end Scrapscript
