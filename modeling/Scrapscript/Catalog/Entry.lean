import Scrapscript.Token

/-!
What the catalog says about each thing that it lists.
-/

namespace Scrapscript.Catalog

structure Builtin where
  name : String
  signature : String
  doc : String
deriving DecidableEq, Repr

/-- The module of a function: the part of its name before the first slash, if there is one. -/
def Builtin.module? (builtin : Builtin) : Option String :=
  let name := builtin.name.toList
  if name.contains '/' then some (String.ofList (name.takeWhile (· != '/'))) else none

structure Operator where
  kind : TokenKind
  name : String
  doc : String
deriving DecidableEq, Repr

def Operator.symbol (operator : Operator) : String :=
  operator.kind.label

structure Entry where
  name : String
  doc : String
deriving DecidableEq, Repr

/-- A template with numbered places to fill in. -/
structure Snippet where
  label : String
  insertion : String
  doc : String
deriving DecidableEq, Repr

end Scrapscript.Catalog
