import Scrapscript.Catalog.Functions
import Scrapscript.Catalog.Operators
import Scrapscript.Catalog.Names

/-!
Looking things up in the catalog by name.
-/

namespace Scrapscript.Catalog

def function? (name : String) : Option Builtin :=
  functions.find? (·.name == name)

def isBuiltin (name : String) : Bool :=
  (function? name).isSome

def operator? (symbol : String) : Option Operator :=
  operators.find? (·.symbol == symbol)

/-- The tag with a given name, without the leading hash. -/
def tag? (name : String) : Option Entry :=
  tags.find? (·.name == name)

def type? (name : String) : Option Entry :=
  types.find? (·.name == name)

def module? (name : String) : Option Entry :=
  modules.find? (·.name == name)

end Scrapscript.Catalog
