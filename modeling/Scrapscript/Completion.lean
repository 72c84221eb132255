import Scrapscript.Catalog

/-!
Suggestions for what to type: which are offered depends on the context alone.
-/

namespace Scrapscript

inductive CompletionKind where
  | function
  | operator
  | keyword
  | enumMember
  | field
  | typeParameter
  | value
  | snippet
  | module
deriving DecidableEq, Repr

/-- The number by which editors know the kind. -/
def CompletionKind.number : CompletionKind → Nat
  | function => 3
  | field => 5
  | module => 9
  | value => 12
  | keyword => 14
  | snippet => 15
  | enumMember => 20
  | operator => 24
  | typeParameter => 25

structure Completion where
  label : String
  kind : CompletionKind
  detail : Option String := none
  documentation : Option String := none
  /-- The text inserted, where it is not the label. -/
  insertion : Option String := none
  isTemplate : Bool := false
  /-- Lower ones come first. -/
  priority : Nat := 100
deriving DecidableEq, Repr

namespace Completion

/-- The priority in at least four digits, for clients that order by text. -/
def sortText (completion : Completion) : String :=
  let digits := (Nat.repr completion.priority).toList
  String.ofList (List.replicate (4 - digits.length) '0' ++ digits)

/-- What an expression that is piped somewhere seems to be. -/
inductive Hint where
  | list
  | maybe
  | result
  | unknown
deriving DecidableEq, Repr

def Hint.module? : Hint → Option String
  | list => some "list"
  | maybe => some "maybe"
  | result => some "result"
  | unknown => none

inductive Context where
  | tag
  | whereClause
  | patternMatch
  | recordField
  | functionCall
  | operator
  | ascription
  | pipeline (hint : Hint)
  | importing
  | global
deriving DecidableEq, Repr

def ofFunction (function : Catalog.Builtin) : Completion :=
  { label := function.name, kind := .function, detail := function.signature,
    documentation := function.doc, priority := 50 }

def ofSnippet (snippet : Catalog.Snippet) (priority : Nat) : Completion :=
  { label := snippet.label, kind := .snippet, documentation := snippet.doc,
    insertion := snippet.insertion, isTemplate := true, priority }

def ofEntry (kind : CompletionKind) (detail : String) (entry : Catalog.Entry) : Completion :=
  { label := entry.name, kind, detail, documentation := entry.doc }

/-- The built-in functions, those of the given module first. -/
def functions (boosted : Option String) : List Completion :=
  Catalog.functions.map fun function =>
    if boosted.isSome && function.module? == boosted then
      { ofFunction function with priority := 10 }
    else ofFunction function

def operators : List Completion :=
  Catalog.operators.map fun operator =>
    { label := operator.symbol, kind := .operator, detail := operator.name,
      documentation := operator.doc, priority := 60 }

def types : List Completion :=
  Catalog.types.map fun entry => { ofEntry .typeParameter "Type" entry with priority := 70 }

def values : List Completion :=
  ([⟨"#true", "Boolean true."⟩, ⟨"#false", "Boolean false."⟩, ⟨"()", "The hole: the empty value."⟩]
    : List Catalog.Entry).map fun entry => { ofEntry .value "Value" entry with priority := 40 }

def globals : List Completion :=
  functions none ++ operators ++ types ++ values

def offered : Context → List Completion
  | .tag => Catalog.tags.map (ofEntry .enumMember "Tag")
  | .whereClause => ofSnippet Catalog.whereSnippet 0 :: globals
  | .patternMatch =>
      Catalog.patternSnippets.zipIdx.map fun (snippet, place) => ofSnippet snippet place
  | .recordField => Catalog.recordFields.map (ofEntry .field "Field")
  | .functionCall => functions none
  | .pipeline hint => functions hint.module?
  | .operator => operators
  | .ascription => types
  | .importing => Catalog.modules.map (ofEntry .module "Module")
  | .global => globals

/-- A list without the items whose label the item before them has. -/
def withoutRepeats : List Completion → List Completion
  | [] => []
  | [only] => [only]
  | first :: second :: rest =>
      if first.label == second.label then
        match withoutRepeats (second :: rest) with
        | [] => [first]
        | _ :: more => first :: more
      else first :: withoutRepeats (second :: rest)

/-- What a context offers, best first; equally good ones stay in the order of their tables. -/
def inContext (context : Context) : List Completion :=
  withoutRepeats ((offered context).mergeSort fun left right => left.priority ≤ right.priority)

end Completion

end Scrapscript
