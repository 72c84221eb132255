import Scrapscript.Binary64.Layout
import Scrapscript.Catalog
import Scrapscript.Document
import Scrapscript.Tree.Number

/-!
Explanations of what stands at a position.
-/

namespace Scrapscript

structure Hover where
  contents : String
  range : Range

namespace Hover

def plural (count : Nat) : String :=
  if count = 1 then "" else "s"

def counted (count : Nat) (noun : String) : String :=
  toString count ++ " " ++ noun ++ plural count

def explainIdentifier (name : String) : String :=
  match Catalog.function? name with
  | some function =>
      "**" ++ function.name ++ "** : `" ++ function.signature ++ "`\n\n" ++ function.doc
  | none =>
      match Catalog.type? name with
      | some entry => "**" ++ entry.name ++ "** (Type)\n\n" ++ entry.doc
      | none =>
          if Catalog.isKeyword name then "`" ++ name ++ "` (Keyword)"
          else "`" ++ name ++ "` (Identifier)"

def explainOperator (symbol : String) : String :=
  match Catalog.operator? symbol with
  | some operator => "**" ++ operator.name ++ "** (`" ++ operator.symbol ++ "`)\n\n" ++ operator.doc
  | none => "`" ++ symbol ++ "` (Operator)"

def explainTag : Option String → String
  | none => "`#` (Tag)"
  | some name =>
      match Catalog.tag? name with
      | some entry => "**#" ++ entry.name ++ "** (Tag)\n\n" ++ entry.doc
      | none => "`#" ++ name ++ "` (Tag)"

def inBase (base number : Nat) : String :=
  String.ofList (Nat.toDigits base number)

/-- A small whole number in binary and hexadecimal, and a smaller one as a byte. -/
def otherBases (value : Int) : String :=
  let number := value.toNat
  (if 0 ≤ value && value ≤ 1000000 then
    "\n\nBinary: `0b" ++ inBase 2 number ++ "`\n\nHex: `0x" ++ inBase 16 number ++ "`" else "")
  ++ (if 0 ≤ value && value ≤ 255 then
    "\n\nByte: `~" ++ (if number < 16 then "0" else "") ++ inBase 16 number ++ "`" else "")

def explainNumber (literal : String) : Option NumberValue → String
  | some (.integer value) => "**Integer** `" ++ literal ++ "`" ++ otherBases value
  | some (.float value) =>
      "**Float** `" ++ literal ++ "`\n\nValue: " ++ (Layout.plain.write value).asString
  | none => "**Number** `" ++ literal ++ "`"

def textLength (literal : Text) : Nat :=
  (Text.withoutLast '"' (Text.withoutFirst '"' literal.trim)).length

mutual

/-- What an application applies in the end: the first node, and in an application the one that it
applies. -/
def callee? : Tree → Option Tree
  | .leaf _ => none
  | .node kind children =>
      if kind == .application then calleeIn? children else some (.node kind children)

/-- What the first node among some siblings applies in the end. -/
def calleeIn? : List Tree → Option Tree
  | [] => none
  | first :: rest => if first.isNode then callee? first else calleeIn? rest

end

def explainApplication (application : Node) : String :=
  let function? := do
    let head ← calleeIn? application.children
    if head.isOfKind .identifier then Catalog.function? head.text.trim.asString else none
  match function? with
  | some function =>
      "**Application** of `" ++ function.name ++ "` : `" ++ function.signature ++ "`\n\n"
        ++ function.doc
  | none => "**Function application**"

def explainWhere (clause : Node) : String :=
  match clause.secondNode?.bind Node.firstNode? with
  | some pattern =>
      "**Where clause**\n\nBinds `" ++ pattern.text.trim.asString
        ++ "` for the expression before `;`."
  | none => "**Where clause**\n\nLocal bindings: `expr ; name = value`."

/-- The explanation of a node, if nodes of its kind have one. -/
def explain? (node : Node) : Option String :=
  match node.kind with
  | .identifier => node.name?.map fun name => explainIdentifier name.asString
  | .operator => node.firstToken?.map fun token => explainOperator token.text.asString
  | .tag => some (explainTag (node.tagName?.map Text.asString))
  | .number => some (explainNumber node.literal.asString node.numberValue?)
  | .text => some ("**Text**\n\n" ++ toString (textLength node.text) ++ " characters")
  | .bytes =>
      some ("**Bytes** `" ++ node.text.trim.asString
        ++ "`\n\nWritten `~~base64` or `~hh` for a single byte.")
  | .function =>
      some ("**Function**\n\nA single-parameter function: `pattern -> body`. "
        ++ "Curried: `a -> b -> a + b` takes `a` and returns a function of `b`.")
  | .patternMatch =>
      some ("**Pattern matching function**\n\n" ++ counted node.cases.length "case"
        ++ "; the first case whose pattern matches is taken.")
  | .whereClause => some (explainWhere node)
  | .record => some ("**Record**\n\n" ++ counted node.fields.length "field")
  | .list => some ("**List**\n\n" ++ counted node.elements.length "element")
  | .hole => some "**Hole** `()`\n\nThe empty value."
  | .pipeline => some "**Pipeline**\n\n`x |> f` passes `x` as the argument of `f`."
  | .operation =>
      node.operatorToken?.map fun token =>
        let symbol := token.text.asString
        let name := match Catalog.operator? symbol with
          | some operator => operator.name
          | none => "Operator"
        "**" ++ name ++ "** expression (`" ++ symbol ++ "`)"
  | .application => some (explainApplication node)
  | _ => none

/-- The explanation of the innermost node at a position that has one. The name inside a tag is
explained by the tag. -/
def at? (document : Document) (position : Position) : Option Hover := do
  let node ← document.locate? position
  node.ancestors.findSome? fun candidate =>
    if candidate.kind == .identifier && candidate.parentIs .tag then none
    else (explain? candidate).map (⟨·, document.nodeRange candidate⟩)

end Hover

end Scrapscript
