import Scrapscript.Catalog.Entry

/-!
Names that are offered and explained: tags, types, modules, record fields, pattern and binding
templates, and the reserved words.
-/

namespace Scrapscript.Catalog

/-- Common tags, without the leading hash. -/
def tags : List Entry := [
  ⟨"true", "Boolean true."⟩,
  ⟨"false", "Boolean false."⟩,
  ⟨"some", "A present optional value: `#some x`."⟩,
  ⟨"none", "An absent optional value."⟩,
  ⟨"ok", "A successful result: `#ok value`."⟩,
  ⟨"error", "A failed result: `#error reason`."⟩,
  ⟨"left", "The left alternative of an either."⟩,
  ⟨"right", "The right alternative of an either."⟩,
  ⟨"pending", "Work that has not finished yet."⟩,
  ⟨"done", "Work that has finished."⟩
]

def types : List Entry := [
  ⟨"int", "Arbitrary-precision integer."⟩,
  ⟨"float", "Floating point number."⟩,
  ⟨"text", "UTF-8 text."⟩,
  ⟨"bytes", "Sequence of bytes: `~~aGVsbG8=` or `~ff`."⟩,
  ⟨"bool", "`#true` or `#false`."⟩,
  ⟨"list", "Homogeneous list: `list int`."⟩,
  ⟨"record", "Named fields: `\x7b x : int, y : int \x7d`."⟩,
  ⟨"maybe", "`#some a` or `#none`."⟩,
  ⟨"result", "`#ok a` or `#error e`."⟩,
  ⟨"dict", "Map from text keys to values."⟩
]

def modules : List Entry := [
  ⟨"list", "Operations on lists."⟩,
  ⟨"maybe", "Optional values."⟩,
  ⟨"result", "Computations that may fail."⟩,
  ⟨"text", "Text manipulation."⟩,
  ⟨"bytes", "Byte strings and encodings."⟩,
  ⟨"dict", "Dictionaries keyed by text."⟩,
  ⟨"io", "Input and output effects."⟩,
  ⟨"remote", "Values fetched from elsewhere."⟩
]

/-- Field names offered after a dot, whatever the record. -/
def recordFields : List Entry := [
  ⟨"id", "Identifier."⟩,
  ⟨"name", "Name."⟩,
  ⟨"value", "Value."⟩,
  ⟨"type", "Kind of the record."⟩,
  ⟨"data", "Payload."⟩,
  ⟨"items", "Contained elements."⟩,
  ⟨"count", "Number of items."⟩
]

/-- Templates for pattern cases, in the order in which they are offered. -/
def patternSnippets : List Snippet := [
  ⟨"| pattern -> expression", "| $\x7b1:pattern\x7d -> $\x7b2:expression\x7d",
    "Basic pattern case."⟩,
  ⟨"| _ -> default", "| _ -> $\x7b1:default\x7d",
    "Catch-all case matching any value."⟩,
  ⟨"| [] -> empty", "| [] -> $\x7b1:empty\x7d",
    "Match the empty list."⟩,
  ⟨"| [head, ..tail] -> expression",
    "| [$\x7b1:head\x7d, ..$\x7b2:tail\x7d] -> $\x7b3:expression\x7d",
    "Split a list into its first element and the rest."⟩,
  ⟨"| [a, b] -> expression", "| [$\x7b1:a\x7d, $\x7b2:b\x7d] -> $\x7b3:expression\x7d",
    "Match a list of exactly these elements."⟩,
  ⟨"| \x7b field = value \x7d -> expression",
    "| \x7b $\x7b1:field\x7d = $\x7b2:value\x7d \x7d -> $\x7b3:expression\x7d",
    "Destructure a record."⟩,
  ⟨"| #tag value -> expression", "| #$\x7b1:tag\x7d $\x7b2:value\x7d -> $\x7b3:expression\x7d",
    "Match a tagged value."⟩,
  ⟨"| x ? condition -> expression",
    "| $\x7b1:x\x7d ? $\x7b2:condition\x7d -> $\x7b3:expression\x7d",
    "Case that only matches when the guard holds."⟩,
  ⟨"| 0 -> expression", "| $\x7b1:0\x7d -> $\x7b2:expression\x7d",
    "Match a literal number."⟩,
  ⟨"| \"text\" -> expression", "| \"$\x7b1:text\x7d\" -> $\x7b2:expression\x7d",
    "Match a literal text."⟩
]

def whereSnippet : Snippet :=
  ⟨"; identifier = expression", "; $\x7b1:identifier\x7d = $\x7b2:expression\x7d",
    "Local binding scoped to the expression before it."⟩

/-- Reserved words, in alphabetical order. They are tokens like any other identifier. -/
def keywords : List String := [
  "else", "if", "import", "in", "let", "match", "then", "type", "use", "where", "with"
]

def isKeyword (word : String) : Bool :=
  keywords.contains word

end Scrapscript.Catalog
