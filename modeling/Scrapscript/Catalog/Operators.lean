import Scrapscript.Catalog.Entry

/-!
The operators and the punctuation that has a meaning of its own.
-/

namespace Scrapscript.Catalog

/-- Binary operators from the loosest to the tightest, then punctuation. -/
def operators : List Operator := [
  ⟨.pipeline, "Pipe",
    "Pass the left value as the last argument of the function on the right: `x |> f` is `f x`."⟩,
  ⟨.compose, "Compose", "Left-to-right function composition: `(f >> g) x` is `g (f x)`."⟩,
  ⟨.composeBack, "Compose backwards",
    "Right-to-left function composition: `(f << g) x` is `f (g x)`."⟩,
  ⟨.logicalOr, "Logical or", "`#true` if either operand is `#true`."⟩,
  ⟨.logicalAnd, "Logical and", "`#true` if both operands are `#true`."⟩,
  ⟨.equal, "Equal", "Structural equality."⟩,
  ⟨.notEqual, "Not equal", "Structural inequality."⟩,
  ⟨.less, "Less than", "Compare two numbers."⟩,
  ⟨.greater, "Greater than", "Compare two numbers."⟩,
  ⟨.lessEqual, "Less than or equal", "Compare two numbers."⟩,
  ⟨.greaterEqual, "Greater than or equal", "Compare two numbers."⟩,
  ⟨.concat, "Concatenate", "Concatenate two texts, lists or byte strings."⟩,
  ⟨.cons, "Cons", "Prepend an element to a list: `1 >+ [2, 3]`."⟩,
  ⟨.snoc, "Snoc", "Append an element to a list: `[1, 2] +< 3`."⟩,
  ⟨.plus, "Addition", "Add two numbers."⟩,
  ⟨.minus, "Subtraction", "Subtract the right number from the left."⟩,
  ⟨.star, "Multiplication", "Multiply two numbers."⟩,
  ⟨.slash, "Division", "Divide the left number by the right."⟩,
  ⟨.percent, "Remainder", "Remainder of integer division."⟩,
  ⟨.caret, "Exponentiation", "Raise the left number to the power of the right; right associative."⟩,
  ⟨.arrow, "Function", "Build a function from a pattern and a body: `x -> x + 1`."⟩,
  ⟨.equals, "Binding", "Bind a name to a value: `x = 1`."⟩,
  ⟨.colon, "Type annotation", "Annotate an expression with a type: `x : int`."⟩,
  ⟨.dot, "Field access", "Read a record field: `point.x`."⟩,
  ⟨.semicolon, "Where", "Introduce local bindings: `x + y ; x = 1 ; y = 2`."⟩,
  ⟨.pipe, "Pattern case", "Start a case of a pattern-matching function: `| 0 -> 1`."⟩,
  ⟨.question, "Guard", "Add a condition to a pattern case: `| n ? n > 0 -> n`."⟩,
  ⟨.dotDot, "Spread", "Splice the rest of a list or record: `[x, ..xs]`."⟩,
  ⟨.hash, "Tag", "Build a tagged value: `#some 1`."⟩
]

end Scrapscript.Catalog
