import Scrapscript.Catalog.Entry

/-!
The built-in functions.
-/

namespace Scrapscript.Catalog

/-- The built-in functions, grouped by module. -/
def functions : List Builtin := [
  ⟨"list/map", "(a -> b) -> list a -> list b", "Apply a function to every element of a list."⟩,
  ⟨"list/filter", "(a -> bool) -> list a -> list a",
    "Keep the elements for which the predicate returns `#true`."⟩,
  ⟨"list/fold", "b -> (b -> a -> b) -> list a -> b",
    "Reduce a list from the left with an accumulator."⟩,
  ⟨"list/length", "list a -> int", "Number of elements in a list."⟩,
  ⟨"list/first", "list a -> maybe a", "First element of a list, or `#none` if it is empty."⟩,
  ⟨"list/rest", "list a -> list a", "Every element but the first."⟩,
  ⟨"list/reverse", "list a -> list a", "Elements in reverse order."⟩,
  ⟨"list/append", "list a -> list a -> list a", "Concatenate two lists."⟩,
  ⟨"list/range", "int -> int -> list int",
    "Integers from the first bound up to, but excluding, the second."⟩,
  ⟨"list/repeat", "int -> a -> list a", "A list holding the same value `n` times."⟩,
  ⟨"list/zip", "list a -> list b -> list \x7b fst : a, snd : b \x7d",
    "Pair up the elements of two lists."⟩,
  ⟨"maybe/map", "(a -> b) -> maybe a -> maybe b",
    "Transform the value inside `#some`; `#none` passes through."⟩,
  ⟨"maybe/default", "a -> maybe a -> a", "The value inside `#some`, or the default for `#none`."⟩,
  ⟨"maybe/and-then", "(a -> maybe b) -> maybe a -> maybe b",
    "Chain a computation that may produce nothing."⟩,
  ⟨"result/map", "(a -> b) -> result e a -> result e b",
    "Transform the value inside `#ok`; `#error` passes through."⟩,
  ⟨"result/map-error", "(e -> f) -> result e a -> result f a",
    "Transform the value inside `#error`."⟩,
  ⟨"result/default", "a -> result e a -> a",
    "The value inside `#ok`, or the default for `#error`."⟩,
  ⟨"result/and-then", "(a -> result e b) -> result e a -> result e b",
    "Chain a computation that may fail."⟩,
  ⟨"text/length", "text -> int", "Number of characters in a text."⟩,
  ⟨"text/concat", "list text -> text", "Join a list of texts."⟩,
  ⟨"text/split", "text -> text -> list text", "Split a text on a separator."⟩,
  ⟨"text/join", "text -> list text -> text", "Join a list of texts with a separator."⟩,
  ⟨"text/to-list", "text -> list text", "The characters of a text."⟩,
  ⟨"text/repeat", "int -> text -> text", "A text repeated `n` times."⟩,
  ⟨"bytes/length", "bytes -> int", "Number of bytes."⟩,
  ⟨"bytes/to-utf8-text", "bytes -> text", "Decode UTF-8 bytes as text."⟩,
  ⟨"bytes/from-utf8-text", "text -> bytes", "Encode text as UTF-8 bytes."⟩,
  ⟨"bytes/to-list", "bytes -> list int", "The byte values as integers."⟩,
  ⟨"dict/get", "text -> dict a -> maybe a", "Look up a key."⟩,
  ⟨"dict/set", "text -> a -> dict a -> dict a", "Insert or replace a key."⟩,
  ⟨"dict/remove", "text -> dict a -> dict a", "Remove a key."⟩,
  ⟨"dict/keys", "dict a -> list text", "All keys."⟩,
  ⟨"dict/values", "dict a -> list a", "All values."⟩,
  ⟨"io/print", "text -> ()", "Write a line to standard output."⟩,
  ⟨"io/read", "() -> text", "Read a line from standard input."⟩,
  ⟨"io/now", "() -> int", "Current time in seconds since the epoch."⟩,
  ⟨"remote/fetch", "text -> result text bytes", "Fetch the contents of a URL."⟩,
  ⟨"remote/resolve", "text -> result text a", "Resolve a value by its hash from the scrap yard."⟩,
  ⟨"to-float", "int -> float", "Convert an integer to a float."⟩,
  ⟨"round", "float -> int", "Round to the nearest integer."⟩,
  ⟨"ceil", "float -> int", "Round up."⟩,
  ⟨"floor", "float -> int", "Round down."⟩,
  ⟨"abs", "int -> int", "Absolute value."⟩,
  ⟨"min", "int -> int -> int", "The smaller of two numbers."⟩,
  ⟨"max", "int -> int -> int", "The larger of two numbers."⟩
]

end Scrapscript.Catalog
