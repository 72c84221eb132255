import Scrapscript.Token

/-!
Splitting a text into tokens. At each point the longest text that belongs to some kind is taken; a
character that starts no token is an error token of its own.
-/

namespace Scrapscript.Lexer

def isLetter (char : Char) : Bool :=
  ('a' ≤ char && char ≤ 'z') || ('A' ≤ char && char ≤ 'Z')

def isDigit (char : Char) : Bool :=
  '0' ≤ char && char ≤ '9'

/-- Letters, digits and the underscore. -/
def isWord (char : Char) : Bool :=
  isLetter char || isDigit char || char == '_'

def isHexDigit (char : Char) : Bool :=
  isDigit char || ('a' ≤ char && char ≤ 'f') || ('A' ≤ char && char ≤ 'F')

/-- Characters of a base-64 literal. -/
def isBase64 (char : Char) : Bool :=
  isLetter char || isDigit char || char == '+' || char == '/' || char == '='

/-- The four characters that count as white space between tokens. -/
def isSpace (char : Char) : Bool :=
  char == ' ' || char == '\t' || char == '\r' || char == '\n'

/-- How far an identifier that has begun goes on. A slash or a hyphen joins a further segment only
before a letter, so that `x-1` and `x/2` stay arithmetic. -/
def identifierRest : Text → Text
  | [] => []
  | [last] => if isWord last then [last] else []
  | next :: following :: rest =>
      if isWord next then next :: identifierRest (following :: rest)
      else if (next == '/' || next == '-') && isLetter following then
        next :: following :: identifierRest rest
      else []

/-- The fraction of a number: a point and at least one digit. -/
def fraction : Text → Text
  | point :: first :: rest =>
      if point == '.' && isDigit first then point :: first :: rest.takeWhile isDigit else []
  | _ => []

/-- The body of a string after its opening quote: whether it is closed, and what it spans. An
escape is a backslash and any character but a line break; without a closing quote the body ends
before the first backslash that is not part of an escape. -/
def stringBody : Text → Bool × Text
  | [] => (false, [])
  | char :: rest =>
      if char == '"' then (true, [char])
      else if char == '\\' then
        match rest with
        | [] => (false, [])
        | escaped :: more =>
            if escaped == '\n' then (false, [])
            else
              let (closed, body) := stringBody more
              (closed, char :: escaped :: body)
      else
        let (closed, body) := stringBody rest
        (closed, char :: body)

/-- Operators and punctuation: the kind and the text of the longest one that starts here. -/
def symbol? (first : Char) (rest : Text) : Option Token :=
  let two (second : Char) (kind : TokenKind) (otherwise : Option Token) : Option Token :=
    if rest.head? = some second then some ⟨kind, [first, second]⟩ else otherwise
  let one (kind : TokenKind) : Option Token := some ⟨kind, [first]⟩
  match first with
  | '(' => one .openParen
  | ')' => one .closeParen
  | '[' => one .openBracket
  | ']' => one .closeBracket
  | '{' => one .openBrace
  | '}' => one .closeBrace
  | ',' => one .comma
  | ';' => one .semicolon
  | ':' => one .colon
  | '#' => one .hash
  | '?' => one .question
  | '*' => one .star
  | '/' => one .slash
  | '%' => one .percent
  | '^' => one .caret
  | '.' => two '.' .dotDot (one .dot)
  | '=' => two '=' .equal (one .equals)
  | '-' => two '>' .arrow (one .minus)
  | '|' => two '|' .logicalOr (two '>' .pipeline (one .pipe))
  | '+' => two '+' .concat (two '<' .snoc (one .plus))
  | '<' => two '=' .lessEqual (two '<' .composeBack (one .less))
  | '>' => two '=' .greaterEqual (two '+' .cons (two '>' .compose (one .greater)))
  | '!' => two '=' .notEqual none
  | '&' => two '&' .logicalAnd none
  | _ => none

/-- A literal that starts with a tilde: two more hexadecimal digits are a byte, a second tilde
starts a base-64 text. -/
def tilde (rest : Text) : Token :=
  match rest with
  | [] => ⟨.error, ['~']⟩
  | next :: body =>
      if next == '~' then ⟨.bytes, '~' :: next :: body.takeWhile isBase64⟩
      else if isHexDigit next && body.head?.any isHexDigit then ⟨.byte, '~' :: next :: body.take 1⟩
      else ⟨.error, ['~']⟩

def identifier (first : Char) (rest : Text) : Token :=
  ⟨.ident, first :: identifierRest rest⟩

def number (first : Char) (rest : Text) : Token :=
  let digits := first :: rest.takeWhile isDigit
  match fraction (rest.dropWhile isDigit) with
  | [] => ⟨.int, digits⟩
  | decimals => ⟨.float, digits ++ decimals⟩

/-- The token at the start of a text that is not empty. -/
def token (first : Char) (rest : Text) : Token :=
  if isSpace first then ⟨.whitespace, first :: rest.takeWhile isSpace⟩
  else if first == '-' && rest.head? == some '-' then
    ⟨.comment, first :: rest.takeWhile (· != '\n')⟩
  else if isLetter first then identifier first rest
  else if first == '_' then
    if rest.head?.any isWord then identifier first rest else ⟨.underscore, [first]⟩
  else if isDigit first then number first rest
  else if first == '"' then
    let (closed, body) := stringBody rest
    ⟨if closed then .string else .error, first :: body⟩
  else if first == '~' then tilde rest
  else (symbol? first rest).getD ⟨.error, [first]⟩

/-- The tokens of a text after its first `skipped` characters. -/
def tokensAfter : Nat → Text → List Token
  | _, [] => []
  | skipped + 1, _ :: rest => tokensAfter skipped rest
  | 0, first :: rest =>
      let next := token first rest
      next :: tokensAfter (next.text.length - 1) rest

/-- All tokens of a text, white space and comments included. -/
def tokenize (text : Text) : List Token :=
  tokensAfter 0 text

end Scrapscript.Lexer
