import Scrapscript.Grammar.Rule

/-!
The grammar of expressions, from the loosest construct to the tightest: where clauses, type
ascriptions, functions, binary operators, applications, field accesses and atoms.

Every way around this chain passes a function or a binary operation, and those two count the
nesting. A level holds both for a given number of further levels below it.
-/

namespace Scrapscript

/-- The two constructs that nest, at one depth. -/
structure Level where
  function : Rule
  /-- Binary operations whose operators bind at least as tightly as the given power. -/
  binary : Nat → Rule

namespace Grammar

open Scrapscript.Phrase Scrapscript.Rule

def name : Phrase :=
  enclose .identifier take

/-- A type ascription, or the bare expression before the colon. -/
def ascription (below : Level) : Rule :=
  settled <| below.function.extended (·.sees .colon) .ascription
    (sequence [take, require below.function .missingType])

/-- What follows the semicolon of a where clause. A binding without an equals sign stays a bare
expression. -/
def binding (below : Level) : Phrase := fun cursor =>
  if cursor.seesExpression then
    allow ((ascription below).extended (·.sees .equals) .declaration
      (sequence [take, require (ascription below) .missingBoundExpression])) cursor
  else missing .missingBinding cursor

/-- An expression with its where clauses, which nest to the left. -/
def expression (below : Level) : Rule :=
  settled <| (ascription below).grown fun cursor =>
    if cursor.sees .semicolon then some ⟨.whereClause, sequence [take, binding below]⟩ else none

/-- A tag name stands on the line of its hash. -/
def tagName : Phrase := fun cursor =>
  if cursor.sees .ident && !cursor.afterLineBreak then name cursor
  else missing .missingTagName cursor

def spread (below : Level) : Phrase :=
  enclose .spread (sequence [take, when (·.seesExpression) (allow (below.binary 0))])

/-- After an element there is a comma or the closer; the start of another element means that a comma
is missing. -/
def separator (closer : TokenKind) : Phrase :=
  when
    (fun cursor => !(cursor.sees .comma || cursor.sees closer)
      && (cursor.seesExpression || cursor.sees .dotDot))
    (missing .missingComma)

/-- A collection ends at its own closer and stops at that of an enclosing construct. -/
def seesMore (cursor : Cursor) : Bool :=
  !(cursor.atEnd || cursor.sees .closeParen || cursor.sees .closeBracket
    || cursor.sees .closeBrace || cursor.sees .semicolon)

/-- One step through a list. Empty slots are accepted here. -/
def listItem (below : Level) : Phrase := fun cursor =>
  if cursor.sees .comma then take cursor
  else if cursor.sees .dotDot then sequence [spread below, separator .closeBracket] cursor
  else if cursor.seesExpression then
    sequence [allow (ascription below), separator .closeBracket] cursor
  else reject .unexpectedInList cursor

/-- A record field. The value may be left out here. -/
def recordField (below : Level) : Phrase :=
  enclose .recordField (sequence [name, when (·.sees .equals)
    (sequence [take, require (ascription below) .missingFieldValue])])

def recordItem (below : Level) : Phrase := fun cursor =>
  if cursor.sees .comma then take cursor
  else if cursor.sees .dotDot then sequence [spread below, separator .closeBrace] cursor
  else if cursor.sees .ident then sequence [recordField below, separator .closeBrace] cursor
  else reject .unexpectedInRecord cursor

def guard (below : Level) : Phrase :=
  enclose .guard (sequence [take, require (below.binary 0) .missingCondition])

/-- The arrow of a pattern case and, only if there is one, the body. -/
def caseBody (below : Level) : Phrase := fun cursor =>
  if cursor.sees .arrow then sequence [take, require below.function .missingCaseBody] cursor
  else missing .missingArrow cursor

def patternCase (below : Level) : Phrase :=
  enclose .patternCase (sequence [take, require (below.binary 0) .missingPattern,
    when (·.sees .question) (guard below), caseBody below])

def atom (below : Level) : Rule := fun cursor =>
  match cursor.kind? with
  | some .ident => build .identifier take cursor
  | some .underscore => build .placeholder take cursor
  | some .int | some .float => build .number take cursor
  | some .minus =>
      if cursor.seesNegative then build .number (sequence [take, take]) cursor
      else nothing cursor
  | some .string => build .text take cursor
  | some .bytes | some .byte => build .bytes take cursor
  | some .hash => build .tag (sequence [take, tagName]) cursor
  | some .openParen =>
      if cursor.following? == some .closeParen then build .hole (sequence [take, take]) cursor
      else build .parenthesized (sequence [take, require (expression below) .missingExpression,
        expect .closeParen (.missingCloser .closeParen)]) cursor
  | some .openBracket =>
      build .list (sequence [take, many seesMore (listItem below),
        expect .closeBracket (.missingCloser .closeBracket)]) cursor
  | some .openBrace =>
      build .record (sequence [take, many seesMore (recordItem below),
        expect .closeBrace (.missingCloser .closeBrace)]) cursor
  | some .pipe =>
      build .patternMatch (many (·.sees .pipe) (patternCase below)) cursor
  | _ => nothing cursor

def fieldName : Phrase := fun cursor =>
  if cursor.sees .ident then name cursor else missing .missingFieldName cursor

def access (below : Level) : Rule :=
  settled <| (atom below).grown fun cursor =>
    if cursor.sees .dot then some ⟨.fieldAccess, sequence [take, fieldName]⟩ else none

/-- An identifier and an equals sign on a later line begin the next declaration. -/
def seesDeclaration (cursor : Cursor) : Bool :=
  cursor.afterLineBreak && cursor.sees .ident && cursor.following? == some .equals

def application (below : Level) : Rule :=
  settled <| (access below).grown fun cursor =>
    if cursor.seesArgument && !seesDeclaration cursor then
      some ⟨.application, allow (access below)⟩
    else none

/-- How tightly a binary operator binds to its left and to its right. Only the power operator binds
tighter to its left, and so groups to the right. -/
def powers? : TokenKind → Option (Nat × Nat)
  | .pipeline => some (1, 2)
  | .compose | .composeBack => some (3, 4)
  | .logicalOr => some (5, 6)
  | .logicalAnd => some (7, 8)
  | .equal | .notEqual | .less | .greater | .lessEqual | .greaterEqual => some (9, 10)
  | .concat | .cons | .snoc => some (11, 12)
  | .plus | .minus => some (13, 14)
  | .star | .slash | .percent => some (15, 16)
  | .caret => some (18, 17)
  | _ => none

def operationKind (operator : TokenKind) : NodeKind :=
  if operator == .pipeline then .pipeline else .operation

/-- The operator at a cursor that binds at least as tightly as `power`, and how tightly it binds to
its right. -/
def operatorAt? (power : Nat) (cursor : Cursor) : Option (TokenKind × Nat) :=
  match cursor.kind? with
  | none => none
  | some operator =>
      match powers? operator with
      | none => none
      | some (left, right) => if left < power then none else some (operator, right)

/-- The node around the operator at a cursor, if that binds at least as tightly as `power`. -/
def joining (below : Level) (power : Nat) (cursor : Cursor) : Option Rule.Growth :=
  match operatorAt? power cursor with
  | none => none
  | some (operator, right) =>
      some ⟨operationKind operator,
        sequence [enclose .operator take, require (below.binary right) .missingOperand]⟩

/-- Operands joined by operators that bind at least as tightly as `power`. -/
def binary (below : Level) (power : Nat) : Rule :=
  settled <| (application below).grown (joining below power)

/-- A function, or the bare operation before the arrow. -/
def function (below : Level) : Rule :=
  settled <| (below.binary 0).extended (·.sees .arrow) .function
    (sequence [take, require below.function .missingFunctionBody])

end Grammar

/-- The constructs that nest, with `depth` levels below them before the parse is cut off. -/
def Level.ofDepth : Nat → Level
  | 0 => ⟨Rule.cutOff, fun _ => Rule.cutOff⟩
  | depth + 1 =>
      let below := ofDepth depth
      ⟨Grammar.function below, Grammar.binary below⟩

end Scrapscript
