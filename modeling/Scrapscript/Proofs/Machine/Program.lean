import Scrapscript.Grammar
import Scrapscript.Proofs.Machine.Builder

/-!
The grammar as a program for a machine that builds the tree step by step. A program decides by what
it can see of the tokens ahead, and acts on a tree under construction. Its routines call each other
and answer whether they have found something; its loops are rounds that are run again as long as
they answer that there may be more.
-/

namespace Scrapscript

/-- All that a program can see of a cursor. -/
structure Glance where
  kind? : Option TokenKind
  following? : Option TokenKind
  afterLineBreak : Bool
  /-- The number of tokens that are left, white space and comments included. -/
  left : Nat

def Cursor.glance (cursor : Cursor) : Glance :=
  ⟨cursor.kind?, cursor.following?, cursor.afterLineBreak, cursor.remaining.length⟩

namespace Glance

variable (glance : Glance)

def atEnd : Bool :=
  glance.kind?.isNone

def sees (kind : TokenKind) : Bool :=
  glance.kind? == some kind

def seesNegative : Bool :=
  glance.sees .minus && glance.following?.any TokenKind.isNumber

def seesArgument : Bool :=
  glance.kind?.any TokenKind.startsArgument

def seesExpression : Bool :=
  glance.seesArgument || glance.sees .pipe || glance.seesNegative

def seesDeclaration : Bool :=
  glance.afterLineBreak && glance.sees .ident && glance.following? == some .equals

def seesMore : Bool :=
  !(glance.atEnd || glance.sees .closeParen || glance.sees .closeBracket
    || glance.sees .closeBrace || glance.sees .semicolon)

/-- The operator ahead that binds at least as tightly as `power`, and how tightly it binds to its
right. -/
def operatorAt? (power : Nat) : Option (TokenKind × Nat) :=
  match glance.kind? with
  | none => none
  | some operator =>
      match Grammar.powers? operator with
      | none => none
      | some (left, right) => if left < power then none else some (operator, right)

end Glance

/-- A fault that a program may report. The nesting limit is reported by the machine alone. -/
structure Complaint where
  fault : SyntaxFault
  ordinary : fault ≠ .nestedTooDeeply := by simp

namespace Machine

/-- What a program does to the tree under construction and to the cursor. -/
inductive Action where
  | flush
  | bump
  | start (kind : NodeKind)
  | startAt (mark : Nat) (kind : NodeKind)
  | finish
  | missing (complaint : Complaint)
  /-- The next word in an error node. The complaint may quote it. -/
  | reject (complaint : Text → Complaint)

/-- The next word is skipped by force. -/
def Action.skip : Action :=
  .reject fun _ => ⟨.stalled, by simp⟩

inductive Routine where
  | item
  | expression
  | ascription
  | function
  | binary (power : Nat)
  | application
  | access
  | atom
deriving DecidableEq

/-- One pass through a loop. A loop that wraps a node again and again begins the larger node at the
mark before it. -/
inductive Round where
  | item
  | clause (mark : Nat)
  | operation (power mark : Nat)
  | argument (mark : Nat)
  | field (mark : Nat)
  | element
  | entry
  | case
deriving DecidableEq

inductive Program where
  | done (answer : Bool)
  | perform (action : Action) (next : Program)
  | look (next : Glance → Program)
  /-- Sets a mark after the blanks. -/
  | mark (next : Nat → Program)
  | call (routine : Routine) (next : Bool → Program)
  /-- Runs a round until it answers that there is no more. -/
  | again (round : Round) (next : Program)

/-- A stretch of a program, to be followed by the rest. -/
abbrev Passage := Program → Program

namespace Passage

def take : Passage :=
  .perform .bump

def missing (complaint : Complaint) : Passage :=
  .perform (.missing complaint)

def reject (complaint : Text → Complaint) : Passage :=
  .perform (.reject complaint)

def sequence : List Passage → Passage
  | [], next => next
  | passage :: passages, next => passage (sequence passages next)

def either (condition : Glance → Bool) (passage other : Passage) : Passage := fun next =>
  .look fun glance => if condition glance then passage next else other next

def when (condition : Glance → Bool) (passage : Passage) : Passage := fun next =>
  .look fun glance => if condition glance then passage next else next

def enclose (kind : NodeKind) (passage : Passage) : Passage := fun next =>
  .perform (.start kind) (passage (.perform .finish next))

def encloseFrom (mark : Nat) (kind : NodeKind) (passage : Passage) : Passage := fun next =>
  .perform (.startAt mark kind) (passage (.perform .finish next))

def expect (kind : TokenKind) (complaint : Complaint) : Passage :=
  either (·.sees kind) take (missing complaint)

def require (routine : Routine) (complaint : Complaint) : Passage := fun next =>
  .call routine fun found => if found then next else .perform (.missing complaint) next

def allow (routine : Routine) : Passage := fun next =>
  .call routine fun _ => next

def name : Passage :=
  enclose .identifier take

/-- A bound expression or a bare one, whether or not the call has found anything. -/
def bound : Passage := fun next =>
  .mark fun mark => .call .ascription fun _ =>
    when (·.sees .equals) (encloseFrom mark .declaration
      (sequence [take, require .ascription ⟨.missingBoundExpression, by simp⟩])) next

def binding : Passage :=
  either (·.seesExpression) bound (missing ⟨.missingBinding, by simp⟩)

def tagName : Passage :=
  either (fun glance => glance.sees .ident && !glance.afterLineBreak) name
    (missing ⟨.missingTagName, by simp⟩)

def spread : Passage :=
  enclose .spread (sequence [take, when (·.seesExpression) (allow (.binary 0))])

def separator (closer : TokenKind) : Passage :=
  when
    (fun glance => !(glance.sees .comma || glance.sees closer)
      && (glance.seesExpression || glance.sees .dotDot))
    (missing ⟨.missingComma, by simp⟩)

def listItem : Passage :=
  either (·.sees .comma) take <|
  either (·.sees .dotDot) (sequence [spread, separator .closeBracket]) <|
  either (·.seesExpression) (sequence [allow .ascription, separator .closeBracket]) <|
  reject fun _ => ⟨.unexpectedInList, by simp⟩

def recordField : Passage :=
  enclose .recordField (sequence [name, when (·.sees .equals)
    (sequence [take, require .ascription ⟨.missingFieldValue, by simp⟩])])

def recordItem : Passage :=
  either (·.sees .comma) take <|
  either (·.sees .dotDot) (sequence [spread, separator .closeBrace]) <|
  either (·.sees .ident) (sequence [recordField, separator .closeBrace]) <|
  reject fun _ => ⟨.unexpectedInRecord, by simp⟩

def guard : Passage :=
  enclose .guard (sequence [take, require (.binary 0) ⟨.missingCondition, by simp⟩])

def caseBody : Passage :=
  either (·.sees .arrow) (sequence [take, require .function ⟨.missingCaseBody, by simp⟩])
    (missing ⟨.missingArrow, by simp⟩)

def patternCase : Passage :=
  enclose .patternCase (sequence [take, require (.binary 0) ⟨.missingPattern, by simp⟩,
    when (·.sees .question) guard, caseBody])

def fieldName : Passage :=
  either (·.sees .ident) name (missing ⟨.missingFieldName, by simp⟩)

/-- The closer right after the opener makes a hole. -/
def parenthesized : Passage := fun next =>
  .mark fun mark => sequence [take, either (·.sees .closeParen) (encloseFrom mark .hole take)
    (encloseFrom mark .parenthesized (sequence [
      require .expression ⟨.missingExpression, by simp⟩,
      expect .closeParen ⟨.missingCloser .closeParen, by simp⟩]))] next

def collection (kind : NodeKind) (round : Round) (closer : TokenKind) : Passage :=
  enclose kind (sequence [take, .again round, expect closer ⟨.missingCloser closer, by simp⟩])

end Passage

namespace Program

open Passage

/-- The node that a routine finds, or a larger one around it. -/
def extended (routine : Routine) (condition : Glance → Bool) (kind : NodeKind) (tail : Passage) :
    Program :=
  .mark fun mark => .call routine fun found =>
    if found then when condition (encloseFrom mark kind tail) (.done true) else .done false

/-- The node that a routine finds, wrapped again and again. -/
def grown (routine : Routine) (round : Nat → Round) : Program :=
  .mark fun mark => .call routine fun found =>
    if found then .again (round mark) (.done true) else .done false

/-- A round that wraps the node after a mark into a larger one, if there is one. -/
def growing (mark : Nat) (growth : Glance → Option (NodeKind × Passage)) : Program :=
  .look fun glance =>
    match growth glance with
    | none => .done false
    | some (kind, tail) => encloseFrom mark kind tail (.done true)

/-- A round of a loop that goes on as long as a condition holds. -/
def asLongAs (condition : Glance → Bool) (passage : Passage) : Program :=
  .look fun glance => if condition glance then passage (.done true) else .done false

/-- The smallest expression that the tokens ahead begin. -/
def atomAt (glance : Glance) : Program :=
  match glance.kind? with
  | some .ident => name (.done true)
  | some .underscore => enclose .placeholder take (.done true)
  | some .int | some .float => enclose .number take (.done true)
  | some .minus =>
      if glance.seesNegative then enclose .number (sequence [take, take]) (.done true)
      else .done false
  | some .string => enclose .text take (.done true)
  | some .bytes | some .byte => enclose .bytes take (.done true)
  | some .hash => enclose .tag (sequence [take, tagName]) (.done true)
  | some .openParen => parenthesized (.done true)
  | some .openBracket => collection .list .element .closeBracket (.done true)
  | some .openBrace => collection .record .entry .closeBrace (.done true)
  | some .pipe => enclose .patternMatch (.again .case) (.done true)
  | _ => .done false

/-- Skips a token if as many are left as before. -/
def unlessStalled (left : Nat) : Program :=
  when (fun glance => glance.left == left && !glance.atEnd) (.perform .skip) (.done true)

/-- An item of the document, or a token that begins none. -/
def sourceItem : Program :=
  .look fun glance =>
    if glance.atEnd then .done false
    else
      either (·.seesExpression) (allow .item) (reject fun text => ⟨.unexpected text, by simp⟩)
        (unlessStalled glance.left)

/-- The whole document. Its node is begun before the first token. -/
def sourceFile : Program :=
  .again .item (.perform .flush (.perform .finish (.done true)))

end Program

open Passage
open Program (extended grown growing asLongAs sourceItem)

namespace Routine

/-- Whether calls of the routine count as nesting. -/
def nests : Routine → Bool
  | function | binary _ => true
  | _ => false

def code : Routine → Program
  | item =>
      extended .expression (·.sees .equals) .declaration
        (sequence [take, require .expression ⟨.missingBoundExpression, by simp⟩])
  | expression => grown .ascription .clause
  | ascription =>
      extended .function (·.sees .colon) .ascription
        (sequence [take, require .function ⟨.missingType, by simp⟩])
  | function =>
      extended (.binary 0) (·.sees .arrow) .function
        (sequence [take, require .function ⟨.missingFunctionBody, by simp⟩])
  | binary power => grown .application (.operation power)
  | application => grown .access .argument
  | access => grown .atom .field
  | atom => .look Program.atomAt

end Routine

namespace Round

def code : Round → Program
  | item => sourceItem
  | clause mark =>
      growing mark fun glance =>
        if glance.sees .semicolon then some (.whereClause, sequence [take, binding]) else none
  | operation power mark =>
      growing mark fun glance =>
        match glance.operatorAt? power with
        | none => none
        | some (operator, right) =>
            some (Grammar.operationKind operator, sequence [enclose .operator take,
              require (.binary right) ⟨.missingOperand, by simp⟩])
  | argument mark =>
      growing mark fun glance =>
        if glance.seesArgument && !glance.seesDeclaration then some (.application, allow .access)
        else none
  | field mark =>
      growing mark fun glance =>
        if glance.sees .dot then some (.fieldAccess, sequence [take, fieldName]) else none
  | element => asLongAs (·.seesMore) listItem
  | entry => asLongAs (·.seesMore) recordItem
  | case => asLongAs (·.sees .pipe) patternCase

end Round

end Machine

end Scrapscript
