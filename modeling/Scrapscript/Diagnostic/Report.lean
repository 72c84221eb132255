import Scrapscript.Diagnostic.Check

/-!
The report on a document: its syntax errors, then what the enabled checks find, up to a limit.
-/

namespace Scrapscript

/-- What is said of an error node, by the construct that it stands in. -/
def Node.errorMessage (node : Node) : String :=
  match node.parentKind? with
  | none => "Syntax error"
  | some .whereClause => "Invalid where clause: expected '; name = expression'"
  | some .declaration => "Invalid declaration: expected 'name = expression'"
  | some .patternMatch | some .patternCase =>
      "Invalid pattern match: expected '| pattern -> expression'"
  | some .function => "Invalid function: expected 'pattern -> expression'"
  | some .record => "Invalid record: expected '\x7b field = value, ... \x7d'"
  | some .list => "Invalid list: expected '[ element, ... ]'"
  | some .tag => "Invalid tag: expected '#name'"
  | some .operation => "Invalid operator expression: missing operand"
  | some .application => "Invalid function application"
  | some other => "Syntax error in " ++ other.label

/-- One diagnostic for each error node, in document order. -/
def Document.syntaxErrors (document : Document) : List Diagnostic :=
  (document.root.ofKind .error).map fun node =>
    .error (document.nodeRange node) .syntaxError node.errorMessage

/-- What the enabled checks find, check by check. -/
def Document.problems (document : Document) (settings : Settings) : List Diagnostic :=
  (Check.all.filter (·.enabled settings)).flatMap (·.report document)

def diagnose (text : Text) (settings : Settings) : List Diagnostic :=
  if settings.problemLimit = 0 then []
  else
    match Document.ofText text with
    | .error failure =>
        [.error Range.zero .unparsed ("Failed to parse document: " ++ failure.message)]
    | .ok document =>
        ((Findings.empty.extend document.syntaxErrors).extend
          (document.problems settings)).finish settings.problemLimit

end Scrapscript
