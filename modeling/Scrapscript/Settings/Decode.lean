import Scrapscript.Binary64.Layout
import Scrapscript.Json.Reader
import Scrapscript.Settings
import Scrapscript.Text.Quoted

/-!
Settings as JSON. They are written as an object with a member for each of them. They are read from
an object, bare or under the name of their section, or from an array in a fixed order; whatever is
left out keeps its default, and unknown keys are ignored.
-/

namespace Scrapscript

namespace Settings

def sectionName : String := "scrapscript"

inductive Expected where
  | count
  | flag
  | settings
deriving DecidableEq, Repr

def Expected.description : Expected → String
  | count => "usize"
  | flag => "a boolean"
  | settings => "struct Settings"

end Settings

inductive ConfigError where
  | malformed
  | wrongType (found : Json) (expected : Settings.Expected)
  /-- A value of the right type that is out of bounds. -/
  | wrongValue (found : Json) (expected : Settings.Expected)
  | tooLong (length : Nat)

namespace ConfigError

/-- Numbers in messages keep a point or an exponent, and are written without an exponent when their
first digit stands between the fifth decimal and the sixteenth place. Of two equally near decimals
the even one is written. -/
def floatLayout : Layout where
  positional leading := decide (-5 ≤ leading) && decide (leading ≤ 15)
  keepsPoint := true
  tie := .toEven

def describe : Json → String
  | .null => "null"
  | .bool value => "boolean `" ++ (if value then "true" else "false") ++ "`"
  | .integer value => "integer `" ++ toString value ++ "`"
  | .float value => "floating point `" ++ (floatLayout.write value).asString ++ "`"
  | .string value => "string " ++ value.quoted.asString
  | .array _ => "sequence"
  | .object _ => "map"

def message (error : ConfigError) : String :=
  "invalid configuration: " ++ match error with
    | malformed => "malformed JSON"
    | wrongType found expected =>
        "invalid type: " ++ describe found ++ ", expected " ++ expected.description
    | wrongValue found expected =>
        "invalid value: " ++ describe found ++ ", expected " ++ expected.description
    | tooLong length =>
        "invalid length " ++ toString length ++ ", expected fewer elements in array"

end ConfigError

namespace Settings

def countLimit : Int := 0xFFFFFFFFFFFFFFFF

def readCount : Json → Except ConfigError Nat
  | .integer value =>
      if 0 ≤ value ∧ value ≤ countLimit then .ok value.toNat
      else .error (.wrongValue (.integer value) .count)
  | other => .error (.wrongType other .count)

def readFlag : Json → Except ConfigError Bool
  | .bool value => .ok value
  | other => .error (.wrongType other .flag)

def orDefault {α : Type} (read : Json → Except ConfigError α) (default : α) :
    Option Json → Except ConfigError α
  | some value => read value
  | none => .ok default

/-- Settings in an object. Keys are looked at in alphabetical order, so that the first bad one in
that order is the error. -/
def ofMembers (members : List (Text × Json)) : Except ConfigError Settings := do
  let member (key : String) : Option Json := Json.lastMember? key.toList members
  let validation ← orDefault readFlag default.validation (member "enhancedValidation")
  let exhaustiveness ← orDefault readFlag default.exhaustiveness (member "exhaustivenessChecking")
  let problemLimit ← orDefault readCount default.problemLimit (member "maxNumberOfProblems")
  let highlighting ← orDefault readFlag default.highlighting (member "semanticTokens")
  let typeChecking ← orDefault readFlag default.typeChecking (member "typeChecking")
  return { problemLimit, validation, typeChecking, exhaustiveness, highlighting }

/-- Settings in an array: the limit, then the flags in the order of their declaration. -/
def ofElements (elements : List Json) : Except ConfigError Settings := do
  let problemLimit ← orDefault readCount default.problemLimit elements[0]?
  let validation ← orDefault readFlag default.validation elements[1]?
  let typeChecking ← orDefault readFlag default.typeChecking elements[2]?
  let exhaustiveness ← orDefault readFlag default.exhaustiveness elements[3]?
  let highlighting ← orDefault readFlag default.highlighting elements[4]?
  if 5 < elements.length then throw (.tooLong elements.length)
  return { problemLimit, validation, typeChecking, exhaustiveness, highlighting }

/-- Settings that are not under the name of a section. -/
def ofBare : Json → Except ConfigError Settings
  | .object members => ofMembers members
  | .array elements => ofElements elements
  | other => .error (.wrongType other .settings)

/-- Settings in a JSON value. If the value has the section, nothing else in it counts. -/
def ofJson (json : Json) : Except ConfigError Settings :=
  ofBare ((json.get? sectionName.toList).getD json)

/-- Settings as an object with a member for each. -/
def toJson (settings : Settings) : Json :=
  .object
    [("maxNumberOfProblems".toList, .integer settings.problemLimit),
      ("enhancedValidation".toList, .bool settings.validation),
      ("typeChecking".toList, .bool settings.typeChecking),
      ("exhaustivenessChecking".toList, .bool settings.exhaustiveness),
      ("semanticTokens".toList, .bool settings.highlighting)]

def ofText (text : Text) : Except ConfigError Settings :=
  match Json.parse? text with
  | some json => ofJson json
  | none => .error .malformed

end Settings

end Scrapscript
