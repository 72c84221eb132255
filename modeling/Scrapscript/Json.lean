import Scrapscript.Text
import Scrapscript.Binary64

/-!
JSON values. Numbers are kept apart as whole numbers and floating-point numbers, and an object's
members stay in the order in which they were written.
-/

namespace Scrapscript

inductive Json where
  | null
  | bool (value : Bool)
  /-- A whole number between `-2 ^ 63` and `2 ^ 64 - 1`. -/
  | integer (value : Int)
  | float (value : Binary64)
  | string (value : Text)
  | array (elements : List Json)
  | object (members : List (Text × Json))

namespace Json

/-- The member of an object with a given key, the last one if the key is repeated. -/
def lastMember? (key : Text) : List (Text × Json) → Option Json
  | [] => none
  | (name, value) :: rest =>
      match lastMember? key rest with
      | some later => some later
      | none => if name = key then some value else none

def get? (json : Json) (key : Text) : Option Json :=
  match json with
  | object members => lastMember? key members
  | _ => none

end Json

end Scrapscript
