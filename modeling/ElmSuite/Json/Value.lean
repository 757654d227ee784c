import ElmSuite.Number.Binary64
import ElmSuite.OrderedMap
import ElmSuite.Text.Codes

/-!
JSON values.  A string is a sequence of code points, because an escape may name half of a surrogate
pair.  An object keeps its members in order, each name once.
-/

namespace ElmSuite

/-- A JSON value. -/
inductive Json
  | null
  | bool (value : Bool)
  | int (value : Int)
  | float (value : Binary64)
  | string (codes : Codes)
  | list (items : List Json)
  | object (members : List (Codes × Json))

namespace Json

/-- A string value. -/
def ofText (text : String) : Json :=
  .string (.ofString text)

/-- Whether a value is a certain string. -/
def isText (text : String) : Json → Bool
  | .string codes => codes == .ofString text
  | _ => false

/-- The name of the kind of a value. -/
def kindName : Json → String
  | .null => "NoneType"
  | .bool _ => "bool"
  | .int _ => "int"
  | .float _ => "float"
  | .string _ => "str"
  | .list _ => "list"
  | .object _ => "dict"

mutual

/-- A value as it is shown inside another one. -/
def shown : Json → String
  | .null => "None"
  | .bool value => if value then "True" else "False"
  | .int value => toString value
  | .float value => value.text
  | .string codes => codes.quoted
  | .list items => "[" ++ ", ".intercalate (shownItems items) ++ "]"
  | .object members => "\x7b" ++ ", ".intercalate (shownMembers members) ++ "\x7d"

/-- The items of a list as they are shown. -/
def shownItems : List Json → List String
  | [] => []
  | item :: rest => item.shown :: shownItems rest

/-- The members of an object as they are shown. -/
def shownMembers : List (Codes × Json) → List String
  | [] => []
  | (name, value) :: rest => (name.quoted ++ ": " ++ value.shown) :: shownMembers rest

end

/-- A value as it is shown on its own: a string stands without quotes. -/
def display : Json → String
  | .string codes => codes.lossy
  | value => value.shown

/-- The member of an object with a name. -/
def member? (members : List (Codes × Json)) (name : String) : Option Json :=
  members.lookup (.ofString name)

end Json

end ElmSuite
