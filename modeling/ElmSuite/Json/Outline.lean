import ElmSuite.Json.Value

/-!
Outlines of JSON values: what a document schema of texts, lists and objects has to know.  All
numbers, truth values and nulls are the same to it.
-/

namespace ElmSuite

/-- The outline of a JSON value. -/
inductive Outline
  | text (codes : Codes)
  | list (items : List Outline)
  /-- The members in their order; of several with one name the last one counts. -/
  | object (members : List (Codes × Outline))
  | other

namespace Json

mutual

/-- The outline of a value. -/
def outline : Json → Outline
  | .string codes => .text codes
  | .list items => .list (outlineItems items)
  | .object members => .object (outlineMembers members)
  | _ => .other

/-- The outlines of the items of a list. -/
def outlineItems : List Json → List Outline
  | [] => []
  | item :: rest => item.outline :: outlineItems rest

/-- The outlines of the members of an object. -/
def outlineMembers : List (Codes × Json) → List (Codes × Outline)
  | [] => []
  | (name, value) :: rest => (name, value.outline) :: outlineMembers rest

end

end Json

end ElmSuite
