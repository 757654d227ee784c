import ElmSuite.Failure
import ElmSuite.Json.OutlineReader
import ElmSuite.Json.Reader
import ElmSuite.Manifest.Basic

/-!
The shape that documents have to have: application manifests, package manifests and the answer of
the dependency solver.  A check goes through all fields and gathers every issue.
-/

namespace ElmSuite

/-- The result of a check: a value, or the issues that stand in its way. -/
abbrev Checked (α : Type) := Except (List Issue) α

namespace Schema

/-- The words in which a document is told that it is no object. -/
structure Wording where
  object : String
  dependencies : String
deriving DecidableEq, Repr

/-- The words for manifests. -/
def manifestWording : Wording where
  object := "Input should be a valid dictionary"
  dependencies := "Input should be a valid dictionary or instance of Dependencies"

/-- The words for the answer of the solver. -/
def solverWording : Wording where
  object := "Input should be an object"
  dependencies := "Input should be an object"

/-- A single issue. -/
def fail {α : Type} (place : List String) (words label : String) : Checked α :=
  .error [⟨".".intercalate place, words, label⟩]

/-- Two checks together; the issues of both are gathered. -/
def also {α β : Type} (f : Checked (α → β)) (a : Checked α) : Checked β :=
  match f, a with
  | .ok f, .ok a => .ok (f a)
  | .ok _, .error issues => .error issues
  | .error issues, .ok _ => .error issues
  | .error issues, .error more => .error (issues ++ more)

/-- The checks of a list together. -/
def all {α : Type} : List (Checked α) → Checked (List α)
  | [] => .ok []
  | check :: rest => also (check.map List.cons) (all rest)

/-- A text. -/
def text (place : List String) : Outline → Checked Codes
  | .text codes => .ok codes
  | _ => fail place "Input should be a valid string" "string_type"

/-- A list of texts. -/
def texts (place : List String) : Outline → Checked (List Codes)
  | .list items =>
      all (items.mapIdx fun index item => text (place ++ [toString index]) item)
  | _ => fail place "Input should be a valid list" "list_type"

/-- An object all of whose members pass a check. -/
def members {α : Type} (wording : Wording) (check : List String → Outline → Checked α)
    (place : List String) : Outline → Checked (OrderedMap Codes α)
  | .object members =>
      (all (members.map fun (name, value) =>
        (check (place ++ [name.lossy]) value).map fun value => (name, value))).map .ofList
  | _ => fail place wording.object "dict_type"

/-- An object of texts. -/
def versions (wording : Wording) : List String → Outline → Checked (OrderedMap Codes Codes) :=
  members wording text

/-- An object of version constraints.  The constraints are looked at once all of them are texts, and
the first one that is none is the issue. -/
def constraints (place : List String) (value : Outline) :
    Checked (OrderedMap Codes Constraint) := do
  let found ← versions manifestWording place value
  let parsed ← found.entries.mapM fun (name, constraint) =>
    match Constraint.ofCodes? constraint with
    | some parsed => .ok (name, parsed)
    | none =>
        fail place ("Value error, " ++ (Fault.badConstraint constraint).message) "value_error"
  return .ofList parsed

/-- The issue of a missing field. -/
def missing {α : Type} (place : List String) : Checked α :=
  fail place "Field required" "missing"

/-- A member under one of the names it may have, the first of which is its proper one, at
`place`. -/
def field {α : Type} (names : List String) (place : List String) (object : List (Codes × Outline))
    (absent : List String → Checked α) (check : List String → Outline → Checked α) : Checked α :=
  let found := names.findSome? fun name =>
    (object.reverse.lookup (.ofString name)).map fun value => (name, value)
  match found with
  | some (name, value) => check (place ++ [name]) value
  | none => absent (place ++ [names.headD ""])

/-- A field that has to be there. -/
def required {α : Type} (names : List String) (place : List String)
    (object : List (Codes × Outline)) (check : List String → Outline → Checked α) : Checked α :=
  field names place object missing check

/-- A field that has a value of its own if it is not there. -/
def optional {α : Type} (default : α) (names : List String) (place : List String)
    (object : List (Codes × Outline)) (check : List String → Outline → Checked α) : Checked α :=
  field names place object (fun _ => .ok default) check

/-- The issues of members that have no meaning. -/
def unknownMembers (known : List String) (place : List String) (object : List (Codes × Outline)) :
    Checked Unit :=
  let refused (name : Codes) : Checked Unit :=
    fail (place ++ [name.lossy]) "Extra inputs are not permitted" "extra_forbidden"
  let unknown := object.filter fun entry => !known.contains entry.1.lossy
  (all (unknown.map fun (name, _) => refused name)).map fun _ => ()

/-- The issue of an object one of whose names holds half of a surrogate pair. -/
def brokenName {α : Type} (place : List String) : Checked α :=
  fail place "Input should be a valid string, unable to parse raw data as a unicode string"
    "string_unicode"

/-- Dependencies, which have no other members. -/
def dependencies (wording : Wording) (place : List String) : Outline → Checked Dependencies
  | .object object =>
      if object.any fun entry => entry.1.any Codes.isSurrogate then brokenName place
      else
        let direct := optional .empty ["direct"] place object (versions wording)
        let indirect := optional .empty ["indirect"] place object (versions wording)
        let unknown := unknownMembers ["direct", "indirect"] place object
        also (also (also (.ok fun direct indirect _ => ⟨direct, indirect⟩) direct) indirect) unknown
  | _ => fail place wording.dependencies "model_type"

/-- An application manifest. -/
def application (object : List (Codes × Outline)) : Checked Application :=
  let place := ["application"]
  let directories :=
    required ["source-directories", "source_directories"] place object texts
  let version := required ["elm-version", "elm_version"] place object text
  let normal := optional .empty ["dependencies"] place object (dependencies manifestWording)
  let test :=
    optional .empty ["test-dependencies", "test_dependencies"] place object
      (dependencies manifestWording)
  also (also (also (also (.ok Application.mk) directories) version) normal) test

/-- The modules that a package exposes: if they are no list of names and no groups of them, the
issues of both readings count. -/
def exposedModules (place : List String) (value : Outline) : Checked ExposedModules :=
  match texts (place ++ ["list[str]"]) value with
  | .ok names => .ok (.list names)
  | .error issues =>
      match members manifestWording texts (place ++ ["dict[str,list[str]]"]) value with
      | .ok groups => .ok (.groups groups)
      | .error more => .error (issues ++ more)

/-- A package manifest. -/
def package (object : List (Codes × Outline)) : Checked Package :=
  let place := ["package"]
  let name := required ["name"] place object text
  let summary := optional [] ["summary"] place object text
  let license := optional [] ["license"] place object text
  let version := required ["version"] place object text
  let exposed :=
    optional (.list []) ["exposed-modules", "exposed_modules"] place object exposedModules
  let elmVersion := required ["elm-version", "elm_version"] place object text
  let normal := optional .empty ["dependencies"] place object constraints
  let test :=
    optional .empty ["test-dependencies", "test_dependencies"] place object constraints
  let front := also (also (also (also (.ok Package.mk) name) summary) license) version
  also (also (also (also front exposed) elmVersion) normal) test

/-- A manifest, whose shape is told by the member `type`. -/
def manifest (members : List (Codes × Json)) : Checked Manifest :=
  let object := Json.outlineMembers members
  match Json.member? members "type" with
  | none => fail [""] "Unable to extract tag using discriminator 'type'" "union_tag_not_found"
  | some tag =>
      if tag.isText "application" then (application object).map .application
      else if tag.isText "package" then (package object).map .package
      else
          fail [""] ("Input tag '" ++ tag.display ++ "' found using 'type' does not match any " ++
            "of the expected tags: 'application', 'package'") "union_tag_invalid"

end Schema

/-- The manifest that a text holds; `path` is where the text comes from. -/
def Manifest.ofText (text : List Char) (path : Option String) : Except Trouble Manifest :=
  match Json.readText text with
  | .error ⟨.tooManyDigits count, _⟩ => .error (.fault (.tooManyDigits count))
  | .error ⟨.tooDeep isObject, _⟩ => .error (.fault (.tooDeep isObject))
  | .error defect => .error (.failure (.manifest ("Invalid JSON: " ++ defect.message text) path []))
  | .ok (.object members) =>
      match Schema.manifest members with
      | .ok manifest => .ok manifest
      | .error issues =>
          let words :=
            "elm.json validation failed with " ++ toString issues.length ++ " error(s)"
          .error (.failure (.manifest words path issues))
  | .ok value =>
      let words := "Expected a JSON object at root, got " ++ value.kindName
      .error (.failure (.manifest words path []))

/-- The dependencies that a text holds, as the solver writes them. -/
def Dependencies.ofText (text : List Char) : Except Failure Dependencies :=
  let bytes := Text.Utf8.encode text
  let checked : Checked Dependencies :=
    match Outline.readBytes bytes with
    | .error defect =>
        Schema.fail [""] ("Invalid JSON: " ++ defect.message bytes) "json_invalid"
    | .ok outline => Schema.dependencies Schema.solverWording [] outline
  match checked with
  | .ok found => .ok found
  | .error issues =>
      .error (.manifest
        ("Wrongly formed dependencies (" ++ toString issues.length ++ " error(s))") none issues)

end ElmSuite
