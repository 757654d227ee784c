import ElmSuite.Fault
import ElmSuite.Json.Printer
import ElmSuite.Manifest.Basic

/-!
The text of an application manifest, with its fields in their fixed order.  A value that holds half
of a surrogate pair cannot be written; a name loses it.
-/

namespace ElmSuite

/-- Packages with their versions as a JSON object. -/
def versionsJson (versions : OrderedMap Codes Codes) : Json :=
  .object (versions.entries.map fun entry => (entry.1, .string entry.2))

/-- Dependencies as a JSON object. -/
def Dependencies.toJson (d : Dependencies) : Json :=
  .object
    [ (.ofString "direct", versionsJson d.direct)
    , (.ofString "indirect", versionsJson d.indirect) ]

/-- An application manifest as a JSON object. -/
def Application.toJson (app : Application) : Json :=
  .object
    [ (.ofString "type", .ofText "application")
    , (.ofString "source-directories", .list (app.sourceDirectories.map .string))
    , (.ofString "elm-version", .string app.elmVersion)
    , (.ofString "dependencies", app.dependencies.toJson)
    , (.ofString "test-dependencies", app.testDependencies.toJson) ]

/-- The text of an application manifest, if all its values can be written. -/
def Application.print (app : Application) : Except Fault (List Char) :=
  match app.toJson.surrogates? with
  | some defect => .error (.unwritable defect)
  | none => .ok app.toJson.print

end ElmSuite
