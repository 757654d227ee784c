import ElmSuite.Manifest.Constraint
import ElmSuite.OrderedMap

/-!
The two shapes of a project manifest: an application with pinned versions, and a package with
version constraints.
-/

namespace ElmSuite

/-- The dependencies of an application: packages with their versions. -/
structure Dependencies where
  direct : OrderedMap Codes Codes := .empty
  indirect : OrderedMap Codes Codes := .empty
deriving DecidableEq

namespace Dependencies

/-- No dependencies. -/
def empty : Dependencies := {}

/-- The names of all packages, each once. -/
def names (d : Dependencies) : List Codes :=
  (d.direct.keys ++ d.indirect.keys).eraseDups

/-- The dependencies of code and of its tests together.  A version of the code wins over one of the
tests, and a package that is direct in one of them is direct. -/
def promote (normal test : Dependencies) : Dependencies :=
  let pinned := test.direct.mapValues fun name version => (normal.indirect.get? name).getD version
  let direct := pinned.update normal.direct
  let indirect :=
    (test.indirect.update normal.indirect).filterKeys fun name => !direct.contains name
  ⟨direct, indirect⟩

end Dependencies

/-- The manifest of an application. -/
structure Application where
  sourceDirectories : List Codes
  elmVersion : Codes
  dependencies : Dependencies
  testDependencies : Dependencies
deriving DecidableEq

/-- The application with its test dependencies among the normal ones. -/
def Application.promote (app : Application) : Application :=
  { app with
    dependencies := app.dependencies.promote app.testDependencies
    testDependencies := .empty }

/-- The modules that a package exposes, as one list or in named groups. -/
inductive ExposedModules
  | list (names : List Codes)
  | groups (groups : OrderedMap Codes (List Codes))

/-- The manifest of a package. -/
structure Package where
  name : Codes
  summary : Codes
  license : Codes
  version : Codes
  exposedModules : ExposedModules
  elmVersion : Codes
  dependencies : OrderedMap Codes Constraint
  testDependencies : OrderedMap Codes Constraint

/-- The version of Elm that generated projects are for. -/
def defaultElmVersion : String := "0.19.1"

/-- The pinned versions of a package's dependencies. -/
def pinnedVersions (constraints : OrderedMap Codes Constraint) : Dependencies :=
  ⟨constraints.mapValues fun _ constraint => .ofString constraint.version, .empty⟩

/-- The application that has the sources and the pinned dependencies of a package. -/
def Package.toApplication (p : Package) : Application where
  sourceDirectories := [.ofString "src"]
  elmVersion := .ofString defaultElmVersion
  dependencies := pinnedVersions p.dependencies
  testDependencies := pinnedVersions p.testDependencies

/-- A manifest. -/
inductive Manifest
  | application (app : Application)
  | package (pkg : Package)

/-- The manifest as an application. -/
def Manifest.toApplication : Manifest → Application
  | .application app => app
  | .package pkg => pkg.toApplication

end ElmSuite
