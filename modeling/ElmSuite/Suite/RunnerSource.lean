import ElmSuite.Suite.Module
import ElmSuite.Template

/-!
The source of the module that gathers all tests: it imports every test module and lists, module by
module, the values that may be tests, each passed through `check`.
-/

namespace ElmSuite.RunnerSource

/-- The import of every module, one a line. -/
def imports (modules : List TestModule) : String :=
  "\n".intercalate (modules.map fun m => "import " ++ m.name)

/-- The record that lists the checked values of a module. -/
def group (m : TestModule) : String :=
  let checks :=
    "\n            , ".intercalate (m.tests.map fun test => "check " ++ m.qualified test)
  "\x7b module_ = \"" ++ m.name ++ "\"\n      , maybeTests =\n            [ " ++ checks ++
    "\n            ]\n      \x7d"

/-- The values of the holes of the template. -/
def values (modules : List TestModule) : OrderedMap String (List Char) :=
  .ofList
    [ ("user_imports", (imports modules).toList)
    , ("tests", ("\n    , ".intercalate (modules.map group)).toList) ]

/-- The source for a list of modules. -/
def render (template : List Char) (modules : List TestModule) : Except Failure (List Char) :=
  Template.render template (values modules) "Runner.elm"

end ElmSuite.RunnerSource
