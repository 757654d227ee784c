import ElmSuite.Elm.Exposing
import ElmSuite.Elm.ModuleName

/-!
Test modules: the files of a suite with their names and the values that may be tests.
-/

namespace ElmSuite

/-- A test module and the exposed values that may be tests. -/
structure TestModule where
  path : Path
  name : String
  tests : List String
deriving DecidableEq, Repr

namespace TestModule

/-- A value of the module as other modules refer to it. -/
def qualified (m : TestModule) (test : String) : String :=
  m.name ++ "." ++ test

end TestModule

/-- The number of values in all modules. -/
def testCount : List TestModule → Nat
  | [] => 0
  | m :: rest => m.tests.length + testCount rest

/-- Paths in their order, part by part. -/
def sortPaths (paths : List Path) : List Path :=
  paths.mergeSort Path.le

/-- Names every test file and lists its values, in the order of the paths.  The name of a file is
derived before the file is read. -/
def findTests (roots : List Path) (read : Path → Except Trouble (List Char)) (files : List Path) :
    Except Trouble (List TestModule) :=
  (sortPaths files).mapM fun file => do
    let name ← (Elm.moduleNameOf roots file).mapError Trouble.failure
    return ⟨file, name, Elm.exposedValues (← read file)⟩

end ElmSuite
