import ElmSuite.Asset
import ElmSuite.Script.Patch
import ElmSuite.Suite.RunnerSource
import ElmSuite.Tool.Reporter
import ElmSuite.World

/-!
Writing the files of the generated project: each is a template with its holes filled, or a compiled
script with the patch for the identity tag.
-/

namespace ElmSuite.Generation

/-- The part of the program that notes about templates are from. -/
def templatePart : String := "elmtest.generator.templates"

/-- The part of the program that notes about patches are from. -/
def patchPart : String := "elmtest.generator.patcher"

/-- Writes a text that a template makes, in a folder that is made if it is missing.  Nothing is
written if the template does not fit the values. -/
def writeRendered (template : List Char) (name : String) (values : OrderedMap String (List Char))
    (output : Path) : Act Path := do
  let content ← Act.ofFailure (Template.render template values (some name))
  Act.makeFolders output.parent
  Act.writeText output content
  Act.note templatePart ("Generated " ++ output.toString ++ " from " ++ name)
  return output

/-- Writes a text from a template file. -/
def fromFile (template output : Path) (values : OrderedMap String (List Char)) : Act Path := do
  writeRendered (← Act.readText template) template.name values output

/-- Writes a text from a template that is installed. -/
def fromAsset (asset : Asset) (output : Path) (values : OrderedMap String (List Char)) : Act Path :=
  writeRendered asset.text asset.fileName values output

/-- Writes the module that gathers all tests. -/
def runner (modules : List TestModule) (output : Path) : Act Path :=
  fromAsset .runner output (RunnerSource.values modules)

/-- A number as it is written in a script. -/
def number (n : Int) : List Char :=
  (toString n).toList

/-- Writes the worker that runs single tests. -/
def nodeRunner (seed fuzz : Int) (output : Path) : Act Path :=
  fromAsset .nodeRunner output
    (.ofList
      [ ("polyfills", Asset.polyfills.text)
      , ("initialSeed", number seed)
      , ("fuzzRuns", number fuzz) ])

/-- Writes the process that hands tests to workers. -/
def nodeSupervisor (workers seed fuzz : Int) (reporter : Reporter) (output : Path) : Act Path :=
  fromAsset .nodeSupervisor output
    (.ofList
      [ ("polyfills", Asset.polyfills.text)
      , ("nb_workers", number workers)
      , ("initialSeed", number seed)
      , ("fuzzRuns", number fuzz)
      , ("reporter", reporter.name.toList) ])

/-- Patches a compiled script in place.  Nothing is written if the patch does not fit. -/
def patchFile (tag : Script.IdentityTag) (path : Path) : Act Path := do
  let code ← Act.readText path
  let tagged ← Act.ofFailure (Script.tagConstructors tag code)
  let count := Script.constructorCount tag code
  Act.note patchPart ("Tagged " ++ toString count ++ " test variant definitions")
  let checked ← Act.ofFailure (Script.replaceCheck tag tagged)
  Act.writeText path (Script.allocateSymbol tag checked)
  return path

end ElmSuite.Generation
