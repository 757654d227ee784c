import ElmSuite.Asset
import ElmSuite.Manifest.Basic
import ElmSuite.Path

/-!
Where things are: the generated project inside the host project, and the folder in which the test
runner is installed.
-/

namespace ElmSuite

/-- The place of the generated project: the root of the host project, and the version of Elm. -/
structure Layout where
  projectRoot : Path
  version : String := defaultElmVersion
deriving DecidableEq, Repr

namespace Layout

/-- The root of the generated project. -/
def root (l : Layout) : Path :=
  (l.projectRoot.child "elm-stuff").join (.ofString ("tests-" ++ l.version))

/-- The manifest of the generated project. -/
def manifest (l : Layout) : Path :=
  l.root.child "elm.json"

/-- The folder of generated Elm sources. -/
def sources (l : Layout) : Path :=
  l.root.child "src"

/-- The folder of generated and compiled JavaScript. -/
def scripts (l : Layout) : Path :=
  l.root.child "js"

/-- The module that gathers all tests. -/
def runnerSource (l : Layout) : Path :=
  l.sources.child "Runner.elm"

/-- The compiled module that gathers all tests. -/
def runnerScript (l : Layout) : Path :=
  l.scripts.child "Runner.elm.js"

/-- The worker that runs single tests. -/
def nodeRunner (l : Layout) : Path :=
  l.scripts.child "node_runner.js"

/-- The compiled module that writes reports. -/
def reporterScript (l : Layout) : Path :=
  l.scripts.child "Reporter.elm.js"

/-- The process that hands tests to workers. -/
def nodeSupervisor (l : Layout) : Path :=
  l.scripts.child "node_supervisor.js"

end Layout

/-- The folder in which the test runner is installed. -/
structure Installation where
  home : Path
deriving DecidableEq, Repr

namespace Installation

/-- The path of an asset. -/
def assetPath (i : Installation) (asset : Asset) : Path :=
  (i.home.child "templates").child asset.fileName

/-- The source directory of the helpers that generated modules import. -/
def helperSources (i : Installation) : Path :=
  (i.home.child "elm").child "src"

end Installation

end ElmSuite
