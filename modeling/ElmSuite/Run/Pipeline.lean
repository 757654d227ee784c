import ElmSuite.Layout
import ElmSuite.Manifest.Synthesis
import ElmSuite.Run.Outcome
import ElmSuite.Suite.Discovery
import ElmSuite.Suite.Generation
import ElmSuite.Tool.Compiler
import ElmSuite.Tool.Node
import ElmSuite.Tool.Solver

/-!
A run of the tests of a project.  The stages follow each other, each works with what the ones before
it found, and the first failure ends the run.  What the operating system refuses counts as a failure
of the generated project; any other fault leaves the run without a result.
-/

namespace ElmSuite

/-- What is asked of a run. -/
structure RunOptions where
  compiler : String := "elm"
  seed : Int := 0
  fuzz : Int := 100
  workers : Int := 1
  report : String := "console"
  files : List String := []
deriving DecidableEq, Repr

/-- What a run finds in its surroundings: the tools, the installed files, the tag that compiled
tests get, and the lines that tell where in a stage a failure comes from, as far as that is
known. -/
structure RunContext where
  tools : Tools
  installation : Installation
  tag : Script.IdentityTag := {}
  trace : Stage → Failure → List String := fun _ _ => []

/-- How a run is left before its last stage: after a failed stage, or by a fault. -/
inductive Interruption
  | failed
  | fault (cause : Fault)
deriving DecidableEq, Repr

/-- The state of a run: the world, and the outcomes of the stages so far. -/
structure RunState where
  world : World
  outcomes : List Outcome := []

/-- A part of a run. -/
abbrev Running (α : Type) := ExceptT Interruption (StateM RunState) α

namespace Running

/-- The state with one more outcome. -/
def after (state : RunState) (world : World) (outcome : Outcome) : RunState :=
  ⟨world, state.outcomes ++ [outcome]⟩

/-- The failure that a refusal of the operating system is for a stage. -/
def refused (stage : Stage) (error : OsError) : Failure :=
  .generatedProject (stage.name ++ ": " ++ error.message)

/-- The part of the program that notes are from. -/
def part : String := "elmtest.pipeline.runner"

/-- The note about a failed stage. -/
def failureNote (context : RunContext) (stage : Stage) (cause : Failure) : Line :=
  .note part ("\n".intercalate (("Stage " ++ stage.name ++ " failed") :: context.trace stage cause))

/-- Runs a stage and notes its outcome. -/
def stage {α : Type} (context : RunContext) (stage : Stage) (detail : α → Option String)
    (act : Act α) : Running α :=
  fun state =>
    match act state.world with
    | (.ok value, world) => (.ok value, after state world (.passed stage (detail value)))
    | (.error (.failure cause), world) =>
        let noted := { world with lines := world.lines ++ [failureNote context stage cause] }
        (.error .failed, after state noted (.failed stage cause))
    | (.error (.fault (.os error)), world) =>
        (.error .failed, after state world (.failed stage (refused stage error)))
    | (.error (.fault fault), world) => (.error (.fault fault), { state with world })

end Running

namespace Pipeline

/-- A number of things as details show it. -/
def counted (count : Nat) (things : String) : String :=
  toString count ++ " " ++ things

/-- Makes the folders of the generated project. -/
def makeFolders (layout : Layout) : Act Unit := do
  Act.makeFolders layout.sources
  Act.makeFolders layout.scripts

/-- Derives the generated project's manifest from the host's and writes it. -/
def synthesize (context : RunContext) (layout : Layout) : Act Synthesis := do
  let text ← ManifestFile.readText (layout.projectRoot.child ManifestFile.fileName)
  let synthesis ←
    Synthesis.ofText text layout.projectRoot layout.root context.installation.helperSources
  makeFolders layout
  let _ ← ManifestFile.write synthesis.app layout.manifest
  return synthesis

/-- Has the dependencies of the generated project solved and writes them to its manifest. -/
def solve (context : RunContext) (layout : Layout) (app : Application) : Act Dependencies := do
  Act.report "Running elm-json to solve dependency issues ..."
  let found ← Solver.solve context.tools.solver Solver.defaultExecutable Solver.extraPackages
    layout.manifest.toString
  let _ ← ManifestFile.write { app with dependencies := found } layout.manifest
  return found

/-- Compiles sources from the root of the generated project. -/
def compile (context : RunContext) (options : RunOptions) (layout : Layout) (output : Path)
    (sources : List String) : Act Unit :=
  Compiler.compile context.tools.compiler options.compiler layout.root.toString output.toString
    sources

/-- Checks that all test files compile. -/
def compileTests (context : RunContext) (options : RunOptions) (layout : Layout)
    (files : List Path) : Act Unit := do
  Act.report "Compiling all test files ..."
  compile context options layout Compiler.noOutput ((sortPaths files).map Path.toString)

/-- Finds the modules of the tests and the values that may be tests. -/
def findTests (synthesis : Synthesis) (files : List Path) : Act (List TestModule) := do
  Act.report "Finding all modules and tests ..."
  Discovery.findModules synthesis.directories files

/-- Compiles the module that gathers all tests and patches the result. -/
def compileRunner (context : RunContext) (options : RunOptions) (layout : Layout) : Act Path := do
  Act.report "Compiling the generated templated src/Runner.elm ..."
  compile context options layout layout.runnerScript ["src/Runner.elm"]
  Generation.patchFile context.tag layout.runnerScript

/-- Compiles the module that writes reports. -/
def compileReporter (context : RunContext) (options : RunOptions) (layout : Layout) : Act Path := do
  Act.report "Compiling Reporter.elm.js ..."
  compile context options layout layout.reporterScript
    [(context.installation.assetPath .reporter).toString]
  return layout.reporterScript

/-- Runs the tests under the supervisor and gives its exit code. -/
def supervise (context : RunContext) (layout : Layout) : Act Int := do
  Act.report "Starting the supervisor ..."
  Act.report "Running tests ..."
  let code ← NodeProcess.supervise context.tools.node NodeProcess.defaultExecutable
    layout.root.toString layout.nodeRunner.toString
  Act.report ("Exited with code " ++ toString code)
  return code

/-- A path as the detail of an outcome. -/
def pathDetail (path : Path) : Option String :=
  some path.toString

/-- All stages of a run, one after the other. -/
def stages (context : RunContext) (options : RunOptions) (layout : Layout) : Running Int := do
  let reporter ← Running.stage context .validateOptions (fun reporter => some reporter.name)
    (Act.ofFailure (Reporter.ofName options.report))
  let files ← Running.stage context .discover (fun files => some (counted files.length "file(s)"))
    (Discovery.collect options.files layout.projectRoot.toString)
  let synthesis ← Running.stage context .synthesize (fun _ => pathDetail layout.manifest)
    (synthesize context layout)
  let _ ← Running.stage context .solve
    (fun found => some (counted found.names.length "package(s)"))
    (solve context layout synthesis.app)
  Running.stage context .compileTests (fun _ => none) (compileTests context options layout files)
  let modules ← Running.stage context .findTests
    (fun modules => some (counted (testCount modules) "candidate test(s)"))
    (findTests synthesis files)
  let _ ← Running.stage context .generateRunner pathDetail
    (Generation.runner modules layout.runnerSource)
  let _ ← Running.stage context .compileRunner pathDetail (compileRunner context options layout)
  let _ ← Running.stage context .generateNodeRunner pathDetail
    (Generation.nodeRunner options.seed options.fuzz layout.nodeRunner)
  let _ ← Running.stage context .compileReporter pathDetail (compileReporter context options layout)
  let _ ← Running.stage context .generateSupervisor pathDetail
    (Generation.nodeSupervisor options.workers options.seed options.fuzz reporter
      layout.nodeSupervisor)
  Running.stage context .supervise (fun code => some ("exit code " ++ toString code))
    (supervise context layout)

/-- The result of a run and the world after it, if no fault leaves it. -/
def conclude : Except Interruption Int × RunState → Except Trouble RunResult × World
  | (.ok code, state) => (.ok ⟨state.outcomes, some code⟩, state.world)
  | (.error .failed, state) => (.ok ⟨state.outcomes, none⟩, state.world)
  | (.error (.fault cause), state) => (.error (.fault cause), state.world)

/-- Runs the tests of the project at a canonical root. -/
def runAt (context : RunContext) (options : RunOptions) (root : Path) : Act RunResult :=
  fun world => conclude ((stages context options ⟨root, defaultElmVersion⟩).run ⟨world, []⟩)

/-- Runs the tests of a project. -/
def run (context : RunContext) (options : RunOptions) (root : Path) : Act RunResult := do
  runAt context options (← Act.locateLeniently root)

end Pipeline

end ElmSuite
