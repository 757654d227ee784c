import ElmSuite.Failure

/-!
The stages of a run, what becomes of each, and what becomes of the run.
-/

namespace ElmSuite

/-- A stage of a run. -/
inductive Stage
  | validateOptions
  | discover
  | synthesize
  | solve
  | compileTests
  | findTests
  | generateRunner
  | compileRunner
  | generateNodeRunner
  | compileReporter
  | generateSupervisor
  | supervise
deriving DecidableEq, Repr

namespace Stage

/-- The name of a stage. -/
def name : Stage → String
  | .validateOptions => "validate_options"
  | .discover => "discover"
  | .synthesize => "synthesize"
  | .solve => "solve"
  | .compileTests => "compile_tests"
  | .findTests => "find_tests"
  | .generateRunner => "generate_runner"
  | .compileRunner => "compile_runner"
  | .generateNodeRunner => "generate_node_runner"
  | .compileReporter => "compile_reporter"
  | .generateSupervisor => "generate_supervisor"
  | .supervise => "supervise"

/-- All stages, in the order in which they run. -/
def all : List Stage :=
  [ .validateOptions, .discover, .synthesize, .solve, .compileTests, .findTests, .generateRunner
  , .compileRunner, .generateNodeRunner, .compileReporter, .generateSupervisor, .supervise ]

/-- The stage with a name. -/
def ofName? (text : String) : Option Stage :=
  all.find? fun stage => stage.name == text

theorem mem_all (stage : Stage) : stage ∈ all := by
  cases stage <;> decide

theorem all_nodup : all.Nodup := by
  decide

end Stage

/-- What became of a stage: whether it went well, why not, and a detail of what it did. -/
structure Outcome where
  stage : Stage
  ok : Bool
  error : Option Failure := none
  detail : Option String := none
deriving DecidableEq, Repr

namespace Outcome

/-- A stage that went well. -/
def passed (stage : Stage) (detail : Option String) : Outcome :=
  ⟨stage, true, none, detail⟩

/-- A stage that failed. -/
def failed (stage : Stage) (cause : Failure) : Outcome :=
  ⟨stage, false, some cause, none⟩

/-- The text of an outcome; an empty detail is not shown. -/
def text (outcome : Outcome) : String :=
  if outcome.ok then
    let detail := outcome.detail.getD ""
    outcome.stage.name ++ ": ok" ++ (if detail.isEmpty then "" else " (" ++ detail ++ ")")
  else
    outcome.stage.name ++ ": failed - " ++ (outcome.error.map Failure.message).getD "None"

end Outcome

/-- What became of a run: the outcomes of its stages, and the exit code of the supervisor if it
ran. -/
structure RunResult where
  outcomes : List Outcome := []
  supervisorCode : Option Int := none
deriving DecidableEq, Repr

namespace RunResult

/-- The first stage that failed. -/
def failure? (result : RunResult) : Option Outcome :=
  result.outcomes.find? fun outcome => !outcome.ok

/-- Whether no stage failed. -/
def succeeded (result : RunResult) : Bool :=
  result.failure?.isNone

/-- The stages that went well. -/
def completed (result : RunResult) : List Stage :=
  (result.outcomes.filter Outcome.ok).map Outcome.stage

/-- The exit code of a run: that of its failure, else that of the supervisor. -/
def exitCode (result : RunResult) : Int :=
  match result.failure? with
  | some outcome => (outcome.error.map Failure.exitCode).getD 1
  | none => result.supervisorCode.getD 0

end RunResult

end ElmSuite
