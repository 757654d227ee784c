import ElmSuite.CommandLine.Arguments
import ElmSuite.Run.Pipeline
import ElmSuite.Settings.File
import ElmSuite.Text.Terminal

/-!
What a command line asks for, and what the program answers: its exit code and what it prints.
-/

namespace ElmSuite.CommandLine

/-- A run as the command line asks for it. -/
structure Request where
  files : List String
  compiler : Option String
  seed : Option Int
  fuzz : Option Int
  workers : Option Int
  report : Option String
  config : Option String
  verbose : Bool
deriving DecidableEq, Repr

/-- What a command line asks for. -/
inductive Command
  | showVersion
  | showHelp
  | run (request : Request)
deriving DecidableEq, Repr

/-- Why a command line asks for nothing: it is misused, or looking at the disk led to a fault. -/
inductive Rejection
  | misuse (cause : Misuse)
  | fault (cause : Fault)
deriving DecidableEq, Repr

/-- Checks the value of an option: whole numbers have to be some, and the settings file no
folder. -/
def checkValue (disk : Disk) (arguments : Arguments) (flag : Flag) : Except Rejection Unit :=
  match arguments.value? flag with
  | none => .ok ()
  | some value =>
      if flag.isNumber then
        if (Whole.ofText? value.toList).isSome then .ok ()
        else .error (.misuse (.notWhole flag value))
      else if flag = .config then
        match disk.find value with
        | .ok (_, .folder _) => .error (.misuse (.isFolder flag value))
        | .error .nullByte => .error (.fault .nullByte)
        | _ => .ok ()
      else .ok ()

/-- The value of an option as a whole number. -/
def whole? (arguments : Arguments) (flag : Flag) : Option Int :=
  (arguments.value? flag).bind fun value => Whole.ofText? value.toList

/-- The compiler that the command line names, or else the environment unless it is empty there. -/
def compilerOf (arguments : Arguments) (environment : Option String) : Option String :=
  match arguments.value? .compiler with
  | some compiler => some compiler
  | none => environment.filter fun compiler => !compiler.isEmpty

/-- What the words of a command line ask for.  Options that act at once do so in their order; then
the values are checked, also in their order. -/
def Command.ofWords (disk : Disk) (environment : Option String) (words : List String) :
    Except Rejection Command := do
  let arguments ← (Arguments.ofWords words).mapError Rejection.misuse
  match arguments.flags.find? Flag.actsAtOnce with
  | some .version => return .showVersion
  | some _ => return .showHelp
  | none =>
      for flag in arguments.flags do
        checkValue disk arguments flag
      return .run {
        files := arguments.files
        compiler := compilerOf arguments environment
        seed := whole? arguments .seed
        fuzz := whole? arguments .fuzz
        workers := whole? arguments .workers
        report := arguments.value? .report
        config := arguments.value? .config
        verbose := arguments.has .verbose }

/-- What the program leaves when it ends: its exit code, what it printed, and the fault that ended
it if it was one. -/
structure Answer where
  exitCode : Int
  stdout : String := ""
  stderr : String := ""
  fault : Option Fault := none
deriving DecidableEq, Repr

/-- The values that a request gives for settings. -/
def Request.values (request : Request) : List (String × Given) :=
  [ ("compiler", request.compiler.map textOf)
  , ("seed", request.seed.map Given.whole)
  , ("fuzz", request.fuzz.map Given.whole)
  , ("workers", request.workers.map Given.whole)
  , ("report", request.report.map textOf) ].filterMap fun (name, value) =>
    value.map fun given => (name, given)
where
  /-- A word as a given value. -/
  textOf (word : String) : Given :=
    .text (.ofString word)

/-- The settings of a request: those of its file, with its own values in their place. -/
def Request.settings (request : Request) (surroundings : Surroundings) (disk : Disk) :
    Except Trouble Settings := do
  let settings ← Settings.load surroundings disk request.config
  (settings.merge request.values).mapError Trouble.failure

/-- The options of a run with certain settings. -/
def Request.options (request : Request) (settings : Settings) : RunOptions where
  compiler := settings.compiler.lossy
  seed := settings.seed
  fuzz := settings.fuzz
  workers := settings.workers
  report := settings.report.lossy
  files := request.files

/-- The text about a failure, with the issues of the document that it is about. -/
def failureText (cause : Failure) : String :=
  Text.printed ("Error: " ++ cause.message ++ "\n" ++
    String.join (cause.issues.map fun issue =>
      "  - " ++ issue.place ++ ": " ++ issue.words ++ "\n"))

/-- A line as it is printed.  Notes are only printed if they are asked for, and then as they are. -/
def lineText (verbose : Bool) : Line → String
  | .progress text => Text.printed text ++ "\n"
  | .note part text => if verbose then "DEBUG " ++ part ++ ": " ++ text ++ "\n" else ""

/-- The lines that a world has said, as they are printed. -/
def linesText (verbose : Bool) (world : World) : String :=
  String.join (world.lines.map (lineText verbose))

/-- Carries out a request: settings, project root, run. -/
def Request.carryOut (request : Request) (context : RunContext) (surroundings : Surroundings) :
    Act RunResult := do
  let settings ← Act.ofTrouble (request.settings surroundings (← Act.disk))
  let root ← ManifestFile.findRoot ""
  Pipeline.run context (request.options settings) root

/-- The answer to a request, after the lines that its world has said. -/
def Request.answer (request : Request) : Except Trouble RunResult × World → Answer
  | (.ok result, world) =>
      let failed := (result.failure?.bind Outcome.error).map failureText
      { exitCode := result.exitCode
        stderr := linesText request.verbose world ++ failed.getD "" }
  | (.error (.failure cause), world) =>
      { exitCode := cause.exitCode
        stderr := linesText request.verbose world ++ failureText cause }
  | (.error (.fault cause), world) =>
      { exitCode := 1, stderr := linesText request.verbose world, fault := some cause }

/-- Answers a command line. -/
def answer (context : RunContext) (surroundings : Surroundings) (environment : Option String)
    (words : List String) (world : World) : Answer × World :=
  match Command.ofWords world.disk environment words with
  | .error (.misuse cause) => ({ exitCode := 2, stderr := Text.printed cause.text }, world)
  | .error (.fault cause) => ({ exitCode := 1, fault := some cause }, world)
  | .ok .showVersion => ({ exitCode := 0, stdout := versionText }, world)
  | .ok .showHelp => ({ exitCode := 0, stdout := helpText }, world)
  | .ok (.run request) =>
      let finished := (request.carryOut context surroundings).run world
      (request.answer finished, finished.2)

end ElmSuite.CommandLine
