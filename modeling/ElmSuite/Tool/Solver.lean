import ElmSuite.Manifest.Schema
import ElmSuite.Tool.Basic

/-!
The dependency solver: it is asked about a manifest and prints the dependencies that fit it.
-/

namespace ElmSuite.Solver

/-- The part of the program that notes are from. -/
def part : String := "elmtest.toolchain.solver"

/-- The name of the tool. -/
def defaultExecutable : String := "elm-json"

/-- The packages that generated modules import. -/
def extraPackages : List String :=
  [ "elm/core", "elm/json", "elm/time", "elm/random", "billstclair/elm-xml-eeue56"
  , "jorgengranseth/elm-string-format" ]

/-- The words of a question about a manifest. -/
def command (executable : String) (extra : List String) (manifest : String) : List String :=
  [executable, "solve", "--test", "--extra"] ++ extra ++ ["--", manifest]

/-- The text of the manifest that the solver finds at a path from the root. -/
def manifestText? (disk : Disk) (manifest : String) : Option (List Char) :=
  if Disk.isAbsolute manifest then
    match disk.readText manifest with
    | .ok text => some text
    | .error _ => none
  else none

/-- The dependencies that the solver's answer tells. -/
def readAnswer (reply : SolverReply) : Except Failure Dependencies :=
  match Text.Utf8.decode reply.printed with
  | .error _ => .error (.malformedDependencies reply.code [])
  | .ok text =>
      (Dependencies.ofText text).mapError fun failure =>
        .malformedDependencies reply.code failure.issues

/-- Asks for the dependencies that fit a manifest.  The exit code of the solver only shows in the
failure of an answer that tells none. -/
def solve (reply : SolverReply) (executable : String) (extra : List String) (manifest : String) :
    Act Dependencies := do
  let words := command executable extra manifest
  Act.note part ("Running " ++ Text.shellLine words)
  Act.record (.solver words (manifestText? (← Act.disk) manifest))
  match reply.refusal with
  | some refusal => Act.failToStart executable (refusal.error executable)
  | none =>
      Act.affect reply.elsewhere
      Act.ofFailure (readAnswer reply)

end ElmSuite.Solver
