import ElmSuite.Tool.Basic

/-!
Node, which runs the generated supervisor.  It is told the path of the worker in one line of input.
-/

namespace ElmSuite.NodeProcess

/-- The part of the program that notes are from. -/
def part : String := "elmtest.toolchain.supervisor"

/-- The name of the tool. -/
def defaultExecutable : String := "node"

/-- The supervisor, seen from the root of the generated project. -/
def supervisorScript : String := "js/node_supervisor.js"

/-- The exit code of the supervisor; one if it has none, or was ended by a signal. -/
def exitCode : Option Int → Int
  | some code => if code < 0 then 1 else code
  | none => 1

/-- A code as notes show it. -/
def codeText : Option Int → String
  | some code => toString code
  | none => "None"

/-- Runs the supervisor in the generated project and gives its exit code. -/
def supervise (reply : NodeReply) (executable folder worker : String) : Act Int := do
  let words := [executable, supervisorScript]
  Act.note part ("Starting " ++ " ".intercalate words ++ " in " ++ folder)
  match reply.refusal with
  | some refusal =>
      Act.record (.node words folder none)
      Act.failToStart executable (refusal.error executable)
  | none =>
      Act.record (.node words folder (some (worker ++ "\n")))
      Act.affect reply.elsewhere
      Act.note part ("Supervisor exited with " ++ codeText reply.code)
      return exitCode reply.code

end ElmSuite.NodeProcess
