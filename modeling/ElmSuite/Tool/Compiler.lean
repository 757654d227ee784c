import ElmSuite.Tool.Basic

/-!
The Elm compiler: one set of sources is compiled into one output.
-/

namespace ElmSuite.Compiler

/-- The part of the program that notes are from. -/
def part : String := "elmtest.toolchain.compiler"

/-- The output of a compilation that only checks its sources. -/
def noOutput : Path := .ofString "/dev/null"

/-- The words of a compilation. -/
def command (executable output : String) (sources : List String) : List String :=
  [executable, "make", "--output=" ++ output] ++ sources

/-- Compiles sources from a folder. -/
def compile (reply : Nat → CompilerReply) (executable folder output : String)
    (sources : List String) : Act Unit := do
  let words := command executable output sources
  Act.note part ("Running " ++ Text.shellLine words ++ " in " ++ folder)
  let reply := reply (← get).compilerCalls
  Act.record (.compiler words folder)
  match reply.refusal with
  | some refusal => Act.failToStart executable (refusal.error executable)
  | none =>
      Act.affect reply.elsewhere
      match reply.output with
      | some content =>
          let path := (Path.ofString folder).join (.ofString output)
          Act.onBehalf executable (Act.place path content)
      | none => pure ()
      if reply.code ≠ 0 then Act.fail (.compilation sources reply.code)

end ElmSuite.Compiler
