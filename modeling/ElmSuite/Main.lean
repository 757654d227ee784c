import ElmSuite.CommandLine.Command

/-!
The program.  It reads the names of the files of a project from its input, one a line, and answers
its command line for the project that these files make.  No tool is started from here, so a run says
what it would ask of the first tool that it needs and ends there.
-/

namespace ElmSuite.Program

/-- The folder in which the program is installed. -/
def installation : Installation := ⟨.ofString "/usr/lib/elm-suite"⟩

/-- What a run finds around it: no tools. -/
def context : RunContext := ⟨.absent, installation, {}, fun _ _ => []⟩

/-- The lines of the input, without their ends. -/
partial def readLines (input : IO.FS.Stream) : IO (List String) := do
  let line ← input.getLine
  if line.isEmpty then return []
  return line.trimAscii.toString :: (← readLines input)

/-- A disk that holds nothing but a folder, in which it is. -/
def emptyDisk (folder : Path) : Disk :=
  ⟨folder.parts.foldr (fun name node => .folder [(name, node)]) (.folder []), folder.parts⟩

/-- The world with a file of the project on its disk. -/
def readFile (world : World) (name : String) : IO World := do
  let bytes ← IO.FS.readBinFile name
  return ((Act.place (.ofString name) (.file bytes.toList)).run world).2

/-- What the surroundings decide: a seed that is drawn; the number of processors is not known. -/
def surroundings : IO Surroundings := do
  let seed ← IO.rand 0 (seedBound - 1)
  return ⟨⟨seed % seedBound, Nat.mod_lt _ (by decide)⟩, none⟩

/-- The exit status that stands for an exit code. -/
def status (code : Int) : UInt32 :=
  UInt32.ofNat (code % 256).toNat

end ElmSuite.Program

open ElmSuite in
/-- Answers the command line. -/
def main (words : List String) : IO UInt32 := do
  let names ← Program.readLines (← IO.getStdin)
  let start := Program.emptyDisk (.ofString (← IO.currentDir).toString)
  let world ← (names.filter (· ≠ "")).foldlM Program.readFile { disk := start }
  let compiler ← IO.getEnv "ELM_TEST_COMPILER"
  let (answer, _) :=
    CommandLine.answer Program.context (← Program.surroundings) compiler words world
  IO.print answer.stdout
  IO.eprint answer.stderr
  match answer.fault with
  | some fault => IO.eprintln fault.message
  | none => pure ()
  return Program.status answer.exitCode
