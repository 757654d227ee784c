import ElmSuite.Manifest.File

/-!
The manifest of the generated test project: the one of the host project, with its source directories
seen from the generated project and its test dependencies among the normal ones.
-/

namespace ElmSuite

/-- The manifest of the generated project, and the canonical directories that test modules are named
by. -/
structure Synthesis where
  app : Application
  directories : List Path

namespace Synthesis

/-- The directory of the tests, which is a source directory without being listed. -/
def testsDirectory : Codes := .ofString "tests"

/-- The source directory of the generated project itself. -/
def generatedDirectory : Codes := .ofString "src"

/-- A source directory as a path; half of a surrogate pair belongs to no path. -/
def pathOf (root : Path) (directory : Codes) : Except Fault Path :=
  match directory.string?, (Codes.ofString (root.toString ++ "/") ++ directory).surrogates? with
  | none, some defect => .error (.unencodable defect)
  | _, _ => .ok (root.join (.ofString directory.lossy))

/-- The canonical path of a source directory, which has to exist. -/
def sourceDirectory (root : Path) (directory : Codes) : Act Path := do
  let missing : Trouble := .failure (.sourceDirectory directory.lossy root.toString)
  let path ← (Act.locate (← Act.ofFault (pathOf root directory))).orElse fun
    | .os _ => some missing
    | _ => none
  if (← Act.disk).isFolder path.toString then return path else throw missing

/-- The canonical paths of source directories and of the tests, each once. -/
def sourceDirectories (directories : List Codes) (root : Path) : Act (List Path) := do
  return (← (directories ++ [testsDirectory]).mapM (sourceDirectory root)).eraseDups

/-- Directories as they are written seen from a folder, both taken from the working directory if
they are relative. -/
def relativeTo (disk : Disk) (folder : Path) (directories : List Path) : List String :=
  directories.map fun directory =>
    Path.way (folder.namesFrom disk.cwd) (directory.namesFrom disk.cwd)

/-- The synthesis for the text of a host manifest.  `helper` is the source directory of the test
library's helpers. -/
def ofText (text : List Char) (root generated : Path) (helper : Path) : Act Synthesis := do
  let root ← Act.locateLeniently root
  let generated ← Act.locateLeniently (root.join generated)
  let path := (root.child ManifestFile.fileName).toString
  let app := (← Act.ofTrouble (Manifest.ofText text (some path))).toApplication
  let directories ← sourceDirectories app.sourceDirectories root
  let relative := relativeTo (← Act.disk) generated directories
  let sources := relative.map Codes.ofString ++ [generatedDirectory, .ofString helper.toString]
  return ⟨{ app with sourceDirectories := sources }.promote, directories⟩

end Synthesis

end ElmSuite
