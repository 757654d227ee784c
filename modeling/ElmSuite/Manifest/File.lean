import ElmSuite.Manifest.Printer
import ElmSuite.Manifest.Schema
import ElmSuite.World

/-!
Manifest files: where they are, how they are read, and how they are written.
-/

namespace ElmSuite.ManifestFile

/-- The part of the program that notes are from. -/
def part : String := "elmtest.project.loader"

/-- The name of a manifest file. -/
def fileName : String := "elm.json"

/-- The folder and all folders above it, the nearest first. -/
def upwards : Nat → Path → List Path
  | 0, folder => [folder]
  | depth + 1, folder => folder :: upwards depth folder.parent

/-- The first of some folders that holds a manifest. -/
def firstWithManifest (disk : Disk) : List Path → Except Fault (Option Path)
  | [] => .ok none
  | folder :: rest => do
      if ← disk.checkFile (folder.child fileName).toString then return some folder
      firstWithManifest disk rest

/-- The nearest folder at or above a start that holds a manifest.  An empty start is the working
directory. -/
def findRoot (start : String) : Act Path := do
  let current ← Act.locateLeniently (.ofString start)
  match ← Act.look fun disk => firstWithManifest disk (upwards current.parts.length current) with
  | some folder => return folder
  | none => Act.fail (.projectRootNotFound current.toString)

/-- The text of a manifest file. -/
def readText (path : Path) : Act (List Char) :=
  (Act.readText path).orElse fun
    | .os error => some (unreadable error.message)
    | .undecodable defect => some (unreadable defect.message)
    | _ => none
where
  /-- The failure of reading a manifest. -/
  unreadable (reason : String) : Trouble :=
    let words := "Unable to read " ++ path.toString ++ ": " ++ reason
    .failure (.manifest words (some path.toString) [])

/-- The manifest in a file.  A text that is no manifest is reported with the path as it was
given. -/
def load (given : String) : Act Manifest := do
  let text ← readText (.ofString given)
  Act.ofTrouble (Manifest.ofText text (some given))

/-- Writes an application manifest to a file, in a folder that is made if it is missing. -/
def write (app : Application) (path : Path) : Act Path := do
  Act.makeFolders path.parent
  Act.writeText path (← Act.ofFault app.print)
  Act.note part ("Wrote " ++ path.toString)
  return path

end ElmSuite.ManifestFile
