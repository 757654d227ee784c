import ElmSuite.Suite.Module
import ElmSuite.World

/-!
Finding test files.  A target with pattern characters is expanded and may match nothing; any other
target has to be a file.  Files are known by their canonical paths, each once.
-/

namespace ElmSuite.Discovery

/-- The part of the program that notes are from. -/
def part : String := "elmtest.discovery.files"

/-- The patterns for the test files of a project without targets. -/
def defaultPatterns (root : String) : List String :=
  [root ++ "/tests/*.elm", root ++ "/tests/**/*.elm"]

/-- The canonical path of a match if it is a file.  A match that cannot be made canonical is
dropped. -/
def fileOfMatch (matched : String) : Act (Option Path) := do
  match (← Act.disk).locate (.ofString matched) with
  | .ok path => return if (← Act.disk).isFile path.toString then some path else none
  | .error (.os _) =>
      Act.note part ("Dropping " ++ matched ++ ": cannot canonicalize")
      return none
  | .error fault => throw (.fault fault)

/-- The files that a pattern matches. -/
def filesOfPattern (pattern : String) : Act (List Path) := do
  let matched ← Act.look fun disk => Glob.expand disk pattern
  return (← matched.mapM fileOfMatch).filterMap id

/-- The files that patterns match, each once. -/
def discover (patterns : List String) : Act (List Path) := do
  return (← patterns.mapM filesOfPattern).flatten.eraseDups

/-- The canonical path of a target, which has to be a file. -/
def fileOfTarget (target : String) : Act Path := do
  match (← Act.disk).locate (.ofString target) with
  | .ok path =>
      if (← Act.disk).isFile path.toString then return path
      else Act.fail (.missingTestFile target)
  | .error (.os _) => Act.fail (.missingTestFile target)
  | .error fault => throw (.fault fault)

/-- The canonical paths of targets, each once. -/
def canonicalize (targets : List String) : Act (List Path) := do
  return (← targets.mapM fileOfTarget).eraseDups

/-- The test files that targets denote, of which there has to be at least one.  No targets mean all
test files of the project. -/
def collect (targets : List String) (root : String) : Act (List Path) := do
  let patterns := if targets.isEmpty then defaultPatterns root else targets
  let files ←
    if targets.isEmpty then discover patterns
    else do
      let matched ← discover (targets.filter Glob.isPattern)
      let named ← canonicalize (targets.filter fun target => !Glob.isPattern target)
      pure (matched ++ named).eraseDups
  if files.isEmpty then Act.fail (.noTestFiles patterns)
  return files

/-- The text of a test file. -/
def readTestFile (disk : Disk) (path : Path) : Except Trouble (List Char) :=
  match disk.readText path.toString with
  | .ok text => .ok text
  | .error (.os error) => .error (.failure (.unreadableTestFile path.toString error.message))
  | .error (.undecodable defect) =>
      .error (.failure (.unreadableTestFile path.toString defect.message))
  | .error fault => .error (.fault fault)

/-- Names every test file on disk and lists its values. -/
def findModules (roots files : List Path) : Act (List TestModule) := do
  let disk ← Act.disk
  Act.ofTrouble (findTests roots (readTestFile disk) files)

end ElmSuite.Discovery
