import ElmSuite.Disk.Glob
import ElmSuite.Disk.Canonical
import ElmSuite.Failure

/-!
What a run works on: the disk, the lines it has said so far, and the tools it has asked for.  An
action changes the world and gives a result or a trouble; what it did before a trouble stays done.
-/

namespace ElmSuite

/-- A line that a run says: progress for everybody, or a note of one of its parts for those who want
to know more. -/
inductive Line
  | progress (text : String)
  | note (part text : String)
deriving DecidableEq, Repr

/-- A request to start a tool: its words, the folder it is to start in, and what it is given.  The
solver is given the text of a manifest, as far as there is one, and node a line of input; a tool
that does not start takes no input. -/
inductive ToolCall
  | compiler (words : List String) (folder : String)
  | solver (words : List String) (manifest : Option (List Char))
  | node (words : List String) (folder : String) (input : Option String)
deriving DecidableEq, Repr

/-- The world of a run. -/
structure World where
  disk : Disk
  lines : List Line := []
  calls : List ToolCall := []

/-- An action in the world. -/
abbrev Act (α : Type) := ExceptT Trouble (StateM World) α

namespace Act

/-- Runs an action: its result, and the world after it. -/
def run {α : Type} (act : Act α) (world : World) : Except Trouble α × World :=
  act world

/-- Ends with a failure. -/
def fail {α : Type} (cause : Failure) : Act α :=
  throw (.failure cause)

/-- Takes the result of a computation that may end with a trouble. -/
def ofTrouble {α : Type} (result : Except Trouble α) : Act α :=
  fun world => (result, world)

/-- Takes the result of a computation that may fail. -/
def ofFailure {α : Type} (result : Except Failure α) : Act α :=
  ofTrouble (result.mapError .failure)

/-- Takes the result of a computation that may end with a fault. -/
def ofFault {α : Type} (result : Except Fault α) : Act α :=
  ofTrouble (result.mapError .fault)

/-- Says a line. -/
def say (line : Line) : Act Unit :=
  modify fun world => { world with lines := world.lines ++ [line] }

/-- Says a line of progress. -/
def report (text : String) : Act Unit :=
  say (.progress text)

/-- Says a note of a part. -/
def note (part text : String) : Act Unit :=
  say (.note part text)

/-- Records a request for a tool. -/
def record (call : ToolCall) : Act Unit :=
  modify fun world => { world with calls := world.calls ++ [call] }

/-- The disk as it is. -/
def disk : Act Disk :=
  return (← get).disk

/-- Looks at the disk. -/
def look {α : Type} (question : Disk → Except Fault α) : Act α := do
  ofFault (question (← disk))

/-- Changes the disk. -/
def change (operation : Disk → Except Fault Disk) : Act Unit := do
  let after ← look operation
  modify fun world => { world with disk := after }

/-- Makes a folder and every missing folder above it. -/
def makeFolders (path : Path) : Act Unit := do
  let (result, after) := Disk.makeFolders path (← disk)
  modify fun world => { world with disk := after }
  ofFault result

/-- Writes a text to a file. -/
def writeText (path : Path) (text : List Char) : Act Unit :=
  change fun disk => disk.writeText path.toString text

/-- The text of a file. -/
def readText (path : Path) : Act (List Char) :=
  look fun disk => disk.readText path.toString

/-- The canonical path of a path all of which exists. -/
def locate (path : Path) : Act Path :=
  look fun disk => disk.locate path

/-- The canonical path of a path as far as it exists. -/
def locateLeniently (path : Path) : Act Path :=
  look fun disk => disk.locateLeniently path

/-- Runs an action, with another trouble in place of a fault that is known. -/
def orElse {α : Type} (act : Act α) (known : Fault → Option Trouble) : Act α :=
  tryCatch act fun trouble =>
    match trouble with
    | .fault fault => throw ((known fault).getD (.fault fault))
    | .failure cause => throw (.failure cause)

end Act

end ElmSuite
