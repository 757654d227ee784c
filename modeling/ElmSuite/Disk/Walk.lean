import ElmSuite.Disk.Basic
import ElmSuite.Fault

/-!
How the operating system finds what a path denotes, and the operations built on it.  A walk follows
links wherever they stand in the path, at most forty of them.
-/

namespace ElmSuite.Disk

/-- What a path denotes: an existing node, or a name that is free in an existing folder. -/
inductive Place
  | taken (location : List String) (node : Node)
  | free (folder : List String) (name : String)

/-- Where a walk gets without following a link: to its end, or to a link with the rest of the
way. -/
inductive Descent
  | arrived (place : Place)
  | atLink (folder : List String) (target : String) (rest : List String)

/-- The greatest number of bytes in a name. -/
def nameLimit : Nat := 255

/-- The number of bytes from which on the text of a path is too long. -/
def pathLimit : Nat := 4096

/-- The greatest number of links that one walk follows. -/
def linkLimit : Nat := 40

/-- The steps that the text of a path asks for; a slash at its end asks for a folder. -/
def steps (path : String) : List String :=
  let named := (Path.pieces path).filter fun piece => !piece.isEmpty
  if path.toList.getLast? = some '/' then named ++ ["."] else named

/-- Whether a path starts at the root. -/
def isAbsolute (path : String) : Bool :=
  path.toList.head? = some '/'

/-- The way from a folder along steps, up to the first link that has to be followed.  A link in last
place is followed only if `follow` says so. -/
def descend (disk : Disk) (follow : Bool) (folder : List String) :
    List String → Except Errno Descent
  | [] =>
      match disk.nodeAt? folder with
      | some node => .ok (.arrived (.taken folder node))
      | none => .error .notFound
  | step :: rest =>
      match disk.nodeAt? folder with
      | none => .error .notFound
      | some (.folder entries) =>
          if step = "." then disk.descend follow folder rest
          else if step = ".." then disk.descend follow folder.dropLast rest
          else if nameLimit < step.utf8ByteSize then .error .nameTooLong
          else
            match entries.lookup step with
            | none => if rest.isEmpty then .ok (.arrived (.free folder step)) else .error .notFound
            | some (.link target) =>
                if rest.isEmpty && !follow then
                  .ok (.arrived (.taken (folder ++ [step]) (.link target)))
                else .ok (.atLink folder target rest)
            | some _ => disk.descend follow (folder ++ [step]) rest
      | some _ => .error .notDirectory

/-- The place at the end of the steps from a folder, following at most `budget` links. -/
def walk (disk : Disk) (follow : Bool) : Nat → List String → List String → Except Errno Place
  | budget, folder, way =>
      match disk.descend follow folder way with
      | .error errno => .error errno
      | .ok (.arrived place) => .ok place
      | .ok (.atLink folder target rest) =>
          match budget with
          | 0 => .error .tooManyLinks
          | budget + 1 =>
              disk.walk follow budget (if isAbsolute target then [] else folder)
                (steps target ++ rest)

/-- The place that the text of a path denotes. -/
def place (disk : Disk) (follow : Bool) (path : String) : Except Fault Place :=
  if path.toList.contains '\x00' then .error .nullByte
  else if path.isEmpty then .error (.refused .notFound path)
  else if pathLimit ≤ path.utf8ByteSize then .error (.refused .nameTooLong path)
  else
    let start := if isAbsolute path then [] else disk.cwd
    match disk.walk follow linkLimit start (steps path) with
    | .ok place => .ok place
    | .error errno => .error (.refused errno path)

/-- The existing node that a path denotes, links followed, with its location. -/
def find (disk : Disk) (path : String) : Except Fault (List String × Node) := do
  match ← disk.place true path with
  | .taken location node => .ok (location, node)
  | .free _ _ => .error (.refused .notFound path)

/-- Whether a path denotes a regular file. -/
def isFile (disk : Disk) (path : String) : Bool :=
  match disk.find path with
  | .ok (_, node) => node.isFile
  | .error _ => false

/-- Whether a path denotes a regular file, where a name that the system cannot take is an error. -/
def checkFile (disk : Disk) (path : String) : Except Fault Bool :=
  match disk.find path with
  | .ok (_, node) => .ok node.isFile
  | .error (.os ⟨.nameTooLong, refused⟩) => .error (.refused .nameTooLong refused)
  | .error _ => .ok false

/-- Whether a path denotes a folder. -/
def isFolder (disk : Disk) (path : String) : Bool :=
  match disk.find path with
  | .ok (_, node) => node.isFolder
  | .error _ => false

/-- Whether there is an entry at a path; a link need not lead anywhere. -/
def hasEntry (disk : Disk) (path : String) : Bool :=
  match disk.place false path with
  | .ok (.taken _ _) => true
  | _ => false

/-- The bytes of a file. -/
def readBytes (disk : Disk) (path : String) : Except Fault (List UInt8) := do
  match (← disk.find path).2 with
  | .file bytes => .ok bytes
  | .folder _ => .error (.refused .isDirectory path)
  | _ => .ok []

/-- The text of a file, as UTF-8 and with its line ends normalised. -/
def readText (disk : Disk) (path : String) : Except Fault (List Char) := do
  match Text.Utf8.decode (← disk.readBytes path) with
  | .ok text => .ok (Text.normalizeNewlines text)
  | .error defect => .error (.undecodable defect)

/-- The disk after a file is written; a link that leads nowhere yet is written through. -/
def writeBytes (disk : Disk) (path : String) (bytes : List UInt8) : Except Fault Disk := do
  match ← disk.place true path with
  | .taken location (.file _) => .ok (disk.put location (.file bytes))
  | .taken _ (.folder _) => .error (.refused .isDirectory path)
  | .taken _ _ => .ok disk
  | .free folder name => .ok (disk.put (folder ++ [name]) (.file bytes))

/-- The disk after a text is written as UTF-8. -/
def writeText (disk : Disk) (path : String) (text : List Char) : Except Fault Disk :=
  disk.writeBytes path (Text.Utf8.encode text)

/-- The disk after a folder is made at a path that is free. -/
def makeFolder (disk : Disk) (path : String) : Except Fault Disk := do
  match ← disk.place false path with
  | .taken _ _ => .error (.refused .alreadyExists path)
  | .free folder name => .ok (disk.put (folder ++ [name]) (.folder []))

/-- The disk after a link is made at a path that is free. -/
def makeLink (disk : Disk) (path target : String) : Except Fault Disk := do
  match ← disk.place false path with
  | .taken _ _ => .error (.refused .alreadyExists path)
  | .free folder name => .ok (disk.put (folder ++ [name]) (.link target))

/-- Makes a folder and, as long as they are missing, the `depth` folders above it.  What is there
already may stay if it is a folder.  Folders made before a failure stay. -/
def makeFoldersUpTo : Nat → Path → Disk → Except Fault Unit × Disk
  | depth, path, disk =>
      let text := path.toString
      match disk.makeFolder text with
      | .ok made => (.ok (), made)
      | .error (.os ⟨.notFound, refused⟩) =>
          match depth with
          | 0 => (.error (.refused .notFound refused), disk)
          | depth + 1 =>
              match makeFoldersUpTo depth path.parent disk with
              | (.error fault, below) => (.error fault, below)
              | (.ok (), below) =>
                  match below.makeFolder text with
                  | .ok made => (.ok (), made)
                  | .error (.os ⟨.notFound, refused⟩) =>
                      (.error (.refused .notFound refused), below)
                  | .error (.os error) =>
                      if below.isFolder text then (.ok (), below) else (.error (.os error), below)
                  | .error fault => (.error fault, below)
      | .error (.os error) =>
          if disk.isFolder text then (.ok (), disk) else (.error (.os error), disk)
      | .error fault => (.error fault, disk)

/-- Makes a folder and every missing folder above it. -/
def makeFolders (path : Path) (disk : Disk) : Except Fault Unit × Disk :=
  makeFoldersUpTo path.parts.length path disk

/-- Removes a file or link, or a folder with everything below it. -/
def remove (disk : Disk) (path : String) : Except Fault Disk := do
  match ← disk.place false path with
  | .taken location _ => .ok (disk.erase location)
  | .free _ _ => .error (.refused .notFound path)

/-- The disk with another working directory. -/
def enter (disk : Disk) (path : String) : Except Fault Disk := do
  match ← disk.find path with
  | (location, .folder _) => .ok { disk with cwd := location }
  | _ => .error (.refused .notDirectory path)

end ElmSuite.Disk
