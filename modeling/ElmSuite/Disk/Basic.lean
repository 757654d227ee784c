import ElmSuite.Path

/-!
The state of the file system as a value: a tree of files, folders and symbolic links, and the
working directory.  A location is a list of names from the root.
-/

namespace ElmSuite

/-- An entry of the file system. -/
inductive Node
  | file (bytes : List UInt8)
  | folder (entries : List (String × Node))
  | link (target : String)
  /-- A device that swallows what is written to it. -/
  | sink

namespace Node

/-- The value that `name` has in a list of entries with the given update, in place or at the end. -/
def putEntry (name : String) (new : Node) : List (String × Node) → List (String × Node)
  | [] => [(name, new)]
  | (key, old) :: rest =>
      if key = name then (key, new) :: rest else (key, old) :: putEntry name new rest

/-- The entries of a folder. -/
def entries : Node → List (String × Node)
  | .folder entries => entries
  | _ => []

/-- The entry of a folder with a name. -/
def child? (node : Node) (name : String) : Option Node :=
  node.entries.lookup name

/-- The node at a location below this one; links are not followed. -/
def at? : Node → List String → Option Node
  | node, [] => some node
  | node, name :: rest =>
      match node.child? name with
      | some below => below.at? rest
      | none => none

/-- The tree with `new` at a location whose parent is a folder of the tree; any other location
leaves the tree as it is. -/
def put : Node → List String → Node → Node
  | _, [], new => new
  | .folder entries, name :: rest, new =>
      match entries.lookup name, rest with
      | some below, _ => .folder (putEntry name (below.put rest new) entries)
      | none, [] => .folder (putEntry name new entries)
      | none, _ :: _ => .folder entries
  | node, _ :: _, _ => node

/-- The tree without the node at a location. -/
def erase : Node → List String → Node
  | node, [] => node
  | .folder entries, [name] => .folder (entries.filter fun entry => entry.1 != name)
  | .folder entries, name :: rest =>
      match entries.lookup name with
      | some below => .folder (putEntry name (below.erase rest) entries)
      | none => .folder entries
  | node, _ :: _ => node

/-- Whether the node is a folder. -/
def isFolder : Node → Bool
  | .folder _ => true
  | _ => false

/-- Whether the node is a regular file. -/
def isFile : Node → Bool
  | .file _ => true
  | _ => false

mutual

/-- The number of links in a tree. -/
def linkCount : Node → Nat
  | .link _ => 1
  | .folder entries => linkCountEntries entries
  | _ => 0

/-- The number of links in a list of entries. -/
def linkCountEntries : List (String × Node) → Nat
  | [] => 0
  | (_, node) :: rest => node.linkCount + linkCountEntries rest

end

mutual

/-- The number of folders on the longest way down a tree. -/
def height : Node → Nat
  | .folder entries => heightEntries entries + 1
  | _ => 0

/-- The greatest height in a list of entries. -/
def heightEntries : List (String × Node) → Nat
  | [] => 0
  | (_, node) :: rest => max node.height (heightEntries rest)

end

mutual

/-- The ways to everything below a node, folders marked by a slash at their end; links are not
entered, and count as folders where `toFolder` says so of their location. -/
def listing (toFolder : List String → Bool) (above : List String) : Node → List String
  | .folder entries => listingEntries toFolder above entries
  | _ => []

/-- The listing of a list of entries. -/
def listingEntries (toFolder : List String → Bool) (above : List String) :
    List (String × Node) → List String
  | [] => []
  | (name, node) :: rest =>
      let here := above ++ [name]
      let shown := "/".intercalate here
      let mark := if node.isFolder || toFolder here then "/" else ""
      (shown ++ mark) :: (node.listing toFolder here ++ listingEntries toFolder above rest)

end

end Node

/-- The file system and the working directory, which is the location of a folder. -/
structure Disk where
  tree : Node
  cwd : List String

/-- The node at a location; links are not followed. -/
def Disk.nodeAt? (disk : Disk) (location : List String) : Option Node :=
  disk.tree.at? location

/-- The disk with a node put at a location. -/
def Disk.put (disk : Disk) (location : List String) (node : Node) : Disk :=
  { disk with tree := disk.tree.put location node }

/-- The disk without the node at a location. -/
def Disk.erase (disk : Disk) (location : List String) : Disk :=
  { disk with tree := disk.tree.erase location }

end ElmSuite
