/-!
Lexical paths: where a path starts, and its parts.  Empty parts and `.` carry no meaning and are
dropped; `..` is kept, because what it denotes depends on the links on disk.
-/

namespace ElmSuite

/-- Where a path starts: at the working directory, at the root, or at the root written with exactly
two slashes, which stay two. -/
inductive Anchor
  | here
  | root
  | doubleRoot
deriving DecidableEq, Repr

/-- The text of an anchor. -/
def Anchor.text : Anchor → String
  | .here => ""
  | .root => "/"
  | .doubleRoot => "//"

/-- A path as its anchor and its parts; no part is empty, `.` or holds a slash. -/
structure Path where
  anchor : Anchor
  parts : List String
deriving DecidableEq, Repr

namespace Path

/-- The pieces of a text between slashes. -/
def pieces (text : String) : List String :=
  (text.toList.splitOn '/').map String.ofList

/-- The anchor that the leading slashes of a text stand for. -/
def anchorOf : List Char → Anchor
  | '/' :: '/' :: '/' :: _ => .root
  | '/' :: '/' :: _ => .doubleRoot
  | '/' :: _ => .root
  | _ => .here

/-- The path that a text denotes. -/
def ofString (text : String) : Path :=
  ⟨anchorOf text.toList, (pieces text).filter fun part => !(part.isEmpty || part == ".")⟩

/-- The path of a list of names from the root. -/
def ofLocation (names : List String) : Path :=
  ⟨.root, names⟩

/-- The text of a path; the empty path is written `.`. -/
def toString (p : Path) : String :=
  if p.anchor = .here ∧ p.parts = [] then "."
  else p.anchor.text ++ "/".intercalate p.parts

instance : ToString Path := ⟨toString⟩

/-- The parts by which paths are compared: the anchor, if there is one, counts as the first. -/
def components (p : Path) : List String :=
  match p.anchor with
  | .here => p.parts
  | anchor => anchor.text :: p.parts

/-- Paths are ordered part by part. -/
def le (p q : Path) : Bool :=
  !List.lex q.components p.components fun a b => decide (a < b)

/-- `q` seen from `p`: a path with an anchor stands for itself. -/
def join (p q : Path) : Path :=
  if q.anchor = .here then ⟨p.anchor, p.parts ++ q.parts⟩ else q

/-- The path of an entry of `p`. -/
def child (p : Path) (name : String) : Path :=
  ⟨p.anchor, p.parts ++ [name]⟩

/-- The last part, or nothing. -/
def name (p : Path) : String :=
  p.parts.getLast?.getD ""

/-- The path without its last part. -/
def parent (p : Path) : Path :=
  ⟨p.anchor, p.parts.dropLast⟩

/-- What remains of a list after a list that it starts with. -/
def afterParts? : List String → List String → Option (List String)
  | [], rest => some rest
  | _ :: _, [] => none
  | x :: xs, y :: ys => if x = y then afterParts? xs ys else none

/-- The parts of `p` below `root`, if `p` is `root` or lies below it, part by part. -/
def partsBelow? (p root : Path) : Option (List String) :=
  if p.anchor = root.anchor then afterParts? root.parts p.parts else none

/-- Whether `p` is `root` or lies below it. -/
def isWithin (p root : Path) : Bool :=
  (p.partsBelow? root).isSome

/-- One part applied to names from the root, `..` taking the last name away. -/
def stepName (names : List String) (part : String) : List String :=
  if part = ".." then names.dropLast else names ++ [part]

/-- The names from the root of a path seen from the folder `base`, each `..` taken lexically. -/
def namesFrom (base : List String) (p : Path) : List String :=
  p.parts.foldl stepName (if p.anchor = .here then base else [])

/-- The path seen from the folder `base`, each `..` taken lexically. -/
def absolute (base : List String) (p : Path) : Path :=
  ⟨if p.anchor = .here then .root else p.anchor, p.namesFrom base⟩

/-- A text seen from a folder, both as they are written.  An empty folder is the one at hand, and a
text that starts with a slash stands for itself. -/
def under (folder name : String) : String :=
  if folder.isEmpty || name.toList.head? == some '/' then name
  else if folder.toList.getLast? == some '/' then folder ++ name
  else folder ++ "/" ++ name

/-- The number of names that two lists start with in common. -/
def sharedLength : List String → List String → Nat
  | x :: xs, y :: ys => if x = y then sharedLength xs ys + 1 else 0
  | _, _ => 0

/-- The way from one folder to another, both given by their names from the root. -/
def way (start target : List String) : String :=
  let shared := sharedLength start target
  let steps := List.replicate (start.length - shared) ".." ++ target.drop shared
  if steps.isEmpty then "." else "/".intercalate steps

end Path

end ElmSuite
