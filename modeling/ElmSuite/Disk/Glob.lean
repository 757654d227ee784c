import ElmSuite.Disk.Walk

/-!
File name patterns and their expansion.  In a name `*` stands for any characters, `?` for one, and
brackets for one of a set; a part `**` stands for any number of folders.  Names that start with a
dot match only parts that start with one.
-/

namespace ElmSuite.Glob

/-- One element of a name pattern. -/
inductive Piece
  | run
  | one
  | oneOf (negated : Bool) (ranges : List (Char × Char))
  | literal (c : Char)
deriving Repr

/-- The pieces of a bracket between its hyphens.  A hyphen separates only after at least `least`
other characters. -/
def chunks : Nat → List Char → List Char → List (List Char)
  | _, chunk, [] => [chunk.reverse]
  | 0, chunk, '-' :: rest => chunk.reverse :: chunks 2 [] rest
  | least, chunk, c :: rest => chunks (least - 1) (c :: chunk) rest

/-- A hyphen at the end belongs to the chunk before it. -/
def closeChunks : List (List Char) → List (List Char)
  | [chunk, []] => [chunk ++ ['-']]
  | chunk :: rest => chunk :: closeChunks rest
  | [] => []

/-- Joins neighbours whose range would be empty, from the last to the first; the ends of that range
belong to no set. -/
def joinEmptyRanges : List (List Char) → List (List Char)
  | [] => []
  | chunk :: rest =>
      match joinEmptyRanges rest with
      | [] => [chunk]
      | next :: others =>
          match chunk.getLast?, next.head? with
          | some last, some first =>
              if first < last then (chunk.dropLast ++ next.tail) :: others
              else chunk :: next :: others
          | _, _ => chunk :: next :: others

/-- The set of characters that chunks denote, as ranges: neighbours are joined by a range from the
last character of one to the first of the next. -/
def chunkRanges : List (List Char) → List (Char × Char)
  | [] => []
  | [chunk] => chunk.map fun c => (c, c)
  | chunk :: next :: rest =>
      let single := chunk.dropLast.map fun c => (c, c)
      match chunk.getLast?, next.head? with
      | some last, some first => single ++ (last, first) :: chunkRanges (next.tail :: rest)
      | _, _ => single ++ chunkRanges (next.tail :: rest)
termination_by chunks => chunks.length

/-- The set in brackets. -/
def bracketSet (body : List Char) : Piece :=
  let (negated, inner) := match body with
    | '!' :: inner => (true, inner)
    | inner => (false, inner)
  .oneOf negated (chunkRanges (joinEmptyRanges (closeChunks (chunks 1 [] inner))))

/-- The body of a bracket and what follows it, if it is closed.  A closing bracket in first place is
a member. -/
def bracketBody? (rest : List Char) : Option (List Char × List Char) :=
  let (lead, tail) := match rest with
    | '!' :: ']' :: tail => (['!', ']'], tail)
    | '!' :: tail => (['!'], tail)
    | ']' :: tail => ([']'], tail)
    | tail => ([], tail)
  match tail.dropWhile (· != ']') with
  | _ :: after => some (lead ++ tail.takeWhile (· != ']'), after)
  | [] => none

/-- The pieces of a pattern of at most `bound` characters; an unclosed bracket stands for itself. -/
def piecesUpTo : Nat → List Char → List Piece
  | 0, _ => []
  | _, [] => []
  | bound + 1, '*' :: rest => .run :: piecesUpTo bound rest
  | bound + 1, '?' :: rest => .one :: piecesUpTo bound rest
  | bound + 1, '[' :: rest =>
      match bracketBody? rest with
      | some (body, after) => bracketSet body :: piecesUpTo bound after
      | none => .literal '[' :: piecesUpTo bound rest
  | bound + 1, c :: rest => .literal c :: piecesUpTo bound rest

/-- The pieces of a name pattern. -/
def pieces (pattern : List Char) : List Piece :=
  piecesUpTo pattern.length pattern

/-- The ends of a text, the text itself first. -/
def suffixes : List Char → List (List Char)
  | [] => [[]]
  | c :: rest => (c :: rest) :: suffixes rest

/-- Whether a whole name matches. -/
def matchesPieces : List Piece → List Char → Bool
  | [], name => name.isEmpty
  | .run :: rest, name => (suffixes name).any (matchesPieces rest)
  | _ :: _, [] => false
  | .one :: rest, _ :: name => matchesPieces rest name
  | .oneOf negated ranges :: rest, c :: name =>
      (ranges.any (fun range => range.1 ≤ c && c ≤ range.2) != negated) && matchesPieces rest name
  | .literal d :: rest, c :: name => d == c && matchesPieces rest name

/-- Whether a name starts with a dot. -/
def isHidden (name : String) : Bool :=
  name.toList.head? == some '.'

/-- Whether a name matches a name pattern. -/
def matchesName (pattern name : String) : Bool :=
  (isHidden pattern || !isHidden name) && matchesPieces (pieces pattern.toList) name.toList

/-- Whether a text has a character that makes it a pattern. -/
def isPattern (text : String) : Bool :=
  text.toList.any fun c => c == '*' || c == '?' || c == '['

/-- The part of a path before its last slash, and the part after it.  Slashes at the end of the
first part are dropped unless it holds nothing else. -/
def splitLast (path : String) : String × String :=
  let reversed := path.toList.reverse
  let tail := reversed.takeWhile (· != '/')
  let head := reversed.dropWhile (· != '/')
  let bare := head.dropWhile (· == '/')
  (String.ofList (if bare.isEmpty then head else bare.reverse), String.ofList tail.reverse)

/-- The names of a folder, which are none if it is no folder. -/
def namesIn (disk : Disk) (foldersOnly : Bool) (folder : String) : Except Fault (List String) :=
  match disk.find (if folder.isEmpty then "." else folder) with
  | .ok (_, node) =>
      let names := node.entries.map Prod.fst
      let isFolder (name : String) : Bool := disk.isFolder (Path.under folder name)
      .ok (if foldersOnly then names.filter isFolder else names)
  | .error .nullByte => .error .nullByte
  | .error _ => .ok []

/-- Everything that is not hidden below a folder, at most `depth` names deep, links to folders
included. -/
def below (disk : Disk) (foldersOnly : Bool) : Nat → String → Except Fault (List String)
  | 0, _ => .ok []
  | depth + 1, folder => do
      let names ← namesIn disk foldersOnly folder
      let found ← (names.filter fun name => !isHidden name).mapM fun name => do
        let deeper ← below disk foldersOnly depth (Path.under folder name)
        return name :: deeper.map (Path.under name)
      return found.flatten

/-- No walk gets deeper: between two links it passes each folder of the tree at most once. -/
def depthBound (disk : Disk) : Nat :=
  (Disk.linkLimit + 1) * (disk.tree.height + 1) + 1

/-- The entries of a folder that one part of a pattern matches.  What `**` stands for may be
nothing, also where there is no folder. -/
def inFolder (disk : Disk) (foldersOnly : Bool) (folder part : String) :
    Except Fault (List String) := do
  if part == "**" then
    return "" :: (← below disk foldersOnly (depthBound disk) folder)
  else if isPattern part then
    return (← namesIn disk foldersOnly folder).filter (matchesName part)
  else if part.isEmpty then
    return if disk.isFolder folder then [part] else []
  else
    return if disk.hasEntry (Path.under folder part) then [part] else []

/-- The paths that a pattern with at most `depth` parts matches. -/
def expandUpTo (disk : Disk) : Nat → Bool → String → Except Fault (List String)
  | 0, _, _ => .ok []
  | depth + 1, foldersOnly, pattern => do
      let (folder, part) := splitLast pattern
      if !isPattern pattern then
        if part.isEmpty then return if disk.isFolder folder then [pattern] else []
        else return if disk.hasEntry pattern then [pattern] else []
      else if folder.isEmpty then inFolder disk foldersOnly "" part
      else
        let folders ←
          if folder != pattern && isPattern folder then expandUpTo disk depth true folder
          else pure [folder]
        let found ← folders.mapM fun folder => do
          return (← inFolder disk foldersOnly folder part).map (Path.under folder)
        return found.flatten

/-- The paths that a pattern matches. -/
def expand (disk : Disk) (pattern : String) : Except Fault (List String) := do
  let found ← expandUpTo disk (pattern.length + 1) false pattern
  match found with
  | "" :: rest => return if pattern.isEmpty || pattern.startsWith "**" then rest else found
  | _ => return found

end ElmSuite.Glob
