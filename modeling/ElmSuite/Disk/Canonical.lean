import ElmSuite.Disk.Walk

/-!
Canonical locations: the names from the root at which a path ends up once every link is followed and
every `..` is taken from where the links led.  A strict resolution needs everything on the way to
exist; a lenient one takes the rest of the way as it stands.
-/

namespace ElmSuite.Disk

/-- A point of a resolution: its location, and the way it was reached in the words of the
argument. -/
structure Waypoint where
  location : List String
  spelling : Path

/-- The way of a spelling that goes up. -/
def spellUp (p : Path) : Path :=
  match p.parts.getLast?, p.anchor with
  | none, .here => ⟨.here, [".."]⟩
  | none, anchor => ⟨anchor, []⟩
  | some "..", anchor => ⟨anchor, p.parts ++ [".."]⟩
  | some _, anchor => ⟨anchor, p.parts.dropLast⟩

/-- The waypoint above. -/
def Waypoint.up (at_ : Waypoint) : Waypoint :=
  ⟨at_.location.dropLast, spellUp at_.spelling⟩

/-- The waypoint of an entry. -/
def Waypoint.down (at_ : Waypoint) (name : String) : Waypoint :=
  ⟨at_.location ++ [name], at_.spelling.child name⟩

/-- How a resolution ends: at a waypoint, or before a link that leads back to itself, with the rest
of the way as it is spelled. -/
inductive Resolution
  | reached (at_ : Waypoint)
  | stuck (spelling : String)

/-- The path that a resolution gives.  What is left of a way is taken lexically from the working
directory. -/
def Resolution.path (cwd : List String) : Resolution → Path
  | .reached at_ => .ofLocation at_.location
  | .stuck spelling => (Path.ofString spelling).absolute cwd

/-- What stands below a waypoint without following a link: the operating system has to take the way
as it is spelled, to find the folder, and to accept the name. -/
def lookBelow (disk : Disk) (at_ : Waypoint) (name : String) : Except Errno Node :=
  if pathLimit ≤ (at_.down name).spelling.toString.utf8ByteSize then .error .nameTooLong
  else
    match disk.nodeAt? at_.location with
    | none => .error .notFound
    | some (.folder entries) =>
        if nameLimit < name.utf8ByteSize then .error .nameTooLong
        else (entries.lookup name).elim (.error .notFound) .ok
    | some _ => .error .notDirectory

/-- The resolution of a way from a waypoint, with `onLink` for the links that it meets.  The rest of
a way that gets stuck is kept as it is spelled. -/
def resolveWith (disk : Disk) (strict : Bool)
    (onLink : Waypoint → Waypoint → String → Except Fault Resolution) (at_ : Waypoint) :
    List String → Except Fault Resolution
  | [] => .ok (.reached at_)
  | step :: rest =>
      if step.isEmpty || step == "." then disk.resolveWith strict onLink at_ rest
      else if step == ".." then disk.resolveWith strict onLink at_.up rest
      else if step.toList.contains '\x00' then .error .nullByte
      else
        let next := at_.down step
        match disk.lookBelow at_ step with
        | .ok (.link target) =>
            match onLink at_ next target with
            | .ok (.reached led) => disk.resolveWith strict onLink led rest
            | .ok (.stuck spelling) => .ok (.stuck (Path.under spelling ("/".intercalate rest)))
            | .error fault => .error fault
        | .ok _ => disk.resolveWith strict onLink next rest
        | .error errno =>
            if strict then .error (.refused errno next.spelling.toString)
            else disk.resolveWith strict onLink next rest

/-- The resolution of a way, given the links that are being followed, as they are spelled.  No link
is spelled more often than once from the root and once from the working directory, so `depth` bounds
the links inside links. -/
def resolveWay (disk : Disk) (strict : Bool) :
    Nat → List Path → Waypoint → List String → Except Fault Resolution
  | depth, open_, at_, way =>
      disk.resolveWith strict
        (fun above next target =>
          let loop : Except Fault Resolution :=
            if strict then .error (.linkLoop next.spelling.toString)
            else .ok (.stuck next.spelling.toString)
          if open_.contains next.spelling then loop
          else
            match depth with
            | 0 => loop
            | depth + 1 =>
                let start := if isAbsolute target then ⟨[], ⟨.root, []⟩⟩ else above
                disk.resolveWay strict depth (next.spelling :: open_) start (Path.pieces target))
        at_ way

/-- The resolution of a path from the working directory. -/
def resolution (disk : Disk) (strict : Bool) (path : Path) : Except Fault Resolution :=
  let start : Waypoint :=
    if path.anchor = .here then ⟨disk.cwd, ⟨.here, []⟩⟩ else ⟨[], ⟨.root, []⟩⟩
  disk.resolveWay strict (2 * (disk.tree.linkCount + 1)) [] start path.parts

/-- The canonical path of a path all of which exists. -/
def locate (disk : Disk) (path : Path) : Except Fault Path :=
  (disk.resolution true path).map (Resolution.path disk.cwd)

/-- The canonical path of a path as far as it exists, and the rest of it lexically.  Only a loop of
links and a name that no path can have are errors. -/
def locateLeniently (disk : Disk) (path : Path) : Except Fault Path := do
  let found := (← disk.resolution false path).path disk.cwd
  match disk.find found.toString with
  | .error (.os ⟨.tooManyLinks, refused⟩) => .error (.linkLoop refused)
  | .error .nullByte => .error .nullByte
  | _ => .ok found

end ElmSuite.Disk
