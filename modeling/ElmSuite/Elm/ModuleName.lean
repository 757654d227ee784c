import ElmSuite.Failure
import ElmSuite.Path
import ElmSuite.Text.Digits

/-!
Module names.  A module is named by its path below its source directory, so the name of a file does
not depend on what the file holds.
-/

namespace ElmSuite.Elm

/-- A part of a module name: an upper-case letter followed by letters, decimal digits and
underscores. -/
def isUpperName (segment : String) : Bool :=
  match segment.toList with
  | [] => false
  | first :: rest =>
      Text.isLetter first && Text.isUpper first &&
        rest.all fun c => Text.isLetter c || Text.isDecimal c || c == '_'

/-- The suffix of source files. -/
def sourceSuffix : String := ".elm"

/-- A file name without the suffix of source files, once. -/
def withoutSuffix (name : String) : String :=
  let reversed := name.toList.reverse
  let suffix := sourceSuffix.toList.reverse
  if suffix.isPrefixOf reversed then String.ofList (reversed.drop suffix.length).reverse else name

/-- The parts of a module name that the parts of a path stand for. -/
def moduleSegments : List String → List String
  | [] => []
  | [last] => [withoutSuffix last]
  | part :: rest => part :: moduleSegments rest

/-- The source directory of a file, which is the only one of `roots` that it lies under. -/
def sourceDirectoryOf (roots : List Path) (file : Path) : Except Failure Path :=
  match roots.filter file.isWithin with
  | [] => .error (.noSourceDirectory file.toString)
  | [root] => .ok root
  | several => .error (.ambiguousSourceDirectory file.toString (several.map Path.toString))

/-- The name of the module in a file. -/
def moduleNameOf (roots : List Path) (file : Path) : Except Failure String := do
  let root ← sourceDirectoryOf roots file
  match moduleSegments ((file.partsBelow? root).getD []) with
  | [] => .error (.invalidModuleName file.toString "")
  | segments =>
      match segments.find? fun segment => !isUpperName segment with
      | some segment => .error (.invalidModuleName file.toString segment)
      | none => .ok (".".intercalate segments)

end ElmSuite.Elm
