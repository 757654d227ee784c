import ElmSuite.Json.Reader
import ElmSuite.Text.Utf8
import ElmSuite.Yaml.ScalarFault

/-!
Faults below the level of the domain: what the operating system refuses, bytes that are no text,
paths that cannot exist.
-/

namespace ElmSuite

/-- The reasons for which the operating system refuses an operation. -/
inductive Errno
  | notFound
  | notPermitted
  | alreadyExists
  | notDirectory
  | isDirectory
  | nameTooLong
  | notEmpty
  | tooManyLinks
deriving DecidableEq, Repr

/-- The number by which a reason is reported. -/
def Errno.number : Errno → Nat
  | .notFound => 2
  | .notPermitted => 13
  | .alreadyExists => 17
  | .notDirectory => 20
  | .isDirectory => 21
  | .nameTooLong => 36
  | .notEmpty => 39
  | .tooManyLinks => 40

/-- The words for a reason. -/
def Errno.words : Errno → String
  | .notFound => "No such file or directory"
  | .notPermitted => "Permission denied"
  | .alreadyExists => "File exists"
  | .notDirectory => "Not a directory"
  | .isDirectory => "Is a directory"
  | .nameTooLong => "File name too long"
  | .notEmpty => "Directory not empty"
  | .tooManyLinks => "Too many levels of symbolic links"

/-- A refused operation and the path it was asked for. -/
structure OsError where
  errno : Errno
  path : String
deriving DecidableEq, Repr

/-- The message of a refused operation: number, words and the path in quotes. -/
def OsError.message (e : OsError) : String :=
  "[Errno " ++ toString e.errno.number ++ "] " ++ e.errno.words ++ ": " ++ Text.quote e.path

/-- A fault that is no failure of the domain by itself. -/
inductive Fault
  /-- The operating system refused an operation. -/
  | os (error : OsError)
  /-- A file that has to be text is not UTF-8. -/
  | undecodable (defect : Text.Utf8Defect)
  /-- A path holds the character U+0000. -/
  | nullByte
  /-- Following the links of a path never ends. -/
  | linkLoop (path : String)
  /-- A text is no version constraint. -/
  | badConstraint (constraint : Codes)
  /-- A whole number has more digits than are read. -/
  | tooManyDigits (count : Nat)
  /-- An object or a list of a JSON text stands inside too many others. -/
  | tooDeep (isObject : Bool)
  /-- A text that has to be written holds half of a surrogate pair. -/
  | unwritable (defect : SurrogateDefect)
  /-- A path holds half of a surrogate pair. -/
  | unencodable (defect : SurrogateDefect)
  /-- A scalar of a YAML text has no value. -/
  | badScalar (fault : Yaml.ScalarFault)
deriving DecidableEq, Repr

/-- The message of a fault. -/
def Fault.message : Fault → String
  | .os error => error.message
  | .undecodable defect => defect.message
  | .nullByte => "embedded null byte"
  | .linkLoop path => "Symlink loop from " ++ Text.quote path
  | .badConstraint constraint => "Invalid version constraint: " ++ constraint.quoted
  | .tooManyDigits count => Whole.tooManyDigits count
  | .tooDeep isObject => Json.tooDeep isObject
  | .unwritable defect => "Error serializing to JSON: UnicodeEncodeError: " ++ defect.message
  | .unencodable defect => defect.message
  | .badScalar fault => fault.message

/-- A refused operation as a fault. -/
def Fault.refused (errno : Errno) (path : String) : Fault :=
  .os ⟨errno, path⟩

end ElmSuite
