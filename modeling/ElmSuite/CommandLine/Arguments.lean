import ElmSuite.CommandLine.Options
import ElmSuite.Text.Quoted
import ElmSuite.Text.Similarity

/-!
How the words of a command line are split into options, their values, and files.  Options and files
may be mixed; `--` ends the options.
-/

namespace ElmSuite.CommandLine

/-- Why a command line cannot be split, or a value not be taken. -/
inductive Misuse
  | unknownOption (name : String) (suggestions : List String)
  | missingValue (name : String)
  | unexpectedValue (name : String)
  | notWhole (flag : Flag) (value : String)
  | isFolder (flag : Flag) (value : String)
deriving DecidableEq, Repr

namespace Misuse

/-- The end of a message that names options which may be meant. -/
def suggestionText (names : List String) : String :=
  match names.mergeSort (fun a b => decide (a ≤ b)) with
  | [] => ""
  | [name] => " Did you mean " ++ Text.quote name ++ "?"
  | several => " (Did you mean one of: " ++ ", ".intercalate (several.map Text.quote) ++ "?)"

/-- The message of a misuse. -/
def message : Misuse → String
  | .unknownOption name suggestions =>
      "No such option " ++ Text.quote name ++ "." ++ suggestionText suggestions
  | .missingValue name => "Option " ++ Text.quote name ++ " requires an argument."
  | .unexpectedValue name => "Option " ++ Text.quote name ++ " does not take a value."
  | .notWhole flag value =>
      "Invalid value for " ++ Text.quote flag.longName ++ ": " ++ Text.quote value ++
        " is not a valid integer."
  | .isFolder flag value =>
      "Invalid value for " ++ Text.quote flag.longName ++ ": File " ++ Text.quote value ++
        " is a directory."

/-- Whether the message follows a hint how the program is used. -/
def showsUsage : Misuse → Bool
  | .missingValue _ => false
  | .unexpectedValue _ => false
  | _ => true

/-- The whole text about a misuse. -/
def text (misuse : Misuse) : String :=
  (if misuse.showsUsage then usageHint else "") ++ "Error: " ++ misuse.message ++ "\n"

end Misuse

/-- A command line that has been split: the options in their order, with their values, and the
files. -/
structure Arguments where
  options : List (Flag × Option String) := []
  files : List String := []
deriving DecidableEq, Repr

namespace Arguments

/-- The arguments with an option in front. -/
def withOption (flag : Flag) (value : Option String) (a : Arguments) : Arguments :=
  { a with options := (flag, value) :: a.options }

/-- The arguments with a file in front. -/
def withFile (file : String) (a : Arguments) : Arguments :=
  { a with files := file :: a.files }

/-- The options that letters behind a hyphen stand for. -/
def letters : List Char → Except Misuse (List Flag)
  | [] => .ok []
  | c :: rest =>
      match Flag.ofLetter? c with
      | some flag => (letters rest).map (flag :: ·)
      | none => .error (.unknownOption (String.ofList ['-', c]) [])

/-- A word split at its first equals sign. -/
def splitValue (word : String) : String × Option String :=
  let chars := word.toList
  match chars.dropWhile (· != '=') with
  | _ :: value => (String.ofList (chars.takeWhile (· != '=')), some (String.ofList value))
  | [] => (word, none)

/-- Whether a word is meant as an option. -/
def isOption (word : String) : Bool :=
  match word.toList with
  | '-' :: _ :: _ => true
  | _ => false

/-- The misuse of an option that is not known. -/
def unknown (name : String) : Misuse :=
  .unknownOption name (Text.closest name (Flag.all.map Flag.longName))

/-- The words of a command line as options and files. -/
def ofWords : List String → Except Misuse Arguments
  | [] => .ok {}
  | "--" :: rest => .ok { files := rest }
  | word :: rest =>
      if !isOption word then (ofWords rest).map (withFile word)
      else
        let (name, value) := splitValue word
        match Flag.ofLongName? name, value with
        | some flag, value =>
            if !flag.takesValue then
              if value.isSome then .error (.unexpectedValue name)
              else (ofWords rest).map (withOption flag none)
            else
              match value, rest with
              | some value, rest => (ofWords rest).map (withOption flag (some value))
              | none, next :: rest => (ofWords rest).map (withOption flag (some next))
              | none, [] => .error (.missingValue name)
        | none, _ =>
            match word.toList with
            | '-' :: '-' :: _ => .error (unknown name)
            | _ :: short => do
                let flags ← letters short
                let more ← ofWords rest
                return flags.foldr (fun flag => withOption flag none) more
            | [] => .error (unknown name)

/-- The last value of an option. -/
def value? (a : Arguments) (flag : Flag) : Option String :=
  ((a.options.filter fun option => option.1 == flag).getLast?).bind Prod.snd

/-- Whether an option is there. -/
def has (a : Arguments) (flag : Flag) : Bool :=
  a.options.any fun option => option.1 == flag

/-- The options that are there, each once, in the order in which they first come up. -/
def flags (a : Arguments) : List Flag :=
  (a.options.map Prod.fst).eraseDups

end Arguments

end ElmSuite.CommandLine
