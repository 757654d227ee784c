/-!
The options of the command line, and the texts that describe them.
-/

namespace ElmSuite.CommandLine

/-- The name under which the program shows itself. -/
def programName : String := "main"

/-- The version of the program. -/
def programVersion : String := "0.1.0"

/-- An option of the command line. -/
inductive Flag
  | version
  | compiler
  | seed
  | fuzz
  | workers
  | report
  | config
  | verbose
  | help
deriving DecidableEq, Repr

namespace Flag

/-- All options, in the order in which they are described. -/
def all : List Flag :=
  [.version, .compiler, .seed, .fuzz, .workers, .report, .config, .verbose, .help]

/-- The long name of an option. -/
def longName : Flag → String
  | .version => "--version"
  | .compiler => "--compiler"
  | .seed => "--seed"
  | .fuzz => "--fuzz"
  | .workers => "--workers"
  | .report => "--report"
  | .config => "--config"
  | .verbose => "--verbose"
  | .help => "--help"

/-- The letter that may stand for an option behind a single hyphen. -/
def letter? : Flag → Option Char
  | .verbose => some 'v'
  | .help => some 'h'
  | _ => none

/-- Whether an option takes a value. -/
def takesValue : Flag → Bool
  | .version | .verbose | .help => false
  | _ => true

/-- Whether an option acts at once, before the values of others are looked at. -/
def actsAtOnce : Flag → Bool
  | .version | .help => true
  | _ => false

/-- Whether the value of an option is a whole number. -/
def isNumber : Flag → Bool
  | .seed | .fuzz | .workers => true
  | _ => false

/-- The option with a long name. -/
def ofLongName? (name : String) : Option Flag :=
  all.find? fun flag => flag.longName == name

/-- The option with a letter. -/
def ofLetter? (c : Char) : Option Flag :=
  all.find? fun flag => flag.letter? == some c

end Flag

/-- The line that shows how the program is used. -/
def usageLine : String :=
  "Usage: " ++ programName ++ " [OPTIONS] [FILES]...\n"

/-- The lines in front of a message about a wrong use. -/
def usageHint : String :=
  usageLine ++ "Try '" ++ programName ++ " --help' for help.\n\n"

/-- The description of the program. -/
def helpText : String :=
  usageLine ++ "\n".intercalate
    [ ""
    , "  Run the Elm tests of the current project."
    , ""
    , "  FILES are test files or glob patterns; by default every .elm file under tests/"
    , "  is used."
    , ""
    , "  Exit codes:   0 - All tests passed   1 - Tests failed, or compilation or a"
    , "  tool failed   2 - Invalid options or project"
    , ""
    , "Options:"
    , "  --version          Show the version and exit."
    , "  --compiler TEXT    Path to the elm compiler [default: elm]"
    , "  --seed INTEGER     Initial random seed [default: random]"
    , "  --fuzz INTEGER     Number of runs per fuzz test [default: 100]"
    , "  --workers INTEGER  Number of worker threads [default: CPU count]"
    , "  --report TEXT      Report format: console, json or junit [default: console]"
    , "  --config FILE      YAML file with default values for the options above"
    , "  -v, --verbose      Show debug logs"
    , "  -h, --help         Show this message and exit."
    , "" ]

/-- The text that tells the version. -/
def versionText : String :=
  programName ++ ", version " ++ programVersion ++ "\n"

end ElmSuite.CommandLine
