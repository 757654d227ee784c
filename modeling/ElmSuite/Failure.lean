import ElmSuite.Fault

/-!
What can go wrong for a user of the test runner, as causes.  Each cause has a kind, which decides
the exit code, and one message.
-/

namespace ElmSuite

/-- Who has to act on a failure. -/
inductive FailureKind
  | userInput
  | environment
  | toolStart
  | toolFailure
  | internal
deriving DecidableEq, Repr

/-- Mistakes of the user or the surroundings exit with 2, everything else with 1. -/
def FailureKind.exitCode : FailureKind → Int
  | .userInput => 2
  | .environment => 2
  | _ => 1

/-- One fault of a document that does not have the expected shape: where it is, in words, and its
class. -/
structure Issue where
  place : String
  words : String
  label : String
deriving DecidableEq, Repr

/-- The causes of failure. -/
inductive Failure
  /-- A failure that is known by its message alone. -/
  | other (words : String)
  /-- The generated project cannot be written or read back. -/
  | generatedProject (words : String)
  /-- No folder at or above `start` holds an `elm.json`. -/
  | projectRootNotFound (start : String)
  /-- No target matches a test file. -/
  | noTestFiles (patterns : List String)
  /-- A target is no existing file. -/
  | missingTestFile (path : String)
  /-- A test file cannot be read as text. -/
  | unreadableTestFile (path reason : String)
  /-- A file has no module name, for a reason known by its message alone. -/
  | moduleName (words : String)
  /-- A test file lies under no source directory. -/
  | noSourceDirectory (path : String)
  /-- A test file lies under several source directories. -/
  | ambiguousSourceDirectory (path : String) (directories : List String)
  /-- A part of the path of a test file is no part of a module name. -/
  | invalidModuleName (path segment : String)
  /-- The placeholders of a template are not the replacements that are given. -/
  | templateMismatch (missing unused : List String) (template : Option String)
  /-- Compiled code lacks a definition that has to be changed. -/
  | patternNotFound (definition : String)
  /-- A manifest cannot be read, or does not have the shape of one. -/
  | manifest (words : String) (path : Option String) (issues : List Issue)
  /-- A source directory does not exist. -/
  | sourceDirectory (directory projectRoot : String)
  /-- The settings are invalid. -/
  | settings (words : String) (path : Option String)
  /-- A tool cannot be started. -/
  | toolNotStarted (executable : String) (reason : Option String)
  /-- The compiler rejects its sources. -/
  | compilation (sources : List String) (returnCode : Int)
  /-- The solver does not answer with dependencies. -/
  | malformedDependencies (returnCode : Int) (issues : List Issue)
  /-- A report format is not supported. -/
  | invalidReporter (value : String) (choices : List String)
deriving DecidableEq, Repr

namespace Failure

/-- The kind of a failure. -/
def kind : Failure → FailureKind
  | .other _ => .internal
  | .generatedProject _ => .environment
  | .projectRootNotFound _ => .environment
  | .noTestFiles _ => .userInput
  | .missingTestFile _ => .userInput
  | .unreadableTestFile _ _ => .environment
  | .moduleName _ => .internal
  | .noSourceDirectory _ => .internal
  | .ambiguousSourceDirectory _ _ => .internal
  | .invalidModuleName _ _ => .internal
  | .templateMismatch _ _ _ => .internal
  | .patternNotFound _ => .internal
  | .manifest _ _ _ => .environment
  | .sourceDirectory _ _ => .environment
  | .settings _ _ => .userInput
  | .toolNotStarted _ _ => .toolStart
  | .compilation _ _ => .toolFailure
  | .malformedDependencies _ _ => .toolFailure
  | .invalidReporter _ _ => .userInput

/-- The exit code of a failure. -/
def exitCode (failure : Failure) : Int :=
  failure.kind.exitCode

/-- Names in a list of a message. -/
def commaList (names : List String) : String :=
  ", ".intercalate names

/-- The names of a set, in the order of their code points. -/
def sortedNames (names : List String) : List String :=
  names.mergeSort fun a b => decide (a ≤ b)

/-- The part of a message that a set of names is worth, if it is not empty. -/
def setDetail (lead : String) (names : List String) : List String :=
  if names.isEmpty then [] else [lead ++ commaList (sortedNames names)]

/-- The message of a failure. -/
def message : Failure → String
  | .other words => words
  | .generatedProject words => words
  | .projectRootNotFound start =>
      "Could not find an elm.json in " ++ start ++ " or any parent directory"
  | .noTestFiles patterns =>
      if patterns.isEmpty then "No test file found"
      else "No test file found for: " ++ commaList patterns
  | .missingTestFile path => "Test file not found: " ++ path
  | .unreadableTestFile path reason => "Unable to read test file " ++ path ++ ": " ++ reason
  | .moduleName words => words
  | .noSourceDirectory path =>
      "This file:\n" ++ path ++ "\n...matches no source directory! Imports won't work then."
  | .ambiguousSourceDirectory path directories =>
      path ++ " matches " ++ toString directories.length ++ " source directories: " ++
        commaList directories
  | .invalidModuleName path segment =>
      Text.quote segment ++ " in " ++ path ++ " is not a valid module name"
  | .templateMismatch missing unused template =>
      let place := match template with
        | some name => if name.isEmpty then "" else " in " ++ name
        | none => ""
      "The template does not match with the replacement keys" ++ place ++ ": " ++
        "; ".intercalate
          (setDetail "no replacement for " missing ++ setDetail "unused replacements " unused)
  | .patternNotFound definition =>
      "Could not find " ++ definition ++ " in the compiled runner; " ++
        "the compiler or test library output format may have changed"
  | .manifest words _ _ => words
  | .sourceDirectory directory projectRoot =>
      "Source directory " ++ Text.quote directory ++ " does not exist in " ++ projectRoot
  | .settings words _ => words
  | .toolNotStarted executable reason =>
      "Command " ++ executable ++ " failed to start" ++
        match reason with
        | some words => if words.isEmpty then "" else ": " ++ words
        | none => ""
  | .compilation sources returnCode =>
      "Compilation failed with exit code " ++ toString returnCode ++ ": " ++ " ".intercalate sources
  | .malformedDependencies returnCode _ =>
      "Wrongly formed dependencies from the solver (exit code " ++ toString returnCode ++ ")"
  | .invalidReporter value choices =>
      "Wrong --report value: " ++ value ++ " (expected one of " ++ commaList choices ++ ")"

/-- The issues of the document that a failure is about. -/
def issues : Failure → List Issue
  | .manifest _ _ issues => issues
  | .malformedDependencies _ issues => issues
  | _ => []

end Failure

/-- Why an operation has no result: a failure, or a fault that nobody turned into one. -/
inductive Trouble
  | failure (cause : Failure)
  | fault (cause : Fault)
deriving DecidableEq, Repr

/-- The message of a trouble. -/
def Trouble.message : Trouble → String
  | .failure cause => cause.message
  | .fault cause => cause.message

end ElmSuite
