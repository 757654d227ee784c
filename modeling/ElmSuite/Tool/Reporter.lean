import ElmSuite.Failure

/-!
Report formats.
-/

namespace ElmSuite

/-- A report format. -/
inductive Reporter
  | console
  | json
  | junit
deriving DecidableEq, Repr

namespace Reporter

/-- The name of a report format. -/
def name : Reporter → String
  | .console => "console"
  | .json => "json"
  | .junit => "junit"

/-- All report formats. -/
def choices : List Reporter :=
  [.console, .json, .junit]

/-- The report format with a name. -/
def ofName (value : String) : Except Failure Reporter :=
  match choices.find? fun reporter => reporter.name == value with
  | some reporter => .ok reporter
  | none => .error (.invalidReporter value (choices.map name))

theorem ofName_name (reporter : Reporter) : ofName reporter.name = .ok reporter := by
  cases reporter <;> rfl

end Reporter

end ElmSuite
