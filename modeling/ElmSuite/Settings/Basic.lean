import ElmSuite.Failure
import ElmSuite.Settings.Given

/-!
The settings of a run.  Numbers are in their ranges by construction, and new values for some of the
settings are taken all together or not at all.
-/

namespace ElmSuite

/-- The number of seeds. -/
def seedBound : Nat := 4294967296

/-- The settings of a run.  The report format is only looked at by the run itself. -/
structure Settings where
  compiler : Codes
  seed : Nat
  fuzz : Nat
  workers : Nat
  report : Codes
  seed_lt : seed < seedBound
  fuzz_pos : 0 < fuzz
  workers_pos : 0 < workers
deriving DecidableEq, Repr

/-- What the surroundings decide about the settings: a seed that is drawn, and the number of
processors as far as it is known. -/
structure Surroundings where
  seed : Fin seedBound
  processors : Option Nat
deriving Repr

namespace Settings

/-- The number of workers for a number of processors. -/
def workersFor : Option Nat → Nat
  | some (count + 1) => count + 1
  | _ => 1

theorem workersFor_pos (processors : Option Nat) : 0 < workersFor processors := by
  unfold workersFor
  split
  · exact Nat.succ_pos _
  · exact Nat.one_pos

/-- The settings of a run for which nothing is said. -/
def initial (surroundings : Surroundings) : Settings where
  compiler := .ofString "elm"
  seed := surroundings.seed
  fuzz := 100
  workers := workersFor surroundings.processors
  report := .ofString "console"
  seed_lt := surroundings.seed.isLt
  fuzz_pos := by decide
  workers_pos := workersFor_pos _

/-- What a value is given for. -/
inductive Key
  | name (codes : Codes)
  /-- A key that is no text, with its label. -/
  | other (label : String)
deriving DecidableEq, Repr

/-- Whether a key holds half of a surrogate pair. -/
def Key.isBroken : Key → Bool
  | .name codes => codes.any Codes.isSurrogate
  | .other _ => false

/-- The names of the settings. -/
def names : List String :=
  ["compiler", "seed", "fuzz", "workers", "report"]

/-- A complaint and what it is about. -/
structure Objection where
  label : String
  complaint : Given.Complaint
deriving DecidableEq, Repr

/-- A field of new settings: the objections to its value, or the value. -/
abbrev Field (α : Type) := Except (List Objection) α

/-- A new value for a field, if one is given, or the old one. -/
def field {α : Type} (entries : List (Key × Given)) (name : String) (old : α)
    (take : Given → Except Given.Complaint α) : Field α :=
  match entries.lookup (.name (.ofString name)) with
  | none => .ok old
  | some given => (take given).mapError fun complaint => [⟨name, complaint⟩]

/-- A whole number in the range of seeds. -/
def takeSeed (given : Given) : Except Given.Complaint (Fin seedBound) := do
  let value ← given.asWhole
  if value < 0 then throw (.below 0)
  else if h : value.toNat < seedBound then return ⟨value.toNat, h⟩
  else throw (.notBelow seedBound)

/-- A whole number that is at least one. -/
def takeCount (given : Given) : Except Given.Complaint { n : Nat // 0 < n } := do
  let value ← given.asWhole
  if h : 0 < value then return ⟨value.toNat, by omega⟩
  else throw (.below 1)

/-- The objections to a field. -/
def objections {α : Type} : Field α → List Objection
  | .ok _ => []
  | .error found => found

/-- The objection to a key that names no setting. -/
def keyObjection? : Key → Option Objection
  | .name codes =>
      if names.contains codes.lossy then none else some ⟨codes.lossy, .unknownName⟩
  | .other label => some ⟨label, .keyNotText⟩

/-- The settings with new values for some of them, given for names or other keys.  All objections
are gathered, those to fields first. -/
def updateFields (current : Settings) (entries : List (Key × Given)) :
    Except (List Objection) Settings :=
  let compiler := field entries "compiler" current.compiler Given.asText
  let seed := field entries "seed" ⟨current.seed, current.seed_lt⟩ takeSeed
  let fuzz := field entries "fuzz" ⟨current.fuzz, current.fuzz_pos⟩ takeCount
  let workers := field entries "workers" ⟨current.workers, current.workers_pos⟩ takeCount
  let report := field entries "report" current.report Given.asText
  let unknown := entries.filterMap fun entry => keyObjection? entry.1
  match compiler, seed, fuzz, workers, report, unknown with
  | .ok compiler, .ok seed, .ok fuzz, .ok workers, .ok report, [] =>
      .ok ⟨compiler, seed.1, fuzz.1, workers.1, report, seed.2, fuzz.2, workers.2⟩
  | _, _, _, _, _, _ =>
      .error (objections compiler ++ objections seed ++ objections fuzz ++ objections workers ++
        objections report ++ unknown)

/-- The settings with new values for some of them.  A key that holds half of a surrogate pair is the
only objection. -/
def update (current : Settings) (entries : List (Key × Given)) :
    Except (List Objection) Settings :=
  if entries.any fun entry => entry.1.isBroken then .error [⟨"", .brokenText⟩]
  else current.updateFields entries

/-- The words for objections. -/
def describe (found : List Objection) : String :=
  "Invalid settings: " ++
    "; ".intercalate (found.map fun objection =>
      objection.label ++ ": " ++ objection.complaint.message)

/-- The settings with new values for some of them, given by name. -/
def merge (current : Settings) (values : List (String × Given)) : Except Failure Settings :=
  let entries := values.map fun (name, given) => (Key.name (.ofString name), given)
  (current.update entries).mapError fun found => .settings (describe found) none

end Settings

end ElmSuite
