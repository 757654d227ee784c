import ElmSuite.Fault
import ElmSuite.Text.Codes
import ElmSuite.Text.Digits
import ElmSuite.Text.Reading

/-!
Version constraints of packages: a version, or a range with a lower and an upper version.  The
version that a constraint is pinned to is the exact one or the lower bound.
-/

namespace ElmSuite

open Text

/-- What follows decimal digits, of which there has to be one. -/
def afterDecimals? (text : List Char) : Option (List Char) :=
  match text.takeWhile isDecimal with
  | [] => none
  | _ => some (text.dropWhile isDecimal)

/-- The version at the start of a text, three groups of digits with dots between them, and the
rest. -/
def readVersion? (text : List Char) : Option (List Char × List Char) := do
  let minor ← after? ['.'] (← afterDecimals? text)
  let patch ← after? ['.'] (← afterDecimals? minor)
  let rest ← afterDecimals? patch
  return (text.take (text.length - rest.length), rest)

/-- Whether a whole text is a version. -/
def isVersion (text : List Char) : Bool :=
  match readVersion? text with
  | some (_, []) => true
  | _ => false

/-- The lower bound of a text without white space at its ends that is a range of versions. -/
def lowerBound? (text : List Char) : Option (List Char) := do
  let (lower, rest) ← readVersion? text
  let name ← afterBlanksThen? ['<', '='] rest
  let upper ← afterBlanksThen? ['<'] (← afterBlanksThen? ['v'] name)
  if isVersion (upper.dropWhile isBlank) then some lower else none

/-- The version that a constraint is pinned to. -/
def pin? (constraint : String) : Option String :=
  let text := trim constraint.toList
  if isVersion text then some (String.ofList text) else (lowerBound? text).map String.ofList

/-- A constraint together with the version it is pinned to. -/
structure Constraint where
  text : String
  version : String
  pinned : pin? text = some version

/-- The constraint that a text is. -/
def Constraint.ofText? (text : String) : Option Constraint :=
  match h : pin? text with
  | some version => some ⟨text, version, h⟩
  | none => none

/-- The constraint that code points are; none of them holds half of a surrogate pair. -/
def Constraint.ofCodes? (codes : Codes) : Option Constraint :=
  codes.string?.bind Constraint.ofText?

/-- The version that code points are pinned to, unless they are no constraint. -/
def Constraint.pin (codes : Codes) : Except Fault Codes :=
  match ofCodes? codes with
  | some constraint => .ok (.ofString constraint.version)
  | none => .error (.badConstraint codes)

theorem Constraint.ext {a b : Constraint} (h : a.text = b.text) : a = b := by
  obtain ⟨ta, va, ha⟩ := a
  obtain ⟨tb, vb, hb⟩ := b
  cases h
  cases Option.some.inj (ha.symm.trans hb)
  rfl

end ElmSuite
