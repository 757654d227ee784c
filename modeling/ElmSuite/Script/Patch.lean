import ElmSuite.Failure
import ElmSuite.Script.Definition
import ElmSuite.Script.IdentityTag

/-!
The patch of compiled code.  It tags every constructor of tests, replaces the placeholder of the
check function by one that looks for the tag, and puts the line in front that makes the symbol.
-/

namespace ElmSuite.Script

open ElmSuite.Text

/-- A piece of compiled code: one character, or the start of a constructor of tests up to and
including the open brace of its record, with the field behind it if it is tagged. -/
inductive Piece
  | char (c : Char)
  | constructor (start : List Char) (tagged : Bool)
deriving DecidableEq, Repr

/-- What follows the field of a tag, if a record starts with it. -/
def afterTag? (tag : IdentityTag) (record : List Char) : Option (List Char) :=
  afterBlanksThen? (tag.field.toList ++ [':']) record

theorem length_getD_afterTag?_le (tag : IdentityTag) (record : List Char) :
    ((afterTag? tag record).getD record).length ≤ record.length := by
  cases h : afterTag? tag record with
  | none => simp
  | some rest =>
      have := length_of_afterBlanksThen? h
      simp only [Option.getD_some]
      omega

/-- The record of the constructor of tests that a text starts with, at the start of a line. -/
def record? (atLineStart : Bool) (text : List Char) : Option (List Char) :=
  if atLineStart then afterVariant? text else none

theorem length_getD_afterTag?_lt (tag : IdentityTag) {atLineStart : Bool} {text record : List Char}
    (h : record? atLineStart text = some record) :
    ((afterTag? tag record).getD record).length < text.length := by
  unfold record? at h
  split at h
  · exact Nat.lt_of_le_of_lt (length_getD_afterTag?_le tag record) (length_of_afterVariant? h)
  · cases h

/-- The pieces of compiled code. -/
def pieces (tag : IdentityTag) (atLineStart : Bool) (text : List Char) : List Piece :=
  match text with
  | [] => []
  | c :: rest =>
      match h : record? atLineStart (c :: rest) with
      | some record =>
          let after := (afterTag? tag record).getD record
          have : after.length < (c :: rest).length := length_getD_afterTag?_lt tag h
          .constructor ((c :: rest).take ((c :: rest).length - after.length))
            (afterTag? tag record).isSome :: pieces tag false after
      | none => .char c :: pieces tag (c == '\n') rest
termination_by text.length
decreasing_by
  · assumption
  · exact Nat.lt_succ_self _

/-- The text of a piece. -/
def Piece.text : Piece → List Char
  | .char c => [c]
  | .constructor start _ => start

/-- The text of a piece with its constructor tagged. -/
def Piece.taggedText (tag : IdentityTag) : Piece → List Char
  | .char c => [c]
  | .constructor start true => start
  | .constructor start false => start ++ tag.fieldText.toList

/-- Whether a piece is a constructor. -/
def Piece.isConstructor : Piece → Bool
  | .char _ => false
  | .constructor _ _ => true

/-- The number of constructors of tests in compiled code. -/
def constructorCount (tag : IdentityTag) (code : List Char) : Nat :=
  (pieces tag true code).countP Piece.isConstructor

/-- The code with every constructor of tests tagged; there has to be one. -/
def tagConstructors (tag : IdentityTag) (code : List Char) : Except Failure (List Char) :=
  if constructorCount tag code = 0 then .error (.patternNotFound "the Test variant definitions")
  else .ok ((pieces tag true code).flatMap (Piece.taggedText tag))

/-- The code before the first placeholder definition together with its left-hand side, and what
follows the definition. -/
def splitPlaceholder? : Bool → List Char → Option (List Char × List Char)
  | _, [] => none
  | atLineStart, c :: rest =>
      let here : Option (List Char × List Char) :=
        if atLineStart then do
          let value ← afterCheckName? (c :: rest)
          let after ← afterPlaceholder? value
          return ((c :: rest).take ((c :: rest).length - value.length), after)
        else none
      match here with
      | some found => some found
      | none => (splitPlaceholder? (c == '\n') rest).map fun (before, after) => (c :: before, after)

/-- Whether some line of the code defines a check function that looks for a field. -/
def hasPatchedCheck (field : List Char) : Bool → List Char → Bool
  | _, [] => false
  | atLineStart, c :: rest =>
      (atLineStart && isPatchedCheck field (c :: rest)) || hasPatchedCheck field (c == '\n') rest

/-- The code with the first placeholder definition replaced by the check function.  Without one, the
check function has to be in place. -/
def replaceCheck (tag : IdentityTag) (code : List Char) : Except Failure (List Char) :=
  match splitPlaceholder? true code with
  | some (before, after) => .ok (before ++ " = ".toList ++ tag.checkFunction.toList ++ after)
  | none =>
      if hasPatchedCheck tag.field.toList true code then .ok code
      else .error (.patternNotFound "the check function definition")

/-- The code with the line in front that makes the symbol, unless it starts with it. -/
def allocateSymbol (tag : IdentityTag) (code : List Char) : List Char :=
  let line := tag.allocationLine.toList
  if line.isPrefixOf code then code else line ++ '\n' :: code

/-- The whole patch. -/
def patch (tag : IdentityTag) (code : List Char) : Except Failure (List Char) := do
  return allocateSymbol tag (← replaceCheck tag (← tagConstructors tag code))

end ElmSuite.Script
