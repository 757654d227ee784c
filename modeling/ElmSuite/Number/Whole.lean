import ElmSuite.Text.Blank
import ElmSuite.Text.Digits
import ElmSuite.Text.Quoted

/-!
Whole numbers as people write them: a sign, the mark of a base, and digits of any script that may be
grouped by single underscores.
-/

namespace ElmSuite.Whole

/-- The greatest number of digits of a number that is read from base ten. -/
def digitLimit : Nat := 4300

/-- The message for a number with too many digits. -/
def tooManyDigits (count : Nat) : String :=
  "Exceeds the limit (" ++ toString digitLimit ++
    " digits) for integer string conversion: value has " ++ toString count ++
    " digits; use sys.set_int_max_str_digits() to increase the limit"

/-- Why a text is no whole number. -/
inductive Fault
  | malformed
  | tooManyDigits (count : Nat)
deriving DecidableEq, Repr

/-- The value of a digit of some base: a decimal digit of any script, or a letter of ASCII. -/
def digitValue? (base : Nat) (c : Char) : Option Nat :=
  match Text.decimalValue? c with
  | some value => if value < base then some value else none
  | none => Text.digitValue? base c

/-- The values of the digits that a text starts with, at least one, and what follows them.  A single
underscore may stand between two digits; `afterDigit` says whether a digit comes before. -/
def digits? (base : Nat) : Bool → List Char → Option (List Nat × List Char)
  | afterDigit, [] => if afterDigit then some ([], []) else none
  | true, '_' :: rest => digits? base false rest
  | afterDigit, c :: rest =>
      match digitValue? base c with
      | some value => (digits? base true rest).map fun (more, last) => (value :: more, last)
      | none => if afterDigit then some ([], c :: rest) else none

/-- A sign and what follows it. -/
def signed (text : List Char) : Bool × List Char :=
  match text with
  | '-' :: rest => (true, rest)
  | '+' :: rest => (false, rest)
  | rest => (false, rest)

/-- A number with a sign. -/
def withSign (negative : Bool) (value : Nat) : Int :=
  if negative then -value else value

/-- White space around a number.  The separators U+001C to U+001F do not count. -/
def isBlank (c : Char) : Bool :=
  Text.isBlank c && !('\x1c' ≤ c && c ≤ '\x1f')

/-- A text without the white space around a number. -/
def trim (text : List Char) : List Char :=
  ((text.dropWhile isBlank).reverse.dropWhile isBlank).reverse

/-- The letters that mark a base behind a zero; base ten has none. -/
def markOf : Nat → List Char
  | 2 => ['b', 'B']
  | 8 => ['o', 'O']
  | 16 => ['x', 'X']
  | _ => []

/-- A text without the mark of a base, behind which an underscore may stand. -/
def withoutMark (base : Nat) (text : List Char) : List Char :=
  match text with
  | '0' :: letter :: rest =>
      if (markOf base).contains letter then
        match rest with
        | '_' :: digits => digits
        | digits => digits
      else text
  | _ => text

/-- The whole number that a text writes in a base, with white space around it.  Too many digits in
base ten are refused before anything behind them is looked at. -/
def ofText (base : Nat) (text : List Char) : Except Fault Int :=
  let (negative, body) := signed (text.dropWhile isBlank)
  match digits? base false (withoutMark base body) with
  | some (values, rest) =>
      if (markOf base).isEmpty && digitLimit < values.length then
        .error (.tooManyDigits values.length)
      else if rest.all isBlank then .ok (withSign negative (Text.ofDigits base values))
      else .error .malformed
  | none => .error .malformed

/-- The whole number that a text writes in base ten. -/
def ofText? (text : List Char) : Option Int :=
  (ofText 10 text).toOption

end ElmSuite.Whole
