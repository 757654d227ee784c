import ElmSuite.Json.Value
import ElmSuite.Yaml.Construction

/-!
Values that are given for settings, whatever they come from, and how they are taken as texts and
whole numbers.
-/

namespace ElmSuite

/-- A value that is given for a setting. -/
inductive Given
  | text (codes : Codes)
  | bytes (content : List UInt8)
  | truth (value : Bool)
  | whole (value : Int)
  | number (value : Binary64)
  | other
deriving DecidableEq, Repr

namespace Given

/-- A value of a YAML document as a given value. -/
def ofYaml : Yaml.Value → Given
  | .string codes => .text codes
  | .binary content => .bytes content
  | .bool value => .truth value
  | .int value => .whole value
  | .float value => .number value
  | .notNumber _ => .number .nan
  | _ => .other

/-- A JSON value as a given value, unless it is null. -/
def ofJson? : Json → Option Given
  | .null => none
  | .bool value => some (.truth value)
  | .int value => some (.whole value)
  | .float value => some (.number value)
  | .string codes => some (.text codes)
  | .list _ => some .other
  | .object _ => some .other

/-- Why a given value is not taken. -/
inductive Complaint
  | notText
  | brokenText
  | notWhole
  | unreadableWhole
  | fraction
  | notFinite
  | tooLong
  | below (least : Int)
  | notBelow (bound : Int)
  | unknownName
  | keyNotText
deriving DecidableEq, Repr

/-- The words for a complaint. -/
def Complaint.message : Complaint → String
  | .notText => "Input should be a valid string"
  | .brokenText => "Input should be a valid string, unable to parse raw data as a unicode string"
  | .notWhole => "Input should be a valid integer"
  | .unreadableWhole => "Input should be a valid integer, unable to parse string as an integer"
  | .fraction => "Input should be a valid integer, got a number with a fractional part"
  | .notFinite => "Input should be a finite number"
  | .tooLong => "Unable to parse input string as an integer, exceeded maximum size"
  | .below least => "Input should be greater than or equal to " ++ toString least
  | .notBelow bound => "Input should be less than " ++ toString bound
  | .unknownName => "Extra inputs are not permitted"
  | .keyNotText => "Keys should be strings"

/-- The value as a text; bytes are read as UTF-8. -/
def asText : Given → Except Complaint Codes
  | .text codes => .ok codes
  | .bytes content =>
      match Text.Utf8.decode content with
      | .ok chars => .ok (.ofChars chars)
      | .error _ => .error .brokenText
  | _ => .error .notText

/-- A digit that may start a number of several digits. -/
def isLeadingDigit (c : Char) : Bool :=
  '1' ≤ c && c ≤ '9'

/-- A text without the zeros in front of its number, and without the underscores among them.  A
number that is nothing but zeros keeps the last character, and so does one with a fraction; a hyphen
behind the zeros stays. -/
def withoutLeadingZeros? : List Char → Option (List Char)
  | [] => none
  | '0' :: more =>
      let zeros := '0' :: more.takeWhile fun c => c == '0' || c == '_'
      let last := (zeros.getLast?).toList
      match more.dropWhile fun c => c == '0' || c == '_' with
      | [] => some last
      | c :: rest =>
          if c == '.' then some (last ++ c :: rest)
          else if isLeadingDigit c || c == '-' then some (c :: rest)
          else none
  | c :: rest => if isLeadingDigit c then some (c :: rest) else none

/-- The digits in front of a fraction that holds nothing but zeros, at least one; without a point
the whole text. -/
def withoutZeroFraction (text : List Char) : List Char :=
  match text.dropWhile (· != '.') with
  | _ :: fraction =>
      if !fraction.isEmpty && fraction.all (· == '0') then text.takeWhile (· != '.') else text
  | [] => text

/-- Whether two underscores stand next to each other. -/
def hasDoubleGap : List Char → Bool
  | '_' :: '_' :: _ => true
  | _ :: rest => hasDoubleGap rest
  | [] => false

/-- A text without its underscores, if they are single and inside of it. -/
def withoutGaps (text : List Char) : List Char :=
  if text.head? == some '_' || text.getLast? == some '_' || hasDoubleGap text then text
  else text.filter (· != '_')

/-- The values of the digits of a number, which starts with a zero only if it is zero. -/
def digitsOf? (text : List Char) : Option (List Nat) :=
  match text with
  | [] => none
  | ['0'] => some [0]
  | c :: rest => if isLeadingDigit c then (c :: rest).mapM (Text.digitValue? 10) else none

/-- A number as a text writes it: whether it is below zero, and its digits.  The sign stands in
front of the zeros or, after a plus or nothing, behind them. -/
def numberOf? (text : List Char) : Option (Bool × List Nat) := do
  let (negative, body) := Whole.signed (Whole.trim text)
  match withoutGaps (withoutZeroFraction (← withoutLeadingZeros? body)) with
  | '-' :: digits => if negative then none else (digitsOf? digits).map fun values => (true, values)
  | digits => (digitsOf? digits).map fun values => (negative, values)

/-- The whole number that a text writes, with digits of ASCII in groups and zeros behind a point. -/
def wholeOfText (text : List Char) : Except Complaint Int :=
  match numberOf? text with
  | some (negative, digits) =>
      if digits.length ≤ Whole.digitLimit then
        .ok (Whole.withSign negative (Text.ofDigits 10 digits))
      else .error .tooLong
  | none => .error .unreadableWhole

/-- The whole number that a floating point number is, if 64 bits hold it. -/
def wholeOfNumber (value : Binary64) : Except Complaint Int :=
  match value with
  | .finite _ _ _ =>
      match value.toInt? with
      | some exact => if exact.natAbs < Nat.pow 2 63 then .ok exact else .error .tooLong
      | none => .error .fraction
  | _ => .error .notFinite

/-- The value as a whole number; truth is one, and falsehood zero. -/
def asWhole : Given → Except Complaint Int
  | .truth value => .ok (if value then 1 else 0)
  | .whole value => .ok value
  | .number value => wholeOfNumber value
  | .text codes =>
      match codes.string? with
      | some written => wholeOfText written.toList
      | none => .error .brokenText
  | .bytes content =>
      match Text.Utf8.decode content with
      | .ok chars => wholeOfText chars
      | .error _ => .error .unreadableWhole
  | .other => .error .notWhole

end Given

end ElmSuite
