import ElmSuite.Number.Whole
import ElmSuite.Text.Codes

/-!
Why a scalar of a YAML text has no value.  Such a fault is none of the text as a document, so it is
told in its own words and not as bad YAML.
-/

namespace ElmSuite.Yaml

/-- Why a scalar has no value. -/
inductive ScalarFault
  /-- An escape names a code point behind the last one. -/
  | noCodePoint
  /-- An escape names a number that does not fit a code point by far. -/
  | codeOverflow
  /-- A text is no whole number of a base. -/
  | badWhole (base : Nat) (text : Codes)
  /-- A whole number has more digits than are read. -/
  | tooManyDigits (count : Nat)
  /-- A text is no floating point number. -/
  | badFloat (text : Codes)
  /-- A part of a floating point number in base sixty has a place without a value. -/
  | unitOverflow
  /-- A number has no characters. -/
  | noDigits
  /-- A text in lower case is no word for truth or falsehood. -/
  | badTruth (text : Codes)
  /-- A text is no timestamp. -/
  | noTimestamp
  /-- A timestamp is written as a mapping. -/
  | nestedTimestamp
  /-- A timestamp is in no calendar or on no clock. -/
  | badTimestamp (words : String)
  /-- A scalar stands for itself. -/
  | endless
deriving DecidableEq, Repr

/-- The number of characters of a quoted text that a message about a whole number shows. -/
def quoteLimit : Nat := 200

/-- The words for a fault. -/
def ScalarFault.message : ScalarFault → String
  | .noCodePoint => "chr() arg not in range(0x110000)"
  | .codeOverflow => "Python int too large to convert to C int"
  | .badWhole base text =>
      "invalid literal for int() with base " ++ toString base ++ ": " ++
        String.ofList (text.quoted.toList.take quoteLimit)
  | .tooManyDigits count => Whole.tooManyDigits count
  | .badFloat text => "could not convert string to float: " ++ text.quoted
  | .unitOverflow => "int too large to convert to float"
  | .noDigits => "string index out of range"
  | .badTruth text => text.quoted
  | .noTimestamp => "'NoneType' object has no attribute 'groupdict'"
  | .nestedTimestamp => "expected string or bytes-like object, got 'list'"
  | .badTimestamp words => words
  | .endless => "maximum recursion depth exceeded"

end ElmSuite.Yaml
