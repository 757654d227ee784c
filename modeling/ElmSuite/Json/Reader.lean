import ElmSuite.Json.Value
import ElmSuite.Number.Whole

/-!
The reading of JSON text, character by character.  Numbers without a fraction keep their exact
value, `NaN` and the infinities are numbers, and a string may hold half of a surrogate pair.  The
first fault is reported with its line, its column and its position.
-/

namespace ElmSuite.Json

/-- Why a text is no JSON. -/
inductive ReadFault
  | expectingValue
  | expectingName
  | expectingColon
  | expectingComma
  | unterminatedString
  | controlCharacter
  | invalidEscape
  | invalidUnicodeEscape
  | extraData
  | byteOrderMark
  /-- A whole number has more digits than are read. -/
  | tooManyDigits (count : Nat)
  /-- An object or a list stands inside too many others. -/
  | tooDeep (isObject : Bool)
deriving DecidableEq, Repr

/-- The message for an object or a list inside too many others. -/
def tooDeep (isObject : Bool) : String :=
  "maximum recursion depth exceeded while decoding a JSON " ++
    (if isObject then "object" else "array") ++ " from a unicode string"

/-- The words for a fault. -/
def ReadFault.words : ReadFault → String
  | .expectingValue => "Expecting value"
  | .expectingName => "Expecting property name enclosed in double quotes"
  | .expectingColon => "Expecting ':' delimiter"
  | .expectingComma => "Expecting ',' delimiter"
  | .unterminatedString => "Unterminated string starting at"
  | .controlCharacter => "Invalid control character at"
  | .invalidEscape => "Invalid \\escape"
  | .invalidUnicodeEscape => "Invalid \\uXXXX escape"
  | .extraData => "Extra data"
  | .byteOrderMark => "Unexpected UTF-8 BOM (decode using utf-8-sig)"
  | .tooManyDigits count => Whole.tooManyDigits count
  | .tooDeep isObject => Json.tooDeep isObject

/-- A fault before the last `left` characters of a text. -/
structure ReadDefect where
  fault : ReadFault
  left : Nat
deriving DecidableEq, Repr

/-- The result of a reading step: a value and the rest of the text. -/
abbrev Reading (α : Type) := Except ReadDefect (α × List Char)

/-- A fault in front of a text. -/
def faultAt {α : Type} (fault : ReadFault) (rest : List Char) : Except ReadDefect α :=
  .error ⟨fault, rest.length⟩

/-- A character that may stand between the parts of a value. -/
def isSpace (c : Char) : Bool :=
  c == ' ' || c == '\t' || c == '\n' || c == '\r'

/-- The rest of a text after white space. -/
def skipSpace (text : List Char) : List Char :=
  text.dropWhile isSpace

/-- The code point that a letter after a backslash stands for. -/
def escapedCode? (c : Char) : Option Nat :=
  if c = '"' ∨ c = '\\' ∨ c = '/' then some c.toNat
  else if c = 'b' then some 8
  else if c = 'f' then some 12
  else if c = 'n' then some 10
  else if c = 'r' then some 13
  else if c = 't' then some 9
  else none

/-- The number that four hexadecimal digits denote. -/
def hexCode? (a b c d : Char) : Option Nat :=
  ([a, b, c, d].mapM (Text.digitValue? 16)).map (Text.ofDigits 16)

/-- The first half of a surrogate pair. -/
def isHighSurrogate (code : Nat) : Bool :=
  0xD800 ≤ code && code ≤ 0xDBFF

/-- The second half of a surrogate pair. -/
def isLowSurrogate (code : Nat) : Bool :=
  0xDC00 ≤ code && code ≤ 0xDFFF

/-- The code point of a surrogate pair. -/
def joinSurrogates (high low : Nat) : Nat :=
  0x10000 + (high - 0xD800) * 0x400 + (low - 0xDC00)

/-- Adds a code point in front of what the rest of a string holds. -/
def consCode (code : Nat) (rest : Reading Codes) : Reading Codes :=
  rest.map fun (codes, after) => (code :: codes, after)

/-- The code point that the first half of a surrogate pair makes with the escape that follows it, if
the second half does follow and something else after it. -/
def pairedCode? (high : Nat) : List Char → Except ReadDefect (Option Nat)
  | '\\' :: 'u' :: a :: b :: c :: d :: _ :: rest =>
      if isHighSurrogate high then
        match hexCode? a b c d with
        | none => .error ⟨.invalidUnicodeEscape, rest.length + 6⟩
        | some low => .ok (if isLowSurrogate low then some (joinSurrogates high low) else none)
      else .ok none
  | _ => .ok none

/-- The rest of a string whose opening quote has `opened` characters after and including it, up to
its closing quote.  An escape with four digits needs something after it. -/
def readString (opened : Nat) : List Char → Reading Codes
  | [] => .error ⟨.unterminatedString, opened⟩
  | '"' :: rest => .ok ([], rest)
  | ['\\'] => .error ⟨.unterminatedString, opened⟩
  | '\\' :: 'u' :: rest =>
      match rest with
      | a :: b :: c :: d :: more =>
          match if more.isEmpty then none else hexCode? a b c d with
          | some code =>
              match pairedCode? code more with
              | .error defect => .error defect
              | .ok none => consCode code (readString opened more)
              | .ok (some joined) =>
                  match more with
                  | _ :: _ :: _ :: _ :: _ :: _ :: others =>
                      consCode joined (readString opened others)
                  | _ => .error ⟨.unterminatedString, opened⟩
          | none => faultAt .invalidUnicodeEscape ('u' :: rest)
      | _ => faultAt .invalidUnicodeEscape ('u' :: rest)
  | '\\' :: c :: rest =>
      match escapedCode? c with
      | some code => consCode code (readString opened rest)
      | none => faultAt .invalidEscape ('\\' :: c :: rest)
  | c :: rest =>
      if c.toNat < 0x20 then faultAt .controlCharacter (c :: rest)
      else consCode c.toNat (readString opened rest)

/-- The digits that a text starts with, and the rest. -/
def spanDigits (text : List Char) : List Char × List Char :=
  (text.takeWhile Text.isAsciiDigit, text.dropWhile Text.isAsciiDigit)

/-- The number that decimal digits denote. -/
def digitsValue (digits : List Char) : Nat :=
  Text.ofDigits 10 (digits.map fun c => c.toNat - '0'.toNat)

/-- The fraction that a text starts with: its digits and the rest.  A point without digits is
left. -/
def readFraction : List Char → List Char × List Char
  | '.' :: rest =>
      match spanDigits rest with
      | ([], _) => ([], '.' :: rest)
      | found => found
  | rest => ([], rest)

/-- The exponent that a text starts with, and the rest.  A letter without digits is left. -/
def readExponent (text : List Char) : Option Int × List Char :=
  match text with
  | letter :: rest =>
      if letter = 'e' ∨ letter = 'E' then
        let (negative, digits) : Bool × List Char := match rest with
          | '-' :: digits => (true, digits)
          | '+' :: digits => (false, digits)
          | digits => (false, digits)
        match spanDigits digits with
        | ([], _) => (none, text)
        | (found, after) =>
            (some (if negative then -(digitsValue found : Int) else digitsValue found), after)
      else (none, text)
  | [] => (none, text)

/-- The digits before the point: a zero stands alone. -/
def readWhole? : List Char → Option (List Char × List Char)
  | '0' :: rest => some (['0'], rest)
  | text =>
      match spanDigits text with
      | ([], _) => none
      | found => some found

/-- The number that a text starts with, if there is one. -/
def readNumber? (text : List Char) : Option (Reading Json) := do
  let (negative, unsigned) : Bool × List Char := match text with
    | '-' :: rest => (true, rest)
    | rest => (false, rest)
  let (whole, afterWhole) ← readWhole? unsigned
  let (fraction, afterFraction) := readFraction afterWhole
  let (exponent?, rest) := readExponent afterFraction
  if fraction.isEmpty && exponent?.isNone then
    if Whole.digitLimit < whole.length then return faultAt (.tooManyDigits whole.length) text
    else return .ok (.int (Whole.withSign negative (digitsValue whole)), rest)
  else
    let digits := digitsValue (whole ++ fraction)
    return .ok (.float (.ofDecimal negative digits (exponent?.getD 0 - fraction.length)), rest)

/-- The rest of a text after a fixed word. -/
def afterWord? (word : String) (text : List Char) : Option (List Char) :=
  if word.toList.isPrefixOf text then some (text.drop word.length) else none

/-- The words that are values. -/
def wordValues : List (String × Json) :=
  [ ("null", .null), ("true", .bool true), ("false", .bool false), ("NaN", .float .nan)
  , ("Infinity", .float (.infinite false)), ("-Infinity", .float (.infinite true)) ]

/-- The word or number that a text starts with. -/
def readAtom (text : List Char) : Reading Json :=
  let word? := wordValues.findSome? fun (word, value) =>
    (afterWord? word text).map fun rest => (value, rest)
  match word? with
  | some found => .ok found
  | none =>
      match readNumber? text with
      | some found => found
      | none => faultAt .expectingValue text

/-- The number of objects and lists that may stand inside each other. -/
def depthLimit : Nat := 990

mutual

/-- The value that a text starts with, with `depth` levels left; `fuel` bounds the number of values
and parts. -/
def readValue : Nat → Nat → List Char → Reading Json
  | 0, _, text => faultAt .expectingValue text
  | fuel + 1, depth, text =>
      match text with
      | '"' :: rest =>
          (readString text.length rest).map fun (codes, after) => (.string codes, after)
      | '\x7b' :: rest =>
          if depth = 0 then faultAt (.tooDeep true) text
          else
            match skipSpace rest with
            | '\x7d' :: after => .ok (.object [], after)
            | first => readMembers fuel (depth - 1) [] first
      | '[' :: rest =>
          if depth = 0 then faultAt (.tooDeep false) text
          else
            match skipSpace rest with
            | ']' :: after => .ok (.list [], after)
            | first => readItems fuel (depth - 1) [] first
      | _ => readAtom text

/-- The items of a list from one of them on, after the items `found`, reversed. -/
def readItems : Nat → Nat → List Json → List Char → Reading Json
  | 0, _, _, text => faultAt .expectingValue text
  | fuel + 1, depth, found, text =>
      match readValue fuel depth text with
      | .error defect => .error defect
      | .ok (item, rest) =>
          match skipSpace rest with
          | ']' :: after => .ok (.list (item :: found).reverse, after)
          | ',' :: next => readItems fuel depth (item :: found) (skipSpace next)
          | other => faultAt .expectingComma other

/-- The members of an object from one of them on, after the members `found`. -/
def readMembers : Nat → Nat → List (Codes × Json) → List Char → Reading Json
  | 0, _, _, text => faultAt .expectingName text
  | fuel + 1, depth, found, text =>
      match text with
      | '"' :: rest =>
          match readString text.length rest with
          | .error defect => .error defect
          | .ok (name, afterName) =>
              match skipSpace afterName with
              | ':' :: beforeValue =>
                  match readValue fuel depth (skipSpace beforeValue) with
                  | .error defect => .error defect
                  | .ok (value, afterValue) =>
                      let members := putPair name value found
                      match skipSpace afterValue with
                      | '\x7d' :: after => .ok (.object members, after)
                      | ',' :: next => readMembers fuel depth members (skipSpace next)
                      | other => faultAt .expectingComma other
              | other => faultAt .expectingColon other
      | _ => faultAt .expectingName text

end

/-- The value of a whole text. -/
def readText (text : List Char) : Except ReadDefect Json :=
  match text with
  | '\uFEFF' :: _ => faultAt .byteOrderMark text
  | _ =>
      match readValue (2 * text.length + 2) depthLimit (skipSpace text) with
      | .error defect => .error defect
      | .ok (value, rest) =>
          match skipSpace rest with
          | [] => .ok value
          | extra => faultAt .extraData extra

/-- The message for a defect of a text: lines and columns count from one, positions from zero. -/
def ReadDefect.message (text : List Char) (defect : ReadDefect) : String :=
  let position := text.length - defect.left
  let before := text.take position
  let line := before.count '\n' + 1
  let column := (before.reverse.takeWhile (· != '\n')).length + 1
  defect.fault.words ++ ": line " ++ toString line ++ " column " ++ toString column ++
    " (char " ++ toString position ++ ")"

end ElmSuite.Json
