import ElmSuite.Json.Outline
import ElmSuite.Json.Reader
import ElmSuite.Text.Utf8

/-!
The reading of the outline of a JSON text, byte by byte.  Strings have to be text, so half of a
surrogate pair is a fault.  The first fault is reported with its line and with the number of bytes
up to it in that line.
-/

namespace ElmSuite.Outline

/-- Why bytes are no JSON. -/
inductive ByteFault
  | endInValue
  | endInList
  | endInObject
  | endInString
  | expectedValue
  | expectedWord
  | expectedColon
  | expectedListEnd
  | expectedObjectEnd
  | invalidNumber
  | numberTooLong
  | trailingComma
  | trailingCharacters
  | nameNoString
  | invalidEscape
  | endOfEscape
  | loneSurrogate
  | controlCharacter
  | tooDeep
deriving DecidableEq, Repr

/-- The words for a fault. -/
def ByteFault.words : ByteFault → String
  | .endInValue => "EOF while parsing a value"
  | .endInList => "EOF while parsing a list"
  | .endInObject => "EOF while parsing an object"
  | .endInString => "EOF while parsing a string"
  | .expectedValue => "expected value"
  | .expectedWord => "expected ident"
  | .expectedColon => "expected \x60:\x60"
  | .expectedListEnd => "expected \x60,\x60 or \x60]\x60"
  | .expectedObjectEnd => "expected \x60,\x60 or \x60\x7d\x60"
  | .invalidNumber => "invalid number"
  | .numberTooLong => "number out of range"
  | .trailingComma => "trailing comma"
  | .trailingCharacters => "trailing characters"
  | .nameNoString => "key must be a string"
  | .invalidEscape => "invalid escape"
  | .endOfEscape => "unexpected end of hex escape"
  | .loneSurrogate => "lone leading surrogate in hex escape"
  | .controlCharacter => "control character (\\u0000-\\u001F) found while parsing a string"
  | .tooDeep => "recursion limit exceeded"

/-- A fault before the last `left` bytes. -/
structure ByteDefect where
  fault : ByteFault
  left : Nat
deriving DecidableEq, Repr

/-- The bytes that are left to read. -/
abbrev Bytes := List UInt8

/-- The byte of an ASCII character. -/
def byte (c : Char) : UInt8 :=
  c.toNat.toUInt8

/-- A fault in front of bytes. -/
def faultAt {α : Type} (fault : ByteFault) (rest : Bytes) : Except ByteDefect α :=
  .error ⟨fault, rest.length⟩

/-- A byte that may stand between the parts of a value. -/
def isSpace (b : UInt8) : Bool :=
  b == byte ' ' || b == byte '\t' || b == byte '\n' || b == byte '\r'

/-- The bytes after white space. -/
def skipSpace (bytes : Bytes) : Bytes :=
  bytes.dropWhile isSpace

/-- A decimal digit. -/
def isDigit (b : UInt8) : Bool :=
  byte '0' ≤ b && b ≤ byte '9'

/-- The mark in front of an exponent. -/
def isExponentMark (b : UInt8) : Bool :=
  b == byte 'e' || b == byte 'E'

/-- The bytes after a fixed word, whose first character is read already. -/
def afterWord : List Char → Bytes → Except ByteDefect Bytes
  | [], rest => .ok rest
  | _ :: _, [] => faultAt .endInValue []
  | c :: word, b :: rest =>
      if b = byte c then afterWord word rest else faultAt .expectedWord (b :: rest)

/-- The bytes after digits, of which there has to be one. -/
def afterDigits : Bytes → Except ByteDefect Bytes
  | [] => faultAt .endInValue []
  | b :: rest =>
      if isDigit b then .ok (rest.dropWhile isDigit) else faultAt .invalidNumber (b :: rest)

/-- The bytes after an exponent whose mark is read already. -/
def afterExponent : Bytes → Except ByteDefect Bytes
  | [] => faultAt .endInValue []
  | b :: rest =>
      if b = byte '-' ∨ b = byte '+' then afterDigits rest else afterDigits (b :: rest)

/-- The bytes after an exponent, if there is one. -/
def afterExponentPart : Bytes → Except ByteDefect Bytes
  | [] => .ok []
  | b :: rest => if isExponentMark b then afterExponent rest else .ok (b :: rest)

/-- The bytes after the fraction and the exponent of a number. -/
def afterFractionPart : Bytes → Except ByteDefect Bytes
  | [] => .ok []
  | b :: rest =>
      if b = byte '.' then
        match afterDigits rest with
        | .ok after => afterExponentPart after
        | .error defect => .error defect
      else afterExponentPart (b :: rest)

/-- The greatest number of digits in front of the fraction or exponent of a number. -/
def digitLimit : Nat := 4300

/-- The bytes after a number without its sign.  A zero that starts a number stands alone. -/
def afterUnsigned : Bytes → Except ByteDefect Bytes
  | [] => faultAt .endInValue []
  | b :: rest =>
      if b = byte '0' then
        match rest with
        | next :: _ => if isDigit next then faultAt .invalidNumber rest else afterFractionPart rest
        | [] => .ok []
      else if b = byte 'I' then afterWord "nfinity".toList rest
      else if isDigit b then
        let after := rest.dropWhile isDigit
        if digitLimit ≤ rest.length - after.length then
          .error ⟨.numberTooLong, rest.length - digitLimit⟩
        else afterFractionPart after
      else faultAt .invalidNumber (b :: rest)

/-- The number that four hexadecimal digits denote; their bytes have to be there before they are
looked at. -/
def readHex : Bytes → Except ByteDefect (Nat × Bytes)
  | a :: b :: c :: d :: rest =>
      let value? (x : UInt8) : Option Nat := Text.digitValue? 16 (Char.ofNat x.toNat)
      match value? a, value? b, value? c, value? d with
      | some va, some vb, some vc, some vd => .ok (Text.ofDigits 16 [va, vb, vc, vd], rest)
      | none, _, _, _ => faultAt .invalidEscape (a :: b :: c :: d :: rest)
      | _, none, _, _ => faultAt .invalidEscape (b :: c :: d :: rest)
      | _, _, none, _ => faultAt .invalidEscape (c :: d :: rest)
      | _, _, _, none => faultAt .invalidEscape (d :: rest)
  | _ => faultAt .endInString []

/-- The character of an escape with four digits, or of two such escapes that make a surrogate
pair. -/
def readUnicode (bytes : Bytes) : Except ByteDefect (Char × Bytes) := do
  let (code, rest) ← readHex bytes
  if Json.isLowSurrogate code then .error ⟨.loneSurrogate, rest.length + 1⟩
  else if Json.isHighSurrogate code then
    match rest with
    | slash :: letter :: digits =>
        if slash = byte '\\' then
          if letter = byte 'u' then
            let (low, after) ← readHex digits
            if Json.isLowSurrogate low then
              .ok (Char.ofNat (Json.joinSurrogates code low), after)
            else .error ⟨.loneSurrogate, after.length + 1⟩
          else faultAt .endOfEscape (letter :: digits)
        else faultAt .endOfEscape rest
    | [only] => if only = byte '\\' then faultAt .endInString [] else faultAt .endOfEscape rest
    | [] => faultAt .endInString []
  else .ok (Char.ofNat code, rest)

/-- Adds bytes in front of what the rest of a string holds. -/
def consBytes (front : Bytes) (rest : Except ByteDefect (Bytes × Bytes)) :
    Except ByteDefect (Bytes × Bytes) :=
  rest.map fun (inside, after) => (front ++ inside, after)

/-- The rest of a string of at most `bound` bytes up to its closing quote, as the bytes of its
text. -/
def readString : Nat → Bytes → Except ByteDefect (Bytes × Bytes)
  | 0, _ => faultAt .endInString []
  | _, [] => faultAt .endInString []
  | bound + 1, b :: rest =>
      if b = byte '"' then .ok ([], rest)
      else if b = byte '\\' then
        match rest with
        | [] => faultAt .endInString []
        | e :: more =>
            if e = byte 'u' then
              match readUnicode more with
              | .ok (c, after) => consBytes (String.utf8EncodeChar c) (readString bound after)
              | .error defect => .error defect
            else
              match Json.escapedCode? (Char.ofNat e.toNat) with
              | some code => consBytes [code.toUInt8] (readString bound more)
              | none => faultAt .invalidEscape rest
      else if b < 0x20 then faultAt .controlCharacter (b :: rest)
      else consBytes [b] (readString bound rest)

/-- The text of a string whose opening quote is read already. -/
def readText (bytes : Bytes) : Except ByteDefect (Codes × Bytes) :=
  (readString (bytes.length + 1) bytes).map fun (inside, after) =>
    (.ofChars ((Text.Utf8.decode inside).toOption.getD []), after)

/-- The name of a member and the bytes after its colon; the quote is read already. -/
def readName (bytes : Bytes) : Except ByteDefect (Codes × Bytes) := do
  let (name, rest) ← readText bytes
  match skipSpace rest with
  | [] => faultAt .endInObject []
  | b :: after => if b = byte ':' then .ok (name, after) else faultAt .expectedColon (b :: after)

/-- A number or word, of which only the end matters. -/
def readOther : Bytes → Except ByteDefect (Outline × Bytes)
  | [] => faultAt .endInValue []
  | b :: rest =>
      let after :=
        if b = byte 't' then afterWord "rue".toList rest
        else if b = byte 'f' then afterWord "alse".toList rest
        else if b = byte 'n' then afterWord "ull".toList rest
        else if b = byte 'N' then afterWord "aN".toList rest
        else if b = byte '-' then afterUnsigned rest
        else if isDigit b || b == byte 'I' then afterUnsigned (b :: rest)
        else faultAt .expectedValue (b :: rest)
      after.map fun rest => (.other, rest)

/-- The greatest number of lists and objects inside each other. -/
def depthLimit : Nat := 200

mutual

/-- The outline that bytes without white space in front start with, with `depth` levels left; `fuel`
bounds the number of values and parts. -/
def readValue : Nat → Nat → Bytes → Except ByteDefect (Outline × Bytes)
  | 0, _, bytes => faultAt .endInValue bytes
  | fuel + 1, depth, bytes =>
      match bytes with
      | [] => faultAt .endInValue []
      | b :: rest =>
          if b = byte '"' then
            (readText rest).map fun (value, after) => (.text value, after)
          else if b = byte '[' then
            match skipSpace rest with
            | [] => faultAt .endInList []
            | next :: after =>
                if next = byte ']' then .ok (.list [], after)
                else if depth = 0 then faultAt .tooDeep (next :: after)
                else readItems fuel (depth - 1) [] (next :: after)
          else if b = byte '\x7b' then
            match skipSpace rest with
            | [] => faultAt .endInObject []
            | next :: after =>
                if next = byte '\x7d' then .ok (.object [], after)
                else if next = byte '"' then readMembers fuel depth [] after
                else faultAt .nameNoString (next :: after)
          else readOther (b :: rest)

/-- The items of a list from one of them on, after the items `found`, reversed. -/
def readItems : Nat → Nat → List Outline → Bytes → Except ByteDefect (Outline × Bytes)
  | 0, _, _, bytes => faultAt .endInValue bytes
  | fuel + 1, depth, found, bytes =>
      match readValue fuel depth bytes with
      | .error defect => .error defect
      | .ok (item, rest) =>
          match skipSpace rest with
          | [] => faultAt .endInList []
          | b :: after =>
              if b = byte ']' then .ok (.list (item :: found).reverse, after)
              else if b = byte ',' then
                match skipSpace after with
                | [] => faultAt .endInValue []
                | next :: more =>
                    if next = byte ']' then faultAt .trailingComma (next :: more)
                    else readItems fuel depth (item :: found) (next :: more)
              else faultAt .expectedListEnd (b :: after)

/-- The members of an object from one of them on, whose opening quote is read already, after the
members `found`, reversed. -/
def readMembers : Nat → Nat → List (Codes × Outline) → Bytes → Except ByteDefect (Outline × Bytes)
  | 0, _, _, bytes => faultAt .endInValue bytes
  | fuel + 1, depth, found, bytes =>
      match readName bytes with
      | .error defect => .error defect
      | .ok (name, beforeValue) =>
          if found.isEmpty && depth = 0 then faultAt .tooDeep beforeValue
          else
            match readValue fuel (depth - 1) (skipSpace beforeValue) with
            | .error defect => .error defect
            | .ok (value, rest) =>
                let members := (name, value) :: found
                match skipSpace rest with
                | [] => faultAt .endInObject []
                | b :: after =>
                    if b = byte '\x7d' then .ok (.object members.reverse, after)
                    else if b = byte ',' then
                      match skipSpace after with
                      | [] => faultAt .endInValue []
                      | next :: more =>
                          if next = byte '"' then readMembers fuel depth members more
                          else if next = byte '\x7d' then faultAt .trailingComma (next :: more)
                          else faultAt .nameNoString (next :: more)
                    else faultAt .expectedObjectEnd (b :: after)

end

/-- The outline of all bytes. -/
def readBytes (bytes : Bytes) : Except ByteDefect Outline :=
  match skipSpace bytes with
  | [] => faultAt .endInValue []
  | start =>
      match readValue (2 * bytes.length + 2) depthLimit start with
      | .error defect => .error defect
      | .ok (outline, rest) =>
          match skipSpace rest with
          | [] => .ok outline
          | extra => faultAt .trailingCharacters extra

/-- The message for a defect.  Lines count from one; a line end counts as the byte zero of the next
line, and the end of the bytes as the byte before it. -/
def ByteDefect.message (bytes : Bytes) (defect : ByteDefect) : String :=
  let position := bytes.length - defect.left
  let through := bytes.take (position + 1)
  let line := through.count (byte '\n') + 1
  let column := (through.reverse.takeWhile (· != byte '\n')).length
  defect.fault.words ++ " at line " ++ toString line ++ " column " ++ toString column

end ElmSuite.Outline
