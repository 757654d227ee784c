import ElmSuite.Text.Printable

/-!
Text in quotes, as error messages show it.  The mark is the single quote unless the text holds one
and no double quote; the mark itself, the backslash and everything without a visible form are
escaped.
-/

namespace ElmSuite.Text

/-- The digit of a value below sixteen, in lower case. -/
def hexDigit (value : Nat) : Char :=
  if value < 10 then Char.ofNat ('0'.toNat + value) else Char.ofNat ('a'.toNat + (value - 10))

/-- The lowest `width` hexadecimal digits of a number. -/
def hexDigits : Nat → Nat → List Char
  | 0, _ => []
  | width + 1, value => hexDigits width (value / 16) ++ [hexDigit (value % 16)]

/-- The escape of a code point: two, four or eight digits, whichever is the first to hold it. -/
def codeEscape (code : Nat) : List Char :=
  if code < 0x100 then '\\' :: 'x' :: hexDigits 2 code
  else if code < 0x10000 then '\\' :: 'u' :: hexDigits 4 code
  else '\\' :: 'U' :: hexDigits 8 code

/-- One code point inside quotes of the kind `mark`. -/
def quotedCode (mark : Char) (code : Nat) : List Char :=
  if code = mark.toNat ∨ code = '\\'.toNat then ['\\', Char.ofNat code]
  else if code = '\n'.toNat then ['\\', 'n']
  else if code = '\r'.toNat then ['\\', 'r']
  else if code = '\t'.toNat then ['\\', 't']
  else if isPrintable code then [Char.ofNat code]
  else codeEscape code

/-- The mark around a text of these code points. -/
def quoteMark (codes : List Nat) : Char :=
  if codes.contains '\''.toNat && !codes.contains '"'.toNat then '"' else '\''

/-- A sequence of code points in quotes; surrogates, which no text holds, are escaped. -/
def quoteCodes (codes : List Nat) : String :=
  let mark := quoteMark codes
  String.ofList (mark :: (codes.flatMap (quotedCode mark) ++ [mark]))

/-- Bytes in quotes; those that are no characters of ASCII are escaped. -/
def quoteBytes (bytes : List UInt8) : String :=
  let codes := bytes.map UInt8.toNat
  let mark := quoteMark codes
  let shown (code : Nat) : List Char :=
    if code < 0x80 then quotedCode mark code else codeEscape code
  String.ofList ('b' :: mark :: (codes.flatMap shown ++ [mark]))

/-- A text in quotes. -/
def quote (text : String) : String :=
  quoteCodes (text.toList.map Char.toNat)

/-- Characters that a command word may hold without quotes. -/
def isPlainWordChar (c : Char) : Bool :=
  ('a' ≤ c && c ≤ 'z') || ('A' ≤ c && c ≤ 'Z') || ('0' ≤ c && c ≤ '9') ||
    "_@%+=:,./-".toList.contains c

/-- A word of a command line, in single quotes when it holds anything that needs them; a single
quote inside is written by closing the quotes, quoting it alone and opening them again. -/
def shellWord (word : String) : String :=
  let chars := word.toList
  if chars.isEmpty then "''"
  else if chars.all isPlainWordChar then word
  else
    let escaped := chars.flatMap fun c => if c == '\'' then "'\"'\"'".toList else [c]
    String.ofList ('\'' :: (escaped ++ ['\'']))

/-- A command as one line. -/
def shellLine (words : List String) : String :=
  " ".intercalate (words.map shellWord)

end ElmSuite.Text
