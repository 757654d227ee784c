import ElmSuite.Text.Reading

/-!
A place in a YAML text: what follows, and the offset, line and column at which it stands.  Line ends
are `\n`, U+0085, U+2028 and U+2029; a carriage return has become one of them before.
-/

namespace ElmSuite.Yaml

/-- A character that ends a line. -/
def isBreak (c : Char) : Bool :=
  c == '\n' || c == '\u0085' || c == '\u2028' || c == '\u2029'

/-- A space or a tab. -/
def isGap (c : Char) : Bool :=
  c == ' ' || c == '\t'

/-- A place in a text. -/
structure Cursor where
  rest : List Char
  offset : Nat := 0
  line : Nat := 0
  column : Nat := 0
deriving Repr

namespace Cursor

/-- The place after one character; a byte order mark takes no column. -/
def next (at_ : Cursor) : Cursor :=
  match at_.rest with
  | [] => at_
  | c :: rest =>
      if isBreak c then ⟨rest, at_.offset + 1, at_.line + 1, 0⟩
      else ⟨rest, at_.offset + 1, at_.line, if c = '\uFEFF' then at_.column else at_.column + 1⟩

/-- The place after a number of characters. -/
def skip : Nat → Cursor → Cursor
  | 0, at_ => at_
  | count + 1, at_ => skip count at_.next

/-- The next character. -/
def peek? (at_ : Cursor) : Option Char :=
  at_.rest.head?

/-- Whether the text has ended or its next character passes a test. -/
def endsOr (at_ : Cursor) (test : Char → Bool) : Bool :=
  at_.rest.head?.all test

/-- Whether the next character is there and passes a test. -/
def nextIs (at_ : Cursor) (test : Char → Bool) : Bool :=
  at_.rest.head?.any test

/-- The longest stretch of characters that pass a test, and the place after it. -/
def span (test : Char → Bool) (at_ : Cursor) : List Char × Cursor :=
  let taken := at_.rest.takeWhile test
  (taken, at_.skip taken.length)

/-- The place after the longest stretch of characters that pass a test. -/
def skipWhile (test : Char → Bool) (at_ : Cursor) : Cursor :=
  (at_.span test).2

/-- The place after spaces, of which only so many are taken that the column stays at most
`limit`. -/
def skipIndent (limit : Nat) (at_ : Cursor) : Cursor :=
  at_.skip (min (limit - at_.column) (at_.rest.takeWhile (· == ' ')).length)

/-- The place after a comment, if one starts here. -/
def skipComment (at_ : Cursor) : Cursor :=
  if at_.peek? = some '#' then at_.skipWhile fun c => !isBreak c else at_

/-- What a line end stands for in a text, if the next character is one, and the place after it. -/
def lineBreak? (at_ : Cursor) : Option (Char × Cursor) :=
  match at_.peek? with
  | some c => if isBreak c then some (if c = '\u0085' then '\n' else c, at_.next) else none
  | none => none

/-- Whether a marker of three characters stands here that is followed by white space or the end. -/
def isAtMark (mark : String) (at_ : Cursor) : Bool :=
  match Text.after? mark.toList at_.rest with
  | some rest => rest.head?.all fun c => isGap c || isBreak c
  | none => false

/-- Whether a marker between documents stands here. -/
def isAtDocumentMark (at_ : Cursor) : Bool :=
  at_.isAtMark "---" || at_.isAtMark "..."

end Cursor

end ElmSuite.Yaml
