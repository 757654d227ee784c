import ElmSuite.Text.Quoted

/-!
Texts as sequences of code points.  Unlike a string, such a text may hold halves of surrogate pairs,
which escapes can name but which cannot be written as UTF-8.
-/

namespace ElmSuite

/-- A text as its code points. -/
abbrev Codes := List Nat

namespace Codes

/-- The code points of characters. -/
def ofChars (text : List Char) : Codes :=
  text.map Char.toNat

/-- The code points of a string. -/
def ofString (text : String) : Codes :=
  ofChars text.toList

/-- The character of a code point that is no surrogate. -/
def charOf? (code : Nat) : Option Char :=
  if code.isValidChar then some (Char.ofNat code) else none

/-- The string of a text without surrogates. -/
def string? (codes : Codes) : Option String :=
  (codes.mapM charOf?).map String.ofList

/-- The characters of a text, with another one in place of every surrogate. -/
def charsWith (replacement : Char) (codes : Codes) : List Char :=
  codes.map fun code => (charOf? code).getD replacement

/-- The character that stands for what is no text. -/
def replacement : Char := Char.ofNat 0xFFFD

/-- The string of a text; each of the three bytes of a surrogate is no text. -/
def lossy (codes : Codes) : String :=
  String.ofList (codes.flatMap fun code =>
    match charOf? code with
    | some c => [c]
    | none => List.replicate 3 replacement)

/-- A text in quotes. -/
def quoted (codes : Codes) : String :=
  Text.quoteCodes codes

/-- Whether a code point is half of a surrogate pair. -/
def isSurrogate (code : Nat) : Bool :=
  0xD800 ≤ code && code ≤ 0xDFFF

end Codes

/-- Why a text cannot be written as UTF-8: a stretch of surrogates of some width, the first of them
and its position. -/
structure SurrogateDefect where
  first : Nat
  position : Nat
  width : Nat
deriving DecidableEq, Repr

/-- The first stretch of surrogates of a text. -/
def Codes.surrogates? (codes : Codes) : Option SurrogateDefect :=
  let before := codes.takeWhile fun code => !isSurrogate code
  match codes.drop before.length with
  | [] => none
  | first :: rest => some ⟨first, before.length, (rest.takeWhile isSurrogate).length + 1⟩

/-- The message for a defect; a single surrogate is shown, several are given by their first and last
position. -/
def SurrogateDefect.message (defect : SurrogateDefect) : String :=
  let what :=
    if defect.width = 1 then
      "character '" ++ String.ofList (Text.codeEscape defect.first) ++ "' in position " ++
        toString defect.position
    else
      "characters in position " ++ toString defect.position ++ "-" ++
        toString (defect.position + defect.width - 1)
  "'utf-8' codec can't encode " ++ what ++ ": surrogates not allowed"

end ElmSuite
