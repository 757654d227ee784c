import ElmSuite.Text.CodeRanges

/-!
White space and the removal of white space at the ends of a text.
-/

namespace ElmSuite.Text

/-- Code points of the separator categories and of the bidirectional classes WS, B and S. -/
def blankRanges : List (Nat × Nat) :=
  [(0x9, 0xd), (0x1c, 0x20), (0x85, 0x85), (0xa0, 0xa0), (0x1680, 0x1680), (0x2000, 0x200a),
   (0x2028, 0x2029), (0x202f, 0x202f), (0x205f, 0x205f), (0x3000, 0x3000)]

/-- A white space character. -/
def isBlank (c : Char) : Bool :=
  covers blankRanges c.toNat

/-- The text without the white space before its first other character. -/
def trimLeft (text : List Char) : List Char :=
  text.dropWhile isBlank

/-- The text without the white space after its last other character. -/
def trimRight (text : List Char) : List Char :=
  (text.reverse.dropWhile isBlank).reverse

/-- The text without the white space at both ends. -/
def trim (text : List Char) : List Char :=
  trimRight (trimLeft text)

end ElmSuite.Text
