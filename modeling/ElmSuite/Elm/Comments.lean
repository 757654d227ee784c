/-!
Removal of comments from Elm source.  Line comments go up to the end of their line, block comments
nest and leave their line ends behind, and string and character literals are kept as they are.
-/

namespace ElmSuite.Elm

/-- What the scan of a source is inside of. -/
inductive Zone
  | code
  | lineComment
  /-- A block comment inside `outer` others. -/
  | blockComment (outer : Nat)
  /-- A string literal in single quotes marks, which ends with its line at the latest. -/
  | text
  /-- A string literal in triple quote marks. -/
  | longText
  /-- A character literal after its first character. -/
  | character
deriving DecidableEq, Repr

/-- The source without its comments, from inside a zone. -/
def stripFrom : Zone → List Char → List Char
  | _, [] => []
  | .code, '{' :: '-' :: rest => stripFrom (.blockComment 0) rest
  | .code, '-' :: '-' :: rest => stripFrom .lineComment rest
  | .code, '"' :: '"' :: '"' :: rest => '"' :: '"' :: '"' :: stripFrom .longText rest
  | .code, '"' :: rest => '"' :: stripFrom .text rest
  | .code, '\'' :: '\\' :: c :: rest => '\'' :: '\\' :: c :: stripFrom .character rest
  | .code, '\'' :: c :: rest => '\'' :: c :: stripFrom .character rest
  | .code, c :: rest => c :: stripFrom .code rest
  | .lineComment, '\n' :: rest => '\n' :: stripFrom .code rest
  | .lineComment, _ :: rest => stripFrom .lineComment rest
  | .blockComment outer, '{' :: '-' :: rest => stripFrom (.blockComment (outer + 1)) rest
  | .blockComment 0, '-' :: '}' :: rest => stripFrom .code rest
  | .blockComment (outer + 1), '-' :: '}' :: rest => stripFrom (.blockComment outer) rest
  | .blockComment outer, '\n' :: rest => '\n' :: stripFrom (.blockComment outer) rest
  | .blockComment outer, _ :: rest => stripFrom (.blockComment outer) rest
  | .text, '"' :: rest => '"' :: stripFrom .code rest
  | .text, '\n' :: rest => '\n' :: stripFrom .code rest
  | .text, '\\' :: c :: rest => '\\' :: c :: stripFrom .text rest
  | .text, c :: rest => c :: stripFrom .text rest
  | .longText, '"' :: '"' :: '"' :: rest => '"' :: '"' :: '"' :: stripFrom .code rest
  | .longText, c :: rest => c :: stripFrom .longText rest
  | .character, '\'' :: rest => '\'' :: stripFrom .code rest
  | .character, c :: rest => c :: stripFrom .character rest

/-- The source without its comments. -/
def stripComments (source : List Char) : List Char :=
  stripFrom .code source

end ElmSuite.Elm
