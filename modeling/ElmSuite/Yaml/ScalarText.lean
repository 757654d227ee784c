import ElmSuite.Text.Digits
import ElmSuite.Yaml.Cursor
import ElmSuite.Yaml.Defect

/-!
The three ways to write a scalar: in quotes, plain, and as a block of lines.  Inside quotes and
plain scalars a single line end is a space, and empty lines are kept; a block keeps its lines or
folds them.  A scalar is a list of code points, because an escape may name half of a surrogate pair.
-/

namespace ElmSuite.Yaml

/-- A scalar that has been read: its code points, and the place after it. -/
abbrev ScalarReading := Except Defect (Codes × Cursor)

/-- A line end and the empty lines after it, as what they stand for: a plain line end alone is a
space. -/
def foldedBreak (first : Char) (more : List Char) : List Char :=
  if first != '\n' then first :: more
  else if more.isEmpty then [' ']
  else more

namespace Quoted

/-- The code point that a letter after a backslash stands for. -/
def escapes : List (Char × Nat) :=
  [ ('0', 0x00), ('a', 0x07), ('b', 0x08), ('t', 0x09), ('\t', 0x09), ('n', 0x0A), ('v', 0x0B)
  , ('f', 0x0C), ('r', 0x0D), ('e', 0x1B), (' ', 0x20), ('"', 0x22), ('\\', 0x5C), ('/', 0x2F)
  , ('N', 0x85), ('_', 0xA0), ('L', 0x2028), ('P', 0x2029) ]

/-- The number of digits after a letter that names a code point. -/
def digitCounts : List (Char × Nat) :=
  [('x', 2), ('u', 4), ('U', 8)]

/-- The number behind the last code point. -/
def codeBound : Nat := 0x110000

/-- The first number that is refused before it is compared with the code points. -/
def codeOverflow : Nat := 0x80000000

/-- The line ends in front of the next character that is neither white space nor one. -/
def breaks : Nat → Cursor → Except Defect (List Char × Cursor)
  | 0, at_ => .ok ([], at_)
  | fuel + 1, at_ =>
      if at_.isAtDocumentMark then .error .unclosedQuote
      else
        let here := at_.skipWhile isGap
        match here.lineBreak? with
        | none => .ok ([], here)
        | some (first, after) =>
            (breaks fuel after).map fun (more, last) => (first :: more, last)

/-- The code points that an escape stands for; the place is after its backslash. -/
def escape (at_ : Cursor) : ScalarReading :=
  match at_.peek? with
  | none => .error .escape
  | some letter =>
      match escapes.lookup letter, digitCounts.lookup letter with
      | some code, _ => .ok ([code], at_.next)
      | none, some count =>
          let digits := at_.next.rest.take count
          match digits.mapM (Text.digitValue? 16) with
          | some values =>
              let code := Text.ofDigits 16 values
              if digits.length < count then .error .escape
              else if code < codeBound then .ok ([code], at_.next.skip count)
              else if code < codeOverflow then .error (.badScalar .noCodePoint)
              else .error (.badScalar .codeOverflow)
          | none => .error .escape
      | none, none =>
          match at_.lineBreak? with
          | some (_, after) =>
              (breaks (after.rest.length + 1) after).map fun (more, last) =>
                (Codes.ofChars more, last)
          | none => .error .escape

/-- Whether a character has no meaning of its own inside quotes. -/
def isOrdinary (c : Char) : Bool :=
  c != '\'' && c != '"' && c != '\\' && !isGap c && !isBreak c

/-- A stretch without white space. -/
def run (double : Bool) : Nat → Cursor → ScalarReading
  | 0, at_ => .ok ([], at_)
  | fuel + 1, at_ =>
      let (plain, here) := at_.span isOrdinary
      let continued (read : Codes) (after : Cursor) : ScalarReading :=
        (run double fuel after).map fun (more, last) => (Codes.ofChars plain ++ read ++ more, last)
      match double, here.rest with
      | false, '\'' :: '\'' :: _ => continued [0x27] (here.skip 2)
      | true, '\'' :: _ => continued [0x27] here.next
      | false, '"' :: _ => continued [0x22] here.next
      | false, '\\' :: _ => continued [0x5C] here.next
      | true, '\\' :: _ =>
          match escape here.next with
          | .error defect => .error defect
          | .ok (read, after) => continued read after
      | _, _ => .ok (Codes.ofChars plain, here)

/-- White space inside quotes. -/
def gap (at_ : Cursor) : Except Defect (List Char × Cursor) :=
  let (white, here) := at_.span isGap
  match here.lineBreak? with
  | some (first, after) =>
      (breaks (after.rest.length + 1) after).map fun (more, last) => (foldedBreak first more, last)
  | none => if here.rest.isEmpty then .error .unclosedQuote else .ok (white, here)

/-- The inside of a quoted scalar and the place after its closing quote. -/
def inside (double : Bool) : Nat → Cursor → ScalarReading
  | 0, _ => .error .unclosedQuote
  | fuel + 1, at_ =>
      match run double (at_.rest.length + 1) at_ with
      | .error defect => .error defect
      | .ok (read, here) =>
          if here.peek? = some (if double then '"' else '\'') then .ok (read, here.next)
          else
            match gap here with
            | .error defect => .error defect
            | .ok (white, after) =>
                (inside double fuel after).map fun (more, last) =>
                  (read ++ Codes.ofChars white ++ more, last)

end Quoted

/-- A quoted scalar; the place is at its opening quote. -/
def readQuoted (double : Bool) (at_ : Cursor) : ScalarReading :=
  Quoted.inside double (at_.rest.length + 1) at_.next

namespace Plain

/-- Whether a plain scalar stops in front of a text.  Inside brackets it also stops at
punctuation. -/
def stops (inFlow : Bool) : List Char → Bool
  | [] => true
  | c :: rest =>
      isGap c || isBreak c ||
        (c == ':' && rest.head?.all fun d =>
          isGap d || isBreak d || (inFlow && ",[]\x7b\x7d".toList.contains d)) ||
        (inFlow && ",?[]\x7b\x7d".toList.contains c)

/-- The number of characters in front of the stop. -/
def runLength (inFlow : Bool) : List Char → Nat
  | [] => 0
  | c :: rest => if stops inFlow (c :: rest) then 0 else runLength inFlow rest + 1

/-- The empty lines up to the next character that is no space, unless a document marker stands at
the start of one. -/
def emptyLines : Nat → Cursor → Option (List Char) × Cursor
  | 0, at_ => (some [], at_)
  | fuel + 1, at_ =>
      let here := at_.skipWhile (· == ' ')
      match here.lineBreak? with
      | none => (some [], here)
      | some (first, after) =>
          if after.isAtDocumentMark then (none, after)
          else
            let (more, last) := emptyLines fuel after
            (more.map (first :: ·), last)

/-- White space after a word: what it stands for, whether it held a line end, and the place after
it.  Nothing goes on after a document marker. -/
def gap (at_ : Cursor) : List Char × Bool × Cursor :=
  let (white, here) := at_.span (· == ' ')
  match here.lineBreak? with
  | none => (white, false, here)
  | some (first, after) =>
      if after.isAtDocumentMark then ([], true, after)
      else
        let (more, last) := emptyLines (after.rest.length + 1) after
        ((more.map (foldedBreak first)).getD [], true, last)

/-- The words of a plain scalar, with the white space that leads to the first of them, whether a
line end follows the last one, and the place after it. -/
def words (inFlow : Bool) (indent : Nat) :
    Nat → List Char → Bool → Cursor → List Char × Bool × Cursor
  | 0, _, atLineStart, at_ => ([], atLineStart, at_)
  | fuel + 1, white, atLineStart, at_ =>
      let length := if at_.peek? = some '#' then 0 else runLength inFlow at_.rest
      if length = 0 then ([], atLineStart, at_)
      else
        let word := white ++ at_.rest.take length
        let (white, crossed, here) := gap (at_.skip length)
        if white.isEmpty || here.peek? = some '#' || (!inFlow && here.column < indent) then
          (word, crossed, here)
        else
          let (more, ended, last) := words inFlow indent fuel white crossed here
          (word ++ more, ended, last)

end Plain

/-- A plain scalar: its text, whether a line end follows it, and the place after it and the white
space behind it. -/
def readPlain (inFlow : Bool) (indent : Nat) (at_ : Cursor) : List Char × Bool × Cursor :=
  Plain.words inFlow indent (at_.rest.length + 1) [] false at_

namespace Block

/-- What becomes of the line ends at the end of a block. -/
inductive Chomping
  | strip
  | clip
  | keep
deriving DecidableEq, Repr

/-- The chomping that a sign asks for. -/
def chomping? : Char → Option Chomping
  | '+' => some .keep
  | '-' => some .strip
  | _ => none

/-- A digit that tells the indentation. -/
def increment? (c : Char) : Option Nat :=
  Text.digitValue? 10 c

/-- The signs after the opening of a block: chomping and indentation in either order. -/
def header (at_ : Cursor) : Except Defect (Chomping × Option Nat × Cursor) :=
  let sign (at_ : Cursor) := at_.peek?.bind chomping?
  let digit (at_ : Cursor) := at_.peek?.bind increment?
  let (chomping, increment, after) : Option Chomping × Option Nat × Cursor :=
    match sign at_, digit at_ with
    | some chomping, _ =>
        match digit at_.next with
        | some increment => (some chomping, some increment, at_.next.next)
        | none => (some chomping, none, at_.next)
    | none, some increment =>
        match sign at_.next with
        | some chomping => (some chomping, some increment, at_.next.next)
        | none => (none, some increment, at_.next)
    | none, none => (none, none, at_)
  if increment = some 0 then .error .blockHeader
  else if after.endsOr fun c => c == ' ' || isBreak c then
    .ok (chomping.getD .clip, increment, after)
  else .error .blockHeader

/-- The place after the line of the header, on which only a comment may follow. -/
def afterHeader (at_ : Cursor) : Except Defect Cursor :=
  let here := (at_.skipWhile (· == ' ')).skipComment
  if here.endsOr isBreak then .ok ((here.lineBreak?.map Prod.snd).getD here)
  else .error .blockHeader

/-- The empty lines at the start of a block, and the greatest column that a space ends at. -/
def leading : Nat → Nat → Cursor → List Char × Nat × Cursor
  | 0, widest, at_ => ([], widest, at_)
  | fuel + 1, widest, at_ =>
      let here := at_.skipWhile (· == ' ')
      let reached := if here.offset = at_.offset then widest else max widest here.column
      match here.lineBreak? with
      | none => ([], reached, here)
      | some (first, after) =>
          let (more, widest, last) := leading fuel reached after
          (first :: more, widest, last)

/-- The line ends in front of the next line that goes on at an indentation, or ends the block. -/
def breaks (indent : Nat) : Nat → Cursor → List Char × Cursor
  | 0, at_ => ([], at_)
  | fuel + 1, at_ =>
      let here := at_.skipIndent indent
      match here.lineBreak? with
      | none => ([], here)
      | some (first, after) =>
          let (more, last) := breaks indent fuel after
          (first :: more, last)

/-- Whether a line of the block starts here. -/
def isAtLine (indent : Nat) (at_ : Cursor) : Bool :=
  at_.column == indent && !at_.rest.isEmpty

/-- The lines of a block from the line at hand: the text up to the last of them, its line end, the
empty lines behind it, and the place after them. -/
def lines (folded : Bool) (indent : Nat) :
    Nat → Cursor → List Char × List Char × List Char × Cursor
  | 0, at_ => ([], [], [], at_)
  | fuel + 1, at_ =>
      let (line, here) := at_.span fun c => !isBreak c
      let (ending, after) := match here.lineBreak? with
        | some (ending, after) => ([ending], after)
        | none => ([], here)
      let (empty, next) := breaks indent (after.rest.length + 1) after
      if isAtLine indent next then
        let joined :=
          if folded && ending == ['\n'] && !at_.nextIs isGap && !next.nextIs isGap then
            if empty.isEmpty then [' '] else []
          else ending
        let (more, last) := lines folded indent fuel next
        (line ++ joined ++ empty ++ more, last)
      else (line, ending, empty, next)

end Block

/-- A block scalar; the place is at its opening, inside a collection whose content starts at column
`indent`. -/
def readBlock (folded : Bool) (indent : Nat) (at_ : Cursor) :
    Except Defect (List Char × Cursor) := do
  let (chomping, increment, afterSigns) ← Block.header at_.next
  let start ← Block.afterHeader afterSigns
  let least := max 1 indent
  let fuel := start.rest.length + 1
  let (indent, empty, first) := match increment with
    | some increment =>
        let indent := least + increment - 1
        let (empty, first) := Block.breaks indent fuel start
        (indent, empty, first)
    | none =>
        let (empty, widest, first) := Block.leading fuel 0 start
        (max least widest, empty, first)
  let (text, ending, trailing, last) :=
    if Block.isAtLine indent first then
      let (text, rest) := Block.lines folded indent (first.rest.length + 1) first
      (empty ++ text, rest)
    else ([], [], empty, first)
  let tail := match chomping with
    | .strip => []
    | .clip => ending
    | .keep => ending ++ trailing
  return (text ++ tail, last)

end ElmSuite.Yaml
