import ElmSuite.Text.Utf8
import ElmSuite.Yaml.ScalarText

/-!
The tokens of a YAML text.  Indentation shows as tokens that open and close block collections.
Whether a node is a key is only known at the colon behind it, so the places of possible keys are
remembered, one for each open bracket, and the token that announces a key is put in front of it
afterwards.  A text may stop to be one of tokens; what stands before that place is read all the
same.
-/

namespace ElmSuite.Yaml

/-- A token. -/
inductive Token
  /-- The version of the format. -/
  | version (major : Nat)
  /-- What a tag handle stands for. -/
  | handle (name start : String)
  /-- A directive without a meaning. -/
  | directive
  | documentStart
  | documentEnd
  | sequenceStart
  | mappingStart
  | blockEnd
  | openBracket
  | closeBracket
  | openBrace
  | closeBrace
  | comma
  | entry
  | key
  | value
  | alias (name : String)
  | anchor (name : String)
  | tag (handle : Option String) (suffix : String)
  | scalar (plain : Bool) (codes : Codes)
  /-- The place at which the rest of the text is no token. -/
  | broken (defect : Defect)
deriving DecidableEq, Repr

/-- A token that may turn out to be a key: the number of tokens before it, whether it has to be one,
and where it starts. -/
structure PossibleKey where
  tokensBefore : Nat
  required : Bool
  offset : Nat
  line : Nat
  column : Nat
deriving Repr

/-- The greatest length of a key. -/
def keyLimit : Nat := 1024

/-- The state of reading tokens: the place, the tokens so far with the newest first, the columns of
the open block collections with the innermost first, whether a key may start, and the possible key
of the block context and of every open bracket, innermost first. -/
structure Lexing where
  at_ : Cursor
  tokens : List Token := []
  indents : List Nat := []
  keyAllowed : Bool := true
  blockKey : Option PossibleKey := none
  bracketKeys : List (Option PossibleKey) := []

/-- The result of reading one token. -/
abbrev LexStep := Except Defect Lexing

namespace Lexing

/-- Whether a bracket is open. -/
def inFlow (s : Lexing) : Bool :=
  !s.bracketKeys.isEmpty

/-- The state with one more token. -/
def emit (token : Token) (s : Lexing) : Lexing :=
  { s with tokens := token :: s.tokens }

/-- The state at another place. -/
def moveTo (at_ : Cursor) (s : Lexing) : Lexing :=
  { s with at_ := at_ }

/-- Whether a possible key is too far away to be one. -/
def isStale (at_ : Cursor) (key : PossibleKey) : Bool :=
  key.line != at_.line || keyLimit < at_.offset - key.offset

/-- A possible key, unless it is too far away; one that is required must not be. -/
def freshKey (at_ : Cursor) : Option PossibleKey → Except Defect (Option PossibleKey)
  | none => .ok none
  | some key =>
      if isStale at_ key then if key.required then .error .noColon else .ok none
      else .ok (some key)

/-- The state without the possible keys that are too far away. -/
def dropStaleKeys (s : Lexing) : LexStep := do
  let blockKey ← freshKey s.at_ s.blockKey
  let bracketKeys ← s.bracketKeys.mapM (freshKey s.at_)
  return { s with blockKey, bracketKeys }

/-- The possible key of the innermost context. -/
def currentKey (s : Lexing) : Option PossibleKey :=
  match s.bracketKeys with
  | [] => s.blockKey
  | key :: _ => key

/-- The state with another possible key in the innermost context. -/
def setKey (key : Option PossibleKey) (s : Lexing) : Lexing :=
  match s.bracketKeys with
  | [] => { s with blockKey := key }
  | _ :: rest => { s with bracketKeys := key :: rest }

/-- The state without the possible key of the innermost context, which must not be required. -/
def forgetKey (s : Lexing) : LexStep :=
  match s.currentKey with
  | some key => if key.required then .error .noColon else .ok (s.setKey none)
  | none => .ok s

/-- The state in which the next token may turn out to be a key, if a key may start here. -/
def rememberKey (s : Lexing) : LexStep := do
  if s.keyAllowed then
    let s ← s.forgetKey
    let required := !s.inFlow && s.indents.head? == some s.at_.column
    return s.setKey (some ⟨s.tokens.length, required, s.at_.offset, s.at_.line, s.at_.column⟩)
  else return s

/-- Closes the block collections of greater indentation than a column. -/
def unwindTo (column : Nat) (s : Lexing) : Lexing :=
  if s.inFlow then s
  else
    let closed := s.indents.takeWhile (column < ·)
    { s with
      indents := s.indents.drop closed.length
      tokens := closed.map (fun _ => Token.blockEnd) ++ s.tokens }

/-- Closes all block collections. -/
def unwindAll (s : Lexing) : Lexing :=
  if s.inFlow then s
  else { s with indents := [], tokens := s.indents.map (fun _ => Token.blockEnd) ++ s.tokens }

/-- Whether content at a column is indented deeper than the innermost block collection. -/
def isDeeper (column : Nat) (s : Lexing) : Bool :=
  s.indents.head?.all (· < column)

/-- Opens a block collection at the current column if it is indented deeper than the last one. -/
def openBlock (token : Token) (s : Lexing) : Lexing :=
  if s.isDeeper s.at_.column then
    { s with indents := s.at_.column :: s.indents, tokens := token :: s.tokens }
  else s

/-- The state after white space and comments.  A new line outside brackets may start a key. -/
def skipBlank : Nat → Lexing → Lexing
  | 0, s => s
  | fuel + 1, s =>
      let here := (s.at_.skipWhile (· == ' ')).skipComment
      match here.lineBreak? with
      | some (_, after) =>
          skipBlank fuel { s with at_ := after, keyAllowed := s.keyAllowed || !s.inFlow }
      | none => { s with at_ := here }

/-- A token of one character that stands in brackets or ends them. -/
def single (token : Token) (s : Lexing) : Lexing :=
  (s.moveTo s.at_.next).emit token

/-- An opening bracket, which may start a key and inside which keys may start. -/
def openFlow (token : Token) (s : Lexing) : LexStep := do
  let s ← s.rememberKey
  return { s.single token with bracketKeys := none :: s.bracketKeys, keyAllowed := true }

/-- A closing bracket. -/
def closeFlow (token : Token) (s : Lexing) : LexStep := do
  let s ← s.forgetKey
  match s.bracketKeys with
  | [] => throw .badStructure
  | _ :: rest => return { s.single token with bracketKeys := rest, keyAllowed := false }

/-- A comma. -/
def comma (s : Lexing) : LexStep := do
  let s ← s.forgetKey
  return { s.single .comma with keyAllowed := true }

/-- A hyphen in front of an entry. -/
def entry (s : Lexing) : LexStep := do
  if !s.inFlow && !s.keyAllowed then throw .misplacedEntry
  let opened := if s.inFlow then s else s.openBlock .sequenceStart
  let s ← opened.forgetKey
  return { s.single .entry with keyAllowed := true }

/-- A question mark in front of a key. -/
def explicitKey (s : Lexing) : LexStep := do
  if !s.inFlow && !s.keyAllowed then throw .misplacedKey
  let opened := if s.inFlow then s else s.openBlock .mappingStart
  let s ← opened.forgetKey
  return { s.single .key with keyAllowed := !s.inFlow }

/-- The state with tokens put in front of a token that has turned out to be a key. -/
def announceKey (key : PossibleKey) (s : Lexing) : Lexing :=
  let newer := s.tokens.length - key.tokensBefore
  let (announced, indents) :=
    if !s.inFlow && s.isDeeper key.column then
      ([Token.key, Token.mappingStart], key.column :: s.indents)
    else ([Token.key], s.indents)
  { s with tokens := s.tokens.take newer ++ announced ++ s.tokens.drop newer, indents }

/-- A colon in front of a value. -/
def value (s : Lexing) : LexStep := do
  match s.currentKey with
  | some key =>
      let s := (s.setKey none).announceKey key
      return { s.single .value with keyAllowed := false }
  | none =>
      if !s.inFlow && !s.keyAllowed then throw .misplacedValue
      let opened := if s.inFlow then s else s.openBlock .mappingStart
      let s ← opened.forgetKey
      return { s.single .value with keyAllowed := !s.inFlow }

/-- A character of a name. -/
def isNameChar (c : Char) : Bool :=
  ('0' ≤ c && c ≤ '9') || ('A' ≤ c && c ≤ 'Z') || ('a' ≤ c && c ≤ 'z') || c == '-' || c == '_'

/-- A character of a tag. -/
def isTagChar (c : Char) : Bool :=
  isNameChar c || ";/?:@&=+$,.!~*'()[]".toList.contains c

/-- A place at which a directive or tag may end. -/
def endsWord (at_ : Cursor) : Bool :=
  at_.endsOr fun c => c == ' ' || isBreak c

/-- The bytes of a stretch of percent escapes. -/
def percentBytes : Nat → Cursor → Except Defect (List UInt8 × Cursor)
  | 0, at_ => .ok ([], at_)
  | fuel + 1, at_ =>
      match at_.rest with
      | '%' :: high :: low :: _ =>
          match Text.digitValue? 16 high, Text.digitValue? 16 low with
          | some high, some low =>
              (percentBytes fuel (at_.skip 3)).map fun (bytes, last) =>
                (UInt8.ofNat (16 * high + low) :: bytes, last)
          | _, _ => .error .tag
      | '%' :: _ => .error .tag
      | _ => .ok ([], at_)

/-- The characters of a tag; percent escapes stand for the bytes of characters. -/
def tagText : Nat → Cursor → Except Defect (List Char × Cursor)
  | 0, at_ => .ok ([], at_)
  | fuel + 1, at_ =>
      let (plain, here) := at_.span isTagChar
      if here.peek? = some '%' then
        match percentBytes (here.rest.length + 1) here with
        | .error defect => .error defect
        | .ok (bytes, after) =>
            match Text.Utf8.decode bytes with
            | .error _ => .error .tag
            | .ok escaped =>
                (tagText fuel after).map fun (more, last) => (plain ++ escaped ++ more, last)
      else .ok (plain, here)

/-- A tag or the start of one, which is not empty. -/
def readTagText (at_ : Cursor) : Except Defect (String × Cursor) := do
  let (text, after) ← tagText (at_.rest.length + 1) at_
  if after.offset = at_.offset then throw .tag
  return (String.ofList text, after)

/-- A tag handle: a name between exclamation marks, or one of them alone. -/
def readHandle (at_ : Cursor) : Except Defect (String × Cursor) := do
  if at_.peek? != some '!' then throw .tag
  if at_.next.peek? = some ' ' then return ("!", at_.next)
  let (name, after) := at_.next.span isNameChar
  if after.peek? != some '!' then throw .tag
  return (String.ofList ('!' :: name ++ ['!']), after.next)

/-- A number of a version. -/
def readNumber (at_ : Cursor) : Except Defect (Nat × Cursor) :=
  let (digits, after) := at_.span Text.isAsciiDigit
  if digits.isEmpty then .error .directive
  else if Whole.digitLimit < digits.length then
    .error (.badScalar (.tooManyDigits digits.length))
  else .ok (Text.ofDigits 10 (digits.filterMap (Text.digitValue? 10)), after)

/-- The rest of a directive after its name. -/
def readDirective (name : String) (at_ : Cursor) : Except Defect (Token × Cursor) := do
  let start := at_.skipWhile (· == ' ')
  if name = "YAML" then
    let (major, dot) ← readNumber start
    if dot.peek? != some '.' then throw .directive
    let (_, after) ← readNumber dot.next
    if !endsWord after then throw .directive
    return (.version major, after)
  else if name = "TAG" then
    let (handle, space) ← readHandle start
    if space.peek? != some ' ' then throw .directive
    let (text, after) ← readTagText (space.skipWhile (· == ' '))
    if !endsWord after then throw .directive
    return (.handle handle text, after)
  else return (.directive, at_.skipWhile fun c => !isBreak c)

/-- A directive, which fills its line. -/
def directive (s : Lexing) : LexStep := do
  let s ← s.unwindAll.forgetKey
  let (name, after) := s.at_.next.span isNameChar
  if name.isEmpty || !endsWord after then throw .directive
  let (token, after) ← readDirective (String.ofList name) after
  let here := (after.skipWhile (· == ' ')).skipComment
  if !here.endsOr isBreak then throw .directive
  let next := (here.lineBreak?.map Prod.snd).getD here
  return { (s.moveTo next).emit token with keyAllowed := false }

/-- A marker of three characters between documents. -/
def documentMark (token : Token) (s : Lexing) : LexStep := do
  let s ← s.unwindAll.forgetKey
  return { (s.moveTo (s.at_.skip 3)).emit token with keyAllowed := false }

/-- An anchor or an alias. -/
def named (token : String → Token) (s : Lexing) : LexStep := do
  let s ← s.rememberKey
  let (name, after) := s.at_.next.span isNameChar
  let ends := after.endsOr fun c => isGap c || isBreak c || "?:,]\x7d%@\x60".toList.contains c
  if name.isEmpty || !ends then throw .anchorName
  return { (s.moveTo after).emit (token (String.ofList name)) with keyAllowed := false }

/-- The text of a tag at its exclamation mark: handle, suffix and the place after it. -/
def readTag (at_ : Cursor) : Except Defect (Option String × String × Cursor) := do
  let inner := at_.next
  if inner.peek? = some '<' then
    let (text, after) ← readTagText inner.next
    if after.peek? != some '>' then throw .tag
    return (none, text, after.next)
  else if inner.endsOr fun c => isGap c || isBreak c then return (none, "!", inner)
  else
    let word := inner.rest.takeWhile fun c => c != ' ' && !isBreak c
    let (handle, start) ← if word.contains '!' then readHandle at_ else pure ("!", inner)
    let (text, after) ← readTagText start
    return (some handle, text, after)

/-- A tag. -/
def tag (s : Lexing) : LexStep := do
  let s ← s.rememberKey
  let (handle, suffix, after) ← readTag s.at_
  if !endsWord after then throw .tag
  return { (s.moveTo after).emit (.tag handle suffix) with keyAllowed := false }

/-- The column at which the content of the innermost block collection starts at least. -/
def contentColumn (s : Lexing) : Nat :=
  (s.indents.head?.map (· + 1)).getD 0

/-- A block scalar, behind which a key may start. -/
def block (folded : Bool) (s : Lexing) : LexStep := do
  let s ← s.forgetKey
  let (text, after) ← readBlock folded s.contentColumn s.at_
  return { (s.moveTo after).emit (.scalar false (.ofChars text)) with keyAllowed := true }

/-- A quoted scalar. -/
def quoted (double : Bool) (s : Lexing) : LexStep := do
  let s ← s.rememberKey
  let (text, after) ← readQuoted double s.at_
  return { (s.moveTo after).emit (.scalar false text) with keyAllowed := false }

/-- A plain scalar, behind which a key may start if a line ends there. -/
def plain (s : Lexing) : LexStep := do
  let s ← s.rememberKey
  let (text, crossed, after) := readPlain s.inFlow s.contentColumn s.at_
  return { (s.moveTo after).emit (.scalar true (.ofChars text)) with keyAllowed := crossed }

/-- Characters that cannot start a plain scalar unless a rule allows it. -/
def isIndicator (c : Char) : Bool :=
  "-?:,[]\x7b\x7d#&*!|>'\"%@\x60".toList.contains c

/-- Whether a plain scalar starts here. -/
def startsPlain (s : Lexing) (c : Char) : Bool :=
  (!isGap c && !isBreak c && !isIndicator c) ||
    (s.at_.next.nextIs (fun d => !isGap d && !isBreak d) &&
      (c == '-' || (!s.inFlow && (c == '?' || c == ':'))))

/-- The state after the token that starts with a character. -/
def token (s : Lexing) (c : Char) : LexStep :=
  let atLineStart := s.at_.column == 0
  let stands := s.at_.next.endsOr fun d => isGap d || isBreak d
  if c == '%' && atLineStart then s.directive
  else if atLineStart && s.at_.isAtMark "---" then s.documentMark .documentStart
  else if atLineStart && s.at_.isAtMark "..." then s.documentMark .documentEnd
  else if c == '[' then s.openFlow .openBracket
  else if c == '\x7b' then s.openFlow .openBrace
  else if c == ']' then s.closeFlow .closeBracket
  else if c == '\x7d' then s.closeFlow .closeBrace
  else if c == ',' then s.comma
  else if c == '-' && stands then s.entry
  else if c == '?' && (s.inFlow || stands) then s.explicitKey
  else if c == ':' && (s.inFlow || stands) then s.value
  else if c == '*' then s.named .alias
  else if c == '&' then s.named .anchor
  else if c == '!' then s.tag
  else if c == '|' && !s.inFlow then s.block false
  else if c == '>' && !s.inFlow then s.block true
  else if c == '\'' then s.quoted false
  else if c == '"' then s.quoted true
  else if s.startsPlain c then s.plain
  else .error .noToken

/-- The state after the next token, and whether the text has ended instead. -/
def advance (s : Lexing) : Except Defect (Bool × Lexing) := do
  let s ← (skipBlank (s.at_.rest.length + 1) s).dropStaleKeys
  let s := s.unwindTo s.at_.column
  match s.at_.peek? with
  | none => return (true, ← s.unwindAll.forgetKey)
  | some c => return (false, ← s.token c)

/-- The number of tokens that stay as they are, whatever follows: those before the first one that
may turn out to be a key. -/
def settled (s : Lexing) : Nat :=
  let keys := (s.blockKey :: s.bracketKeys).filterMap fun key =>
    key.filter fun key => !isStale s.at_ key
  keys.foldl (fun least key => min least key.tokensBefore) s.tokens.length

/-- The tokens up to the end of the text or a defect; every token takes at least one character. -/
def toEnd : Nat → Lexing → List Token
  | 0, s => s.tokens.reverse
  | fuel + 1, s =>
      match s.advance with
      | .error defect => s.tokens.reverse.take s.settled ++ [.broken defect]
      | .ok (true, last) => last.tokens.reverse
      | .ok (false, next) => toEnd fuel next

end Lexing

/-- Whether a character may stand in a text. -/
def isAllowed (c : Char) : Bool :=
  c == '\t' || c == '\n' || c == '\r' || (' ' ≤ c && c ≤ '~') || c == '\u0085' ||
    ('\u00A0' ≤ c && c.toNat ≤ 0xD7FF) || (0xE000 ≤ c.toNat && c.toNat ≤ 0xFFFD) ||
    0x10000 ≤ c.toNat

/-- The tokens of a text; a byte order mark at its start is skipped. -/
def Token.ofText (text : List Char) : List Token :=
  if text.all isAllowed then
    let start : Cursor := { rest := text }
    let start := if start.peek? = some '\uFEFF' then start.next else start
    Lexing.toEnd (text.length + 1) { at_ := start }
  else [.broken .unprintable]

end ElmSuite.Yaml
