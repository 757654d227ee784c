import ElmSuite.Elm.Comments
import ElmSuite.Text.Reading
import ElmSuite.Text.Digits

/-!
What a module exposes, and which of its exposed values take no argument.  Nothing is known of types
here: every such value may be a test.
-/

namespace ElmSuite.Elm

/-- What a module exposes: everything, or the values in a list. -/
inductive Exposing
  | everything
  | only (names : List String)
deriving DecidableEq, Repr

/-- Whether a value is exposed. -/
def Exposing.allows : Exposing → String → Bool
  | .everything, _ => true
  | .only names, name => names.contains name

/-- A character of a dotted name. -/
def isNameChar (c : Char) : Bool :=
  Text.isWord c || c == '.'

/-- What follows `module`, a name and one white space character. -/
def afterModule? (text : List Char) : Option (List Char) := do
  let named ← Text.afterBlanks? (← Text.after? "module".toList text)
  match named.takeWhile isNameChar, named.dropWhile isNameChar with
  | _ :: _, c :: rest => if Text.isBlank c then some rest else none
  | _, _ => none

/-- What follows a keyword in front of `module`. -/
def afterKeyword? (keyword : String) (text : List Char) : Option (List Char) := do
  afterModule? (← Text.afterBlanks? (← Text.after? keyword.toList text))

/-- What follows the start of a module header. -/
def afterHeader? (text : List Char) : Option (List Char) :=
  afterKeyword? "port" text <|> afterKeyword? "effect" text <|> afterModule? text

/-- What follows the first module header that starts a line. -/
def afterFirstHeader? : Bool → List Char → Option (List Char)
  | _, [] => none
  | atLineStart, c :: rest =>
      (if atLineStart then afterHeader? (c :: rest) else none) <|>
        afterFirstHeader? (c == '\n') rest

/-- What follows the first word `exposing` that an open parenthesis follows. -/
def afterExposing? : Bool → List Char → Option (List Char)
  | _, [] => none
  | inWord, c :: rest =>
      let here := if inWord then none else do
        let list ← Text.after? "exposing".toList (c :: rest)
        Text.after? ['('] (list.dropWhile Text.isBlank)
      here <|> afterExposing? (Text.isWord c) rest

/-- The text up to the parenthesis that closes it, inside `outer` others. -/
def upToClose? : Nat → List Char → Option (List Char)
  | _, [] => none
  | outer, '(' :: rest => (upToClose? (outer + 1) rest).map ('(' :: ·)
  | 0, ')' :: _ => some []
  | outer + 1, ')' :: rest => (upToClose? outer rest).map (')' :: ·)
  | outer, c :: rest => (upToClose? outer rest).map (c :: ·)

/-- The text inside an open parenthesis.  If it is never closed, all that follows but the last
character. -/
def insideParens (text : List Char) : List Char :=
  (upToClose? 0 text).getD text.dropLast

/-- The pieces of a text between the commas outside all parentheses; `piece` is the current one,
reversed. -/
def splitCommas : Nat → List Char → List Char → List (List Char)
  | _, piece, [] => [piece.reverse]
  | depth, piece, '(' :: rest => splitCommas (depth + 1) ('(' :: piece) rest
  | depth, piece, ')' :: rest => splitCommas (depth - 1) (')' :: piece) rest
  | 0, piece, ',' :: rest => piece.reverse :: splitCommas 0 [] rest
  | depth, piece, c :: rest => splitCommas depth (c :: piece) rest

/-- The items of an exposing list, trimmed and without empty ones. -/
def listItems (text : List Char) : List (List Char) :=
  ((splitCommas 0 [] text).map Text.trim).filter fun item => !item.isEmpty

/-- A letter from `a` to `z`. -/
def isLowerAscii (c : Char) : Bool :=
  'a' ≤ c && c ≤ 'z'

/-- The name of a value: a letter from `a` to `z` followed by word characters. -/
def isLowerName : List Char → Bool
  | [] => false
  | first :: rest => isLowerAscii first && rest.all Text.isWord

/-- What a source exposes; without a header or a list, nothing. -/
def exposedNames (source : List Char) : Exposing :=
  match afterFirstHeader? true source with
  | none => .only []
  | some body =>
      match afterExposing? false body with
      | none => .only []
      | some list =>
          let items := listItems (insideParens list)
          if items = [['.', '.']] then .everything
          else .only ((items.filter isLowerName).map String.ofList)

/-- The value that a declaration without arguments at the start of a text declares. -/
def declared? (text : List Char) : Option String :=
  let name := text.takeWhile Text.isWord
  if isLowerName name then
    match (text.dropWhile Text.isWord).dropWhile Text.isBlank with
    | '=' :: '=' :: _ => none
    | '=' :: _ => some (String.ofList name)
    | _ => none
  else none

/-- The values declared without arguments at the start of a line, in order. -/
def declaredFrom : Bool → List Char → List String
  | _, [] => []
  | atLineStart, c :: rest =>
      (if atLineStart then (declared? (c :: rest)).toList else []) ++ declaredFrom (c == '\n') rest

/-- The exposed values without arguments, each once, in order of declaration. -/
def exposedValues (source : List Char) : List String :=
  let code := stripComments source
  (declaredFrom true code).eraseDups.filter (exposedNames code).allows

end ElmSuite.Elm
