import ElmSuite.Yaml.Cursor
import ElmSuite.Yaml.Timestamp

/-!
Tags, which tell the kind of a node.  A plain scalar without a tag has the kind that its text looks
like.
-/

namespace ElmSuite.Yaml

/-- The kind of a node. -/
inductive Tag
  | str
  | bool
  | int
  | float
  | null
  | timestamp
  | binary
  | merge
  | value
  | seq
  | map
  | set
  | omap
  | pairs
  | unknown
deriving DecidableEq, Repr

namespace Tag

/-- What the names of all kinds start with. -/
def standardStart : String := "tag:yaml.org,2002:"

/-- The names of the kinds behind their common start. -/
def names : List (String × Tag) :=
  [ ("str", .str), ("bool", .bool), ("int", .int), ("float", .float), ("null", .null)
  , ("timestamp", .timestamp), ("binary", .binary), ("merge", .merge), ("value", .value)
  , ("seq", .seq), ("map", .map), ("set", .set), ("omap", .omap), ("pairs", .pairs) ]

/-- The kind with a full name. -/
def ofName (name : String) : Tag :=
  match Text.after? standardStart.toList name.toList with
  | some rest => (names.lookup (String.ofList rest)).getD .unknown
  | none => .unknown

/-- The words for truth and falsehood in lower case. -/
def truths : List (String × Bool) :=
  [("yes", true), ("no", false), ("true", true), ("false", false), ("on", true), ("off", false)]

/-- A word in the three cases in which it is known: lower, capitalised and upper. -/
def cases (word : String) : List String :=
  [word, word.capitalize, word.map Char.toUpper]

/-- Whether a text is a word for truth or falsehood. -/
def isBool (text : String) : Bool :=
  truths.any fun truth => (cases truth.1).contains text

/-- Whether a text stands for nothing. -/
def isNull (text : String) : Bool :=
  text == "" || text == "~" || (cases "null").contains text

/-- A text without a sign at its start. -/
def unsigned : List Char → List Char
  | '+' :: rest => rest
  | '-' :: rest => rest
  | text => text

/-- A digit or an underscore. -/
def isDigitOrGap (c : Char) : Bool :=
  Text.isAsciiDigit c || c == '_'

/-- Whether a text is not empty and has digits of a base and underscores only. -/
def isDigits (base : Nat) (text : List Char) : Bool :=
  !text.isEmpty && text.all fun c => c == '_' || (Text.digitValue? base c).isSome

/-- Whether a text is a number below sixty as it stands behind a colon. -/
def isSixtieth : List Char → Bool
  | [low] => Text.isAsciiDigit low
  | [high, low] => '0' ≤ high && high ≤ '5' && Text.isAsciiDigit low
  | _ => false

/-- Whether a text is parts between colons, at least two of them, of which the first passes a
test. -/
def isSixtieths (first : List Char → Bool) (text : List Char) : Bool :=
  match text.splitOn ':' with
  | head :: next :: rest => first head && (next :: rest).all isSixtieth
  | _ => false

/-- Whether a text is a whole number that does not start with zero. -/
def isPositive (text : List Char) : Bool :=
  text.head?.any (fun c => '1' ≤ c && c ≤ '9') && text.all isDigitOrGap

/-- Whether a text is a whole number: in base two, eight, ten, sixteen or sixty. -/
def isInt (text : List Char) : Bool :=
  match unsigned text with
  | ['0'] => true
  | '0' :: 'b' :: digits => isDigits 2 digits
  | '0' :: 'x' :: digits => isDigits 16 digits
  | '0' :: digits => isDigits 8 digits
  | number => isPositive number || isSixtieths isPositive number

/-- Whether a text is an exponent or empty. -/
def isExponent : List Char → Bool
  | [] => true
  | e :: sign :: digits =>
      (e == 'e' || e == 'E') && (sign == '-' || sign == '+') &&
        !digits.isEmpty && digits.all Text.isAsciiDigit
  | _ => false

/-- Whether a text is digits and underscores that start with a digit. -/
def isWhole (text : List Char) : Bool :=
  text.head?.any Text.isAsciiDigit && text.all isDigitOrGap

/-- Whether a text without sign is a number with a point. -/
def isPointed (text : List Char) : Bool :=
  let front := text.takeWhile (· != '.')
  match text.dropWhile (· != '.') with
  | _ :: behind =>
      let rest := behind.dropWhile isDigitOrGap
      (isWhole front && isExponent rest) || (isSixtieths isWhole front && rest.isEmpty)
  | [] => false

/-- Whether a text starts with a point that digits follow. -/
def isFraction : List Char → Bool
  | '.' :: first :: rest =>
      Text.isAsciiDigit first && isExponent (rest.dropWhile isDigitOrGap)
  | _ => false

/-- Whether a text is a number with a point, an infinity, or no number. -/
def isFloat (text : List Char) : Bool :=
  isPointed (unsigned text) || isFraction text ||
    [".inf", ".Inf", ".INF"].contains (String.ofList (unsigned text)) ||
    [".nan", ".NaN", ".NAN"].contains (String.ofList text)

/-- The kind that a text of one line looks like. -/
def ofLine (text : List Char) : Tag :=
  let word := String.ofList text
  if isBool word then .bool
  else if isFloat text then .float
  else if isInt text then .int
  else if word == "<<" then .merge
  else if isNull word then .null
  else if (Timestamp.ofText? false text).isSome then .timestamp
  else if word == "=" then .value
  else if ["!", "&", "*"].contains word then .unknown
  else .str

/-- The kind that a scalar looks like; a line end behind it does not count, unless it is alone. -/
def ofPlain (text : List Char) : Tag :=
  if text = ['\n'] then .str else ofLine (Text.withoutLineEnd text)

end Tag

end ElmSuite.Yaml
