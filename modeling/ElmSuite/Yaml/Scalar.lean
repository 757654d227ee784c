import ElmSuite.Number.FloatText
import ElmSuite.Text.Base64
import ElmSuite.Text.LowerCase
import ElmSuite.Yaml.Defect
import ElmSuite.Yaml.Value

/-!
The values of scalars by their kind.  A tag may ask for a kind that the text does not look like, so
more is read here than a plain scalar would be taken for.
-/

namespace ElmSuite.Yaml.Scalar

/-- The characters of a scalar; half of a surrogate pair is none that any kind has a use for. -/
def chars (codes : Codes) : List Char :=
  codes.charsWith Codes.replacement

/-- A scalar without its underscores, which mean nothing in numbers. -/
def withoutGaps (codes : Codes) : Codes :=
  codes.filter (· != '_'.toNat)

/-- The sign in front of a number, and the number behind it. -/
def signed (codes : Codes) : Bool × Codes :=
  match codes.head?.bind Codes.charOf? with
  | some '-' => (true, codes.drop 1)
  | some '+' => (false, codes.drop 1)
  | _ => (false, codes)

/-- The parts of a number between colons; one part if there are none. -/
def parts (codes : Codes) : List Codes :=
  codes.splitOn ':'.toNat

/-- A whole number in a base. -/
def wholeIn (base : Nat) (codes : Codes) : Except ScalarFault Int :=
  match Whole.ofText base (chars codes) with
  | .ok value => .ok value
  | .error .malformed => .error (.badWhole base codes)
  | .error (.tooManyDigits count) => .error (.tooManyDigits count)

/-- The number that parts of base sixty denote, most significant part first. -/
def ofSixtieths (parts : List Int) : Int :=
  parts.foldl (fun total part => total * 60 + part) 0

/-- A whole number without sign: in base two, sixteen or eight by its first characters, else in base
ten or, with colons, sixty. -/
def magnitude (codes : Codes) : Except ScalarFault Int :=
  match chars codes with
  | [] => .error .noDigits
  | ['0'] => .ok 0
  | '0' :: 'b' :: _ => wholeIn 2 (codes.drop 2)
  | '0' :: 'x' :: _ => wholeIn 16 (codes.drop 2)
  | '0' :: _ => wholeIn 8 codes
  | _ => ((parts codes).mapM (wholeIn 10)).map ofSixtieths

/-- The value of a whole number. -/
def whole (codes : Codes) : Except ScalarFault Int :=
  let (negative, number) := signed (withoutGaps codes)
  (magnitude number).map fun value => if negative then -value else value

/-- A floating point number in base ten. -/
def decimal (codes : Codes) : Except ScalarFault Binary64 :=
  match Binary64.ofText? (chars codes) with
  | some value => .ok value
  | none => .error (.badFloat codes)

/-- A floating point number without sign, in base ten or, with colons, sixty. -/
def floatMagnitude (codes : Codes) : Except ScalarFault Binary64 :=
  match parts codes with
  | [part] => decimal part
  | parts => do
      let values ← parts.mapM decimal
      match Binary64.ofSixtieths? values with
      | some value => return value
      | none => throw .unitOverflow

/-- The value of a floating point number in a node.  The word for no number is the same value in
every node. -/
def float (number : NodeNumber) (codes : Codes) : Except ScalarFault Value := do
  let plain := Text.lower (withoutGaps codes)
  if plain.isEmpty then throw .noDigits
  let (negative, size) := signed plain
  if size = .ofString ".inf" then return .float (.infinite negative)
  else if size = .ofString ".nan" then return .notNumber none
  else
    match ← floatMagnitude size with
    | .nan => return .notNumber (some number)
    | value => return .float (value.withSign negative)

/-- The value of a word for truth or falsehood, in any case. -/
def truth (codes : Codes) : Except ScalarFault Bool :=
  let word := Text.lower codes
  match (Codes.string? word).bind fun text => Tag.truths.lookup text with
  | some value => .ok value
  | none => .error (.badTruth word)

/-- The value of a timestamp. -/
def timestamp (codes : Codes) : Except ScalarFault Timestamp :=
  match Timestamp.ofText? true (Text.withoutLineEnd (chars codes)) with
  | none => .error .noTimestamp
  | some time =>
      match time.fault? with
      | some words => .error (.badTimestamp words)
      | none => .ok time

/-- A fault of a scalar as a defect, or the value. -/
def checked {α : Type} (value : Except ScalarFault α) : Except Defect α :=
  value.mapError .badScalar

/-- Whether a kind is one of scalars. -/
def isScalarTag : Tag → Bool
  | .str | .bool | .int | .float | .null | .timestamp | .binary => true
  | _ => false

/-- The value of a scalar of a kind in a node. -/
def value (number : NodeNumber) (tag : Tag) (codes : Codes) : Except Defect Value :=
  match tag with
  | .null => .ok .null
  | .str => .ok (.string codes)
  | .int => (checked (whole codes)).map .int
  | .float => checked (float number codes)
  | .timestamp => (checked (timestamp codes)).map .timestamp
  | .bool => (checked (truth codes)).map .bool
  | .binary =>
      if codes.all (· < 0x80) then
        match Text.Base64.decode (chars codes) with
        | some content => .ok (.binary content)
        | none => .error .wrongNode
      else .error .wrongNode
  | _ => .error .unknownTag

end ElmSuite.Yaml.Scalar
