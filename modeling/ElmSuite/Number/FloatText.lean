import ElmSuite.Number.Binary64
import ElmSuite.Number.Whole

/-!
Floating point numbers as people write them: digits of any script with a point or an exponent, an
infinity, or no number.
-/

namespace ElmSuite.Binary64

/-- The digits that a text starts with, and the rest. -/
def digitRun (text : List Char) : List Nat × List Char :=
  ((text.takeWhile Text.isDecimal).filterMap Text.decimalValue?, text.dropWhile Text.isDecimal)

/-- The exponent that fills a text, zero if the text is empty. -/
def exponent? : List Char → Option Int
  | [] => some 0
  | letter :: rest =>
      if letter == 'e' || letter == 'E' then
        let (negative, digits) := Whole.signed rest
        match digitRun digits with
        | ([], _) => none
        | (found, []) => some (Whole.withSign negative (Text.ofDigits 10 found))
        | _ => none
      else none

/-- The number that digits with an optional point and exponent write. -/
def decimal? (negative : Bool) (text : List Char) : Option Binary64 :=
  let (whole, rest) := digitRun text
  let (fraction, rest) := match rest with
    | '.' :: behind => digitRun behind
    | rest => ([], rest)
  if whole.isEmpty && fraction.isEmpty then none
  else
    (exponent? rest).map fun exponent =>
      ofDecimal negative (Text.ofDigits 10 (whole ++ fraction)) (exponent - fraction.length)

/-- The number that a text writes, with a sign and white space around it. -/
def ofText? (text : List Char) : Option Binary64 :=
  let (negative, body) := Whole.signed (Whole.trim text)
  match String.ofList (body.map Char.toLower) with
  | "inf" => some (.infinite negative)
  | "infinity" => some (.infinite negative)
  | "nan" => some .nan
  | _ => decimal? negative body

end ElmSuite.Binary64
