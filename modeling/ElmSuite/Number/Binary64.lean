/-!
Floating point numbers of 64 bits as exact values: a decimal is rounded to the nearest one, the even
one of two equally near, and a number is written with the fewest digits that are read back as it.
-/

namespace ElmSuite

/-- A floating point number: `mantissa * 2 ^ exponent` with a sign, an infinity, or no number. -/
inductive Binary64
  | finite (negative : Bool) (mantissa : Nat) (exponent : Int)
  | infinite (negative : Bool)
  | nan
deriving DecidableEq, Repr

namespace Binary64

/-- A positive fraction. -/
structure Fraction where
  num : Nat
  den : Nat
deriving DecidableEq, Repr

/-- `num / den * base ^ exponent`. -/
def Fraction.scale (q : Fraction) (base : Nat) (exponent : Int) : Fraction :=
  if 0 ≤ exponent then ⟨q.num * base.pow exponent.toNat, q.den⟩
  else ⟨q.num, q.den * base.pow (-exponent).toNat⟩

/-- The nearest whole number, the even one of two equally near. -/
def Fraction.round (q : Fraction) : Nat :=
  let whole := q.num / q.den
  let rest := 2 * (q.num % q.den)
  if rest < q.den then whole
  else if q.den < rest then whole + 1
  else whole + whole % 2

/-- The number of bits of a mantissa. -/
def precision : Nat := 53

/-- The least exponent. -/
def leastExponent : Int := -1074

/-- The first exponent at which numbers are infinite. -/
def topExponent : Int := 972

/-- The number nearest to a fraction. -/
def ofFraction (negative : Bool) (q : Fraction) : Binary64 :=
  if q.num = 0 then .finite negative 0 0
  else
    let guess : Int := (Nat.log2 q.num : Int) - Nat.log2 q.den - (precision - 1 : Nat)
    let fits (e : Int) : Bool :=
      let scaled := q.scale 2 (-e)
      decide (Nat.pow 2 (precision - 1) * scaled.den ≤ scaled.num)
    let exponent := max leastExponent (if fits guess then guess else guess - 1)
    let mantissa := (q.scale 2 (-exponent)).round
    let (mantissa, exponent) :=
      if mantissa = Nat.pow 2 precision then (Nat.pow 2 (precision - 1), exponent + 1)
      else (mantissa, exponent)
    if topExponent ≤ exponent then .infinite negative else .finite negative mantissa exponent

/-- The number of decimal digits of a whole number, one for zero. -/
def digitCount (n : Nat) : Nat :=
  (Nat.toDigits 10 n).length

/-- The number nearest to `digits * 10 ^ exponent`.  Exponents out of all range are cut before any
power is computed. -/
def ofDecimal (negative : Bool) (digits : Nat) (exponent : Int) : Binary64 :=
  if digits = 0 then .finite negative 0 0
  else
    let magnitude := exponent + digitCount digits
    if 400 < magnitude then .infinite negative
    else if magnitude < -400 then .finite negative 0 0
    else ofFraction negative ((Fraction.mk digits 1).scale 10 exponent)

/-- A number with a sign in front of it. -/
def withSign (negative : Bool) : Binary64 → Binary64
  | .finite sign mantissa exponent => .finite (sign != negative) mantissa exponent
  | .infinite sign => .infinite (sign != negative)
  | .nan => .nan

/-- The magnitude of `mantissa * 2 ^ exponent`. -/
def magnitude (mantissa : Nat) (exponent : Int) : Fraction :=
  (Fraction.mk mantissa 1).scale 2 exponent

/-- The number nearest to a sum.  A sum of zero is below zero only if both parts are. -/
def add : Binary64 → Binary64 → Binary64
  | .finite s m e, .finite t n f =>
      let p := magnitude m e
      let q := magnitude n f
      let signed (negative : Bool) (size : Nat) : Int := if negative then -size else size
      let sum := signed s (p.num * q.den) + signed t (q.num * p.den)
      if sum = 0 then .finite (s && t) 0 0
      else ofFraction (decide (sum < 0)) ⟨sum.natAbs, p.den * q.den⟩
  | .infinite s, .infinite t => if s = t then .infinite s else .nan
  | .infinite s, .finite _ _ _ => .infinite s
  | .finite _ _ _, .infinite t => .infinite t
  | .nan, _ => .nan
  | _, .nan => .nan

/-- The number nearest to a product. -/
def mul : Binary64 → Binary64 → Binary64
  | .finite s m e, .finite t n f =>
      let p := magnitude m e
      let q := magnitude n f
      ofFraction (s != t) ⟨p.num * q.num, p.den * q.den⟩
  | .infinite s, .infinite t => .infinite (s != t)
  | .infinite s, .finite t n _ => if n = 0 then .nan else .infinite (s != t)
  | .finite s m _, .infinite t => if m = 0 then .nan else .infinite (s != t)
  | .nan, _ => .nan
  | _, .nan => .nan

/-- The number nearest to a whole number, if it is finite. -/
def ofNat? (n : Nat) : Option Binary64 :=
  match ofFraction false ⟨n, 1⟩ with
  | .finite negative mantissa exponent => some (.finite negative mantissa exponent)
  | _ => none

/-- The sum of numbers scaled by a unit, which grows sixtyfold from one to the next; none if a unit
is too large. -/
def sumSixtieths (total : Binary64) (unit : Nat) : List Binary64 → Option Binary64
  | [] => some total
  | part :: rest =>
      match ofNat? unit with
      | some scale => sumSixtieths (total.add (part.mul scale)) (unit * 60) rest
      | none => none

/-- The number that parts of base sixty denote, most significant part first. -/
def ofSixtieths? (parts : List Binary64) : Option Binary64 :=
  sumSixtieths (.finite false 0 0) 1 parts.reverse

/-- The whole number that a number is, if it is one. -/
def toInt? : Binary64 → Option Int
  | .finite negative mantissa exponent =>
      let sign : Int := if negative then -1 else 1
      if 0 ≤ exponent then some (sign * (mantissa * Nat.pow 2 exponent.toNat : Nat))
      else
        let unit := Nat.pow 2 (-exponent).toNat
        if mantissa % unit = 0 then some (sign * (mantissa / unit : Nat)) else none
  | _ => none

/-- The decimal with `count` digits that is read back as the number `mantissa * 2 ^ exponent`, whose
value is `value` and has `whole` digits before the point: its digits and its exponent.  Of two the
nearer one is taken, the even one of two equally near. -/
def decimalWith? (mantissa : Nat) (exponent : Int) (value : Fraction) (whole : Int) (count : Nat) :
    Option (Nat × Int) :=
  let power := whole - count
  let scaled := value.scale 10 (-power)
  let low := scaled.num / scaled.den
  let isBack (digits : Nat) : Bool :=
    decide (ofDecimal false digits power = .finite false mantissa exponent)
  match isBack low, isBack (low + 1) with
  | true, true => some (scaled.round, power)
  | true, false => some (low, power)
  | false, true => some (low + 1, power)
  | false, false => none

/-- The number of digits before the point of a positive fraction; not positive for leading zeros. -/
def wholeDigits (q : Fraction) : Int :=
  let guess : Int := (digitCount q.num : Int) - digitCount q.den
  let reaches (power : Int) : Bool :=
    let scaled := q.scale 10 (-power)
    decide (scaled.den ≤ scaled.num)
  if reaches guess then guess + 1 else guess

/-- The fewest digits that are read back as a positive number, and the exponent of the last one. -/
def shortest (mantissa : Nat) (exponent : Int) : Nat × Int :=
  let value := (Fraction.mk mantissa 1).scale 2 exponent
  let whole := wholeDigits value
  ((List.range 17).findSome? fun count =>
    decimalWith? mantissa exponent value whole (count + 1)).getD (mantissa, exponent)

/-- A decimal without zeros at the end of its digits. -/
def dropZeros : Nat → Nat → Int → Nat × Int
  | 0, digits, exponent => (digits, exponent)
  | bound + 1, digits, exponent =>
      if digits % 10 = 0 then dropZeros bound (digits / 10) (exponent + 1) else (digits, exponent)

/-- The text of a positive number: positional from 0.0001 up to sixteen digits before the point, and
with an exponent of at least two digits elsewhere. -/
def positiveText (mantissa : Nat) (exponent : Int) : String :=
  let (digits, power) := shortest mantissa exponent
  let (digits, power) := dropZeros 17 digits power
  let text := (Nat.toDigits 10 digits)
  let count : Int := text.length
  let point := count + power
  if -4 < point ∧ point ≤ 16 then
    if point ≤ 0 then
      "0." ++ String.ofList (List.replicate (-point).toNat '0' ++ text)
    else if count ≤ point then
      String.ofList (text ++ List.replicate (point - count).toNat '0') ++ ".0"
    else
      String.ofList (text.take point.toNat) ++ "." ++ String.ofList (text.drop point.toNat)
  else
    let shown := point - 1
    let lead := String.ofList (text.take 1)
    let tail := if text.length ≤ 1 then "" else "." ++ String.ofList (text.drop 1)
    let size := toString shown.natAbs
    lead ++ tail ++ "e" ++ (if shown < 0 then "-" else "+") ++
      (if size.length < 2 then "0" ++ size else size)

/-- The text of a number. -/
def text : Binary64 → String
  | .nan => "nan"
  | .infinite negative => if negative then "-inf" else "inf"
  | .finite negative mantissa exponent =>
      (if negative then "-" else "") ++
        if mantissa = 0 then "0.0" else positiveText mantissa exponent

end Binary64

end ElmSuite
