import ElmSuite.Text.Digits

/-!
Dates and times as plain scalars write them.
-/

namespace ElmSuite.Yaml

/-- A distance from universal time. -/
structure ZoneOffset where
  west : Bool
  hours : Nat
  minutes : Nat
deriving DecidableEq, Repr

/-- A time of day; the fraction of a second is in millionths. -/
structure TimeOfDay where
  hour : Nat
  minute : Nat
  second : Nat
  micros : Nat
  zone : Option ZoneOffset
deriving DecidableEq, Repr

/-- A date, or a date with a time. -/
structure Timestamp where
  year : Nat
  month : Nat
  day : Nat
  time : Option TimeOfDay
deriving DecidableEq, Repr

namespace Timestamp

/-- Between `least` and `most` digits, as many as there are: how many, their number, and the
rest. -/
def digits? (least most : Nat) (text : List Char) : Option (Nat × Nat × List Char) :=
  let found := (text.take most).takeWhile Text.isAsciiDigit
  if least ≤ found.length then
    some (found.length, Text.ofDigits 10 (found.filterMap (Text.digitValue? 10)),
      text.drop found.length)
  else none

/-- The rest of a text after a character. -/
def past? (c : Char) : List Char → Option (List Char)
  | d :: rest => if d = c then some rest else none
  | [] => none

/-- White space inside a line. -/
def isBlank (c : Char) : Bool :=
  c == ' ' || c == '\t'

/-- The millionths that the digits behind a point stand for. -/
def microsOf (digits : List Char) : Nat :=
  let six := (digits ++ List.replicate 6 '0').take 6
  Text.ofDigits 10 (six.filterMap (Text.digitValue? 10))

/-- A distance from universal time up to the end of a text. -/
def zone? : List Char → Option ZoneOffset
  | ['Z'] => some ⟨false, 0, 0⟩
  | sign :: rest => do
      if sign != '+' && sign != '-' then failure
      let (_, hours, rest) ← digits? 1 2 rest
      if rest.isEmpty then return ⟨sign == '-', hours, 0⟩
      let (_, minutes, rest) ← digits? 2 2 (← past? ':' rest)
      if rest.isEmpty then return ⟨sign == '-', hours, minutes⟩ else failure
  | [] => none

/-- A time of day up to the end of a text. -/
def time? (text : List Char) : Option TimeOfDay := do
  let (_, hour, rest) ← digits? 1 2 text
  let (_, minute, rest) ← digits? 2 2 (← past? ':' rest)
  let (_, second, rest) ← digits? 2 2 (← past? ':' rest)
  let (fraction, rest) := match rest with
    | '.' :: rest => (rest.takeWhile Text.isAsciiDigit, rest.dropWhile Text.isAsciiDigit)
    | rest => ([], rest)
  let time (zone : Option ZoneOffset) : TimeOfDay := ⟨hour, minute, second, microsOf fraction, zone⟩
  if rest.isEmpty then return time none
  return time (some (← zone? (rest.dropWhile isBlank)))

/-- The date, or the date with a time, that a whole text writes.  A date alone needs two digits for
month and day unless `short` allows less. -/
def ofText? (short : Bool) (text : List Char) : Option Timestamp := do
  let (_, year, rest) ← digits? 4 4 text
  let (monthWidth, month, rest) ← digits? 1 2 (← past? '-' rest)
  let (dayWidth, day, rest) ← digits? 1 2 (← past? '-' rest)
  match rest with
  | [] =>
      if short || (monthWidth == 2 && dayWidth == 2) then return ⟨year, month, day, none⟩
      else none
  | c :: after =>
      let clock ←
        if c == 'T' || c == 't' then some after
        else if isBlank c then some (after.dropWhile isBlank)
        else none
      return ⟨year, month, day, some (← time? clock)⟩

/-- Whether a year has a day more. -/
def isLeap (year : Nat) : Bool :=
  year % 4 == 0 && (year % 100 != 0 || year % 400 == 0)

/-- The number of days of a month. -/
def daysIn (year month : Nat) : Nat :=
  if month = 2 then if isLeap year then 29 else 28
  else if [4, 6, 9, 11].contains month then 30
  else 31

/-- The number of minutes of a day. -/
def dayMinutes : Nat := 24 * 60

/-- What is wrong with a distance of a day or more. -/
def zoneFault? (zone : ZoneOffset) : Option String :=
  let minutes := 60 * zone.hours + zone.minutes
  if minutes < dayMinutes then none
  else
    let (days, left) : Int × Nat :=
      if !zone.west then (minutes / dayMinutes, minutes % dayMinutes)
      else
        let whole := (minutes + dayMinutes - 1) / dayMinutes
        (-whole, whole * dayMinutes - minutes)
    let rest := if left = 0 then "" else ", seconds=" ++ toString (60 * left)
    some ("offset must be a timedelta strictly between -timedelta(hours=24) and " ++
      "timedelta(hours=24), not datetime.timedelta(days=" ++ toString days ++ rest ++ ").")

/-- What is wrong with a timestamp that no calendar or clock has. -/
def fault? (t : Timestamp) : Option String :=
  if let some words := (t.time.bind TimeOfDay.zone).bind zoneFault? then some words
  else if t.year = 0 then some "year 0 is out of range"
  else if t.month = 0 ∨ 12 < t.month then some "month must be in 1..12"
  else if t.day = 0 ∨ daysIn t.year t.month < t.day then some "day is out of range for month"
  else
    match t.time with
    | none => none
    | some time =>
        if 23 < time.hour then some "hour must be in 0..23"
        else if 59 < time.minute then some "minute must be in 0..59"
        else if 59 < time.second then some "second must be in 0..59"
        else none

/-- The number of days of the months of a year before one of them. -/
def daysBefore (year month : Nat) : Nat :=
  ((List.range (month - 1)).map fun before => daysIn year (before + 1)).foldl (· + ·) 0

/-- The number of days up to a date. -/
def dayNumber (year month day : Nat) : Nat :=
  let past := year - 1
  365 * past + past / 4 - past / 100 + past / 400 + daysBefore year month + day

/-- The number of minutes by which a clock is ahead of universal time. -/
def ZoneOffset.ahead (zone : ZoneOffset) : Int :=
  let minutes : Int := 60 * zone.hours + zone.minutes
  if zone.west then -minutes else minutes

/-- The moment in universal time that a date and a time with a zone name, in millionths of a
second. -/
def moment? (t : Timestamp) : Option Int := do
  let time ← t.time
  let zone ← time.zone
  let minutes : Int := dayMinutes * dayNumber t.year t.month t.day + 60 * time.hour + time.minute
  return ((minutes - ZoneOffset.ahead zone) * 60 + time.second) * 1000000 + time.micros

/-- Whether two timestamps are the same: both name one moment, or neither names a moment and they
agree in all parts. -/
def isSame (s t : Timestamp) : Bool :=
  match s.moment?, t.moment? with
  | some m, some n => m == n
  | none, none => s == t
  | _, _ => false

/-- A number with leading zeros. -/
def padded (width n : Nat) : String :=
  let digits := Nat.toDigits 10 n
  String.ofList (List.replicate (width - digits.length) '0' ++ digits)

/-- The text of a distance from universal time. -/
def zoneText (zone : ZoneOffset) : String :=
  let minutes := 60 * zone.hours + zone.minutes
  (if zone.west && minutes != 0 then "-" else "+") ++ padded 2 (minutes / 60) ++ ":" ++
    padded 2 (minutes % 60)

/-- The text of a timestamp. -/
def text (t : Timestamp) : String :=
  let date := padded 4 t.year ++ "-" ++ padded 2 t.month ++ "-" ++ padded 2 t.day
  match t.time with
  | none => date
  | some time =>
      let clock := padded 2 time.hour ++ ":" ++ padded 2 time.minute ++ ":" ++ padded 2 time.second
      let fraction := if time.micros = 0 then "" else "." ++ padded 6 time.micros
      date ++ " " ++ clock ++ fraction ++ (time.zone.map zoneText).getD ""

end Timestamp

end ElmSuite.Yaml
