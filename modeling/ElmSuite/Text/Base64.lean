/-!
Bytes written with sixty-four characters, four of them for three bytes.  Other characters are passed
over, and an equals sign fills up the last four.
-/

namespace ElmSuite.Text.Base64

/-- The value of a character. -/
def value? (c : Char) : Option Nat :=
  if 'A' ≤ c && c ≤ 'Z' then some (c.toNat - 'A'.toNat)
  else if 'a' ≤ c && c ≤ 'z' then some (c.toNat - 'a'.toNat + 26)
  else if '0' ≤ c && c ≤ '9' then some (c.toNat - '0'.toNat + 52)
  else if c = '+' then some 62
  else if c = '/' then some 63
  else none

/-- The bytes of a text from a place inside a group of four: `filled` characters of it are known,
the last one has left over `carry`, and `pads` equals signs have been seen behind it. -/
def decodeFrom (filled carry pads : Nat) : List Char → Option (List UInt8)
  | [] => if filled = 0 then some [] else none
  | c :: rest =>
      if c = '=' then
        if 2 ≤ filled then
          if 4 ≤ filled + pads + 1 then some [] else decodeFrom filled carry (pads + 1) rest
        else decodeFrom filled carry pads rest
      else
        match value? c, filled with
        | none, _ => decodeFrom filled carry pads rest
        | some v, 0 => decodeFrom 1 v 0 rest
        | some v, 1 => (decodeFrom 2 (v % 16) 0 rest).map (UInt8.ofNat (carry * 4 + v / 16) :: ·)
        | some v, 2 => (decodeFrom 3 (v % 4) 0 rest).map (UInt8.ofNat (carry * 16 + v / 4) :: ·)
        | some v, _ => (decodeFrom 0 0 0 rest).map (UInt8.ofNat (carry * 64 + v) :: ·)

/-- The bytes that a text writes. -/
def decode (text : List Char) : Option (List UInt8) :=
  decodeFrom 0 0 0 text

end ElmSuite.Text.Base64
