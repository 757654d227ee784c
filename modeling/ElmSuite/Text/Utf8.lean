import ElmSuite.Text.Quoted

/-!
UTF-8.  A text is written as the bytes of its characters; bytes are read back only if they are well
formed, and a defect names the shortest stretch of bytes that cannot be the start of a character.
-/

namespace ElmSuite.Text

/-- Why a stretch of bytes is no text. -/
inductive Utf8Fault
  | invalidStart
  | invalidContinuation
  | unexpectedEnd
deriving DecidableEq, Repr

/-- The first ill-formed stretch of a byte sequence: `width` bytes from `start`, of which the first
is `lead`. -/
structure Utf8Defect where
  fault : Utf8Fault
  start : Nat
  width : Nat
  lead : UInt8
deriving DecidableEq, Repr

namespace Utf8

/-- A byte that continues a character. -/
def isContinuation (b : UInt8) : Bool :=
  0x80 ≤ b && b < 0xC0

/-- A byte that may follow the lead byte of a three byte character: no overlong forms, no
surrogates. -/
def isSecondOfThree (lead b : UInt8) : Bool :=
  isContinuation b && !(lead == 0xE0 && b < 0xA0) && !(lead == 0xED && 0xA0 ≤ b)

/-- A byte that may follow the lead byte of a four byte character: no overlong forms, nothing above
U+10FFFF. -/
def isSecondOfFour (lead b : UInt8) : Bool :=
  isContinuation b && !(lead == 0xF0 && b < 0x90) && !(lead == 0xF4 && 0x90 ≤ b)

/-- The low six bits of a continuation byte. -/
def payload (b : UInt8) : Nat :=
  b.toNat % 64

/-- The bytes of a text. -/
def encode (text : List Char) : List UInt8 :=
  text.flatMap String.utf8EncodeChar

/-- The text of well-formed bytes that stand at `start`, or their first defect. -/
def decodeFrom (start : Nat) : List UInt8 → Except Utf8Defect (List Char)
  | [] => .ok []
  | lead :: rest =>
      if lead < 0x80 then
        (decodeFrom (start + 1) rest).map (Char.ofNat lead.toNat :: ·)
      else if lead < 0xC2 || 0xF5 ≤ lead then
        .error ⟨.invalidStart, start, 1, lead⟩
      else if lead < 0xE0 then
        match rest with
        | [] => .error ⟨.unexpectedEnd, start, 1, lead⟩
        | second :: rest =>
            if isContinuation second then
              (decodeFrom (start + 2) rest).map
                (Char.ofNat (lead.toNat % 32 * 64 + payload second) :: ·)
            else .error ⟨.invalidContinuation, start, 1, lead⟩
      else if lead < 0xF0 then
        match rest with
        | [] => .error ⟨.unexpectedEnd, start, 1, lead⟩
        | second :: rest =>
            if isSecondOfThree lead second then
              match rest with
              | [] => .error ⟨.unexpectedEnd, start, 2, lead⟩
              | third :: rest =>
                  if isContinuation third then
                    (decodeFrom (start + 3) rest).map
                      (Char.ofNat
                        ((lead.toNat % 16 * 64 + payload second) * 64 + payload third) :: ·)
                  else .error ⟨.invalidContinuation, start, 2, lead⟩
            else .error ⟨.invalidContinuation, start, 1, lead⟩
      else
        match rest with
        | [] => .error ⟨.unexpectedEnd, start, 1, lead⟩
        | second :: rest =>
            if isSecondOfFour lead second then
              match rest with
              | [] => .error ⟨.unexpectedEnd, start, 2, lead⟩
              | third :: rest =>
                  if isContinuation third then
                    match rest with
                    | [] => .error ⟨.unexpectedEnd, start, 3, lead⟩
                    | fourth :: rest =>
                        if isContinuation fourth then
                          (decodeFrom (start + 4) rest).map
                            (Char.ofNat (((lead.toNat % 8 * 64 + payload second) * 64
                              + payload third) * 64 + payload fourth) :: ·)
                        else .error ⟨.invalidContinuation, start, 3, lead⟩
                  else .error ⟨.invalidContinuation, start, 2, lead⟩
            else .error ⟨.invalidContinuation, start, 1, lead⟩

/-- The text of well-formed bytes, or their first defect. -/
def decode (bytes : List UInt8) : Except Utf8Defect (List Char) :=
  decodeFrom 0 bytes

end Utf8

/-- The words for a fault. -/
def Utf8Fault.message : Utf8Fault → String
  | .invalidStart => "invalid start byte"
  | .invalidContinuation => "invalid continuation byte"
  | .unexpectedEnd => "unexpected end of data"

/-- The message for a defect; a single byte is shown, several are given by their first and last
position. -/
def Utf8Defect.message (d : Utf8Defect) : String :=
  if d.width ≤ 1 then
    "'utf-8' codec can't decode byte 0x" ++ String.ofList (hexDigits 2 d.lead.toNat) ++
      " in position " ++ toString d.start ++ ": " ++ d.fault.message
  else
    "'utf-8' codec can't decode bytes in position " ++ toString d.start ++ "-" ++
      toString (d.start + d.width - 1) ++ ": " ++ d.fault.message

/-- The defect as a reader reports it that takes the file piece by piece: what is cut off by the end
of the file is only noticed when the last piece is closed, so it is counted from there. -/
def Utf8Defect.inPieces (d : Utf8Defect) : Utf8Defect :=
  match d.fault with
  | .unexpectedEnd => { d with start := 0 }
  | _ => d

/-- A text with every line end (`\r\n`, `\r` or `\n`) written as `\n`. -/
def normalizeNewlines : List Char → List Char
  | [] => []
  | '\r' :: '\n' :: rest => '\n' :: normalizeNewlines rest
  | '\r' :: rest => '\n' :: normalizeNewlines rest
  | c :: rest => c :: normalizeNewlines rest

end ElmSuite.Text
