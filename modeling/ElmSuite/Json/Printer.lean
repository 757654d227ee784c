import ElmSuite.Json.Value

/-!
The written form of JSON values: four spaces for every level, one member or item a line, nothing
inside empty brackets.
-/

namespace ElmSuite.Json

/-- The letter that stands for a character after a backslash, if there is one. -/
def shortEscape? (c : Char) : Option Char :=
  if c = '"' then some '"'
  else if c = '\\' then some '\\'
  else if c = '\x08' then some 'b'
  else if c = '\x0c' then some 'f'
  else if c = '\n' then some 'n'
  else if c = '\r' then some 'r'
  else if c = '\t' then some 't'
  else none

/-- A character inside a written string. -/
def writtenChar (c : Char) : List Char :=
  match shortEscape? c with
  | some letter => ['\\', letter]
  | none => if c.toNat < 0x20 then '\\' :: 'u' :: Text.hexDigits 4 c.toNat else [c]

/-- A written string. -/
def writtenString (text : List Char) : List Char :=
  '"' :: (text.flatMap writtenChar ++ ['"'])

/-- The start of a line at a level. -/
def lineStart (level : Nat) : List Char :=
  '\n' :: List.replicate (4 * level) ' '

/-- Pieces between brackets, one a line. -/
def bracketed (opening closing : Char) (level : Nat) (pieces : List (List Char)) : List Char :=
  if pieces.isEmpty then [opening, closing]
  else
    let lines := pieces.map fun piece => lineStart (level + 1) ++ piece
    opening :: ((List.intersperse [','] lines).flatten ++ lineStart level ++ [closing])

mutual

/-- The written form of a value at a level.  Numbers that are no JSON numbers are written as
`null`. -/
def written (level : Nat) : Json → List Char
  | .null => "null".toList
  | .bool value => (if value then "true" else "false").toList
  | .int value => (toString value).toList
  | .float value =>
      match value with
      | .finite _ _ _ => value.text.toList
      | _ => "null".toList
  | .string codes => writtenString codes.lossy.toList
  | .list items => bracketed '[' ']' level (writtenItems level items)
  | .object members => bracketed '\x7b' '\x7d' level (writtenMembers level members)

/-- The written items of a list. -/
def writtenItems (level : Nat) : List Json → List (List Char)
  | [] => []
  | item :: rest => item.written (level + 1) :: writtenItems level rest

/-- The written members of an object. -/
def writtenMembers (level : Nat) : List (Codes × Json) → List (List Char)
  | [] => []
  | (name, value) :: rest =>
      (writtenString name.lossy.toList ++ ':' :: ' ' :: value.written (level + 1)) ::
        writtenMembers level rest

end

mutual

/-- The first stretch of surrogates in the strings of a value, its names not counted. -/
def surrogates? : Json → Option SurrogateDefect
  | .string codes => codes.surrogates?
  | .list items => surrogatesOfItems? items
  | .object members => surrogatesOfMembers? members
  | _ => none

/-- The first stretch of surrogates in the items of a list. -/
def surrogatesOfItems? : List Json → Option SurrogateDefect
  | [] => none
  | item :: rest => item.surrogates?.or (surrogatesOfItems? rest)

/-- The first stretch of surrogates in the members of an object. -/
def surrogatesOfMembers? : List (Codes × Json) → Option SurrogateDefect
  | [] => none
  | (_, value) :: rest => value.surrogates?.or (surrogatesOfMembers? rest)

end

/-- The text of a value, on lines of its own. -/
def print (value : Json) : List Char :=
  value.written 0 ++ ['\n']

end ElmSuite.Json
