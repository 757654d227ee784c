import ElmSuite.Failure
import ElmSuite.OrderedMap
import ElmSuite.Text.Digits
import ElmSuite.Text.Reading

/-!
Templates: text with holes, written as a name in double braces.  Filling a template replaces all its
holes at once, so a value is never searched for holes again.
-/

namespace ElmSuite.Template

/-- A piece of a template. -/
inductive Piece
  | char (c : Char)
  | hole (name : String)
deriving DecidableEq, Repr

/-- The name of the hole that a text starts with, and what follows it. -/
def holeAt? : List Char → Option (String × List Char)
  | '{' :: '{' :: inner =>
      let named := inner.dropWhile Text.isBlank
      let name := named.takeWhile Text.isWord
      match (named.dropWhile Text.isWord).dropWhile Text.isBlank with
      | '}' :: '}' :: rest => if name.isEmpty then none else some (String.ofList name, rest)
      | _ => none
  | _ => none

theorem length_of_holeAt? {text rest : List Char} {name : String}
    (h : holeAt? text = some (name, rest)) : rest.length < text.length := by
  unfold holeAt? at h
  split at h
  · next inner =>
    dsimp only at h
    split at h
    · next after heq =>
      split at h
      · cases h
      · have h1 := Text.length_dropWhile_le Text.isBlank inner
        have h2 := Text.length_dropWhile_le Text.isWord (inner.dropWhile Text.isBlank)
        have h3 := Text.length_dropWhile_le Text.isBlank
          ((inner.dropWhile Text.isBlank).dropWhile Text.isWord)
        rw [heq] at h3
        simp only [Option.some.injEq, Prod.mk.injEq] at h
        obtain ⟨-, rfl⟩ := h
        simp only [List.length_cons] at h3 ⊢
        omega
    · cases h
  · cases h

/-- The pieces of a template, from left to right. -/
def pieces : List Char → List Piece
  | [] => []
  | c :: rest =>
      match h : holeAt? (c :: rest) with
      | some (name, after) =>
          have := length_of_holeAt? h
          .hole name :: pieces after
      | none => .char c :: pieces rest
termination_by text => text.length
decreasing_by
  · assumption
  · exact Nat.lt_succ_self _

/-- The name of a hole. -/
def Piece.name? : Piece → Option String
  | .hole name => some name
  | .char _ => none

/-- The names of the holes of a template, each once. -/
def holeNames (template : List Char) : List String :=
  ((pieces template).filterMap Piece.name?).eraseDups

/-- What a piece is replaced by. -/
def Piece.fill (values : OrderedMap String (List Char)) : Piece → List Char
  | .char c => [c]
  | .hole name => (values.get? name).getD []

/-- The template with its holes filled.  Every hole needs a value, and every value a hole. -/
def render (template : List Char) (values : OrderedMap String (List Char)) (name : Option String) :
    Except Failure (List Char) :=
  let names := holeNames template
  let missing := names.filter fun hole => !values.contains hole
  let unused := values.keys.filter fun key => !names.contains key
  if missing.isEmpty && unused.isEmpty then
    .ok ((pieces template).flatMap (Piece.fill values))
  else .error (.templateMismatch missing unused name)

end ElmSuite.Template
