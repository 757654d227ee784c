import ElmSuite.Text.Blank

/-!
Small steps of reading a text, most of them from its start: these give what follows, if the text
starts that way.
-/

namespace ElmSuite.Text

/-- What follows a fixed text. -/
def after? (lead : List Char) (text : List Char) : Option (List Char) :=
  if lead.isPrefixOf text then some (text.drop lead.length) else none

/-- What follows white space, of which there has to be some. -/
def afterBlanks? : List Char → Option (List Char)
  | [] => none
  | c :: rest => if isBlank c then some (rest.dropWhile isBlank) else none

/-- What follows any white space and then a fixed text.  The white space is taken as long as it
leaves the fixed text. -/
def afterBlanksThen? (lead : List Char) : List Char → Option (List Char)
  | [] => after? lead []
  | c :: rest =>
      match if isBlank c then afterBlanksThen? lead rest else none with
      | some found => some found
      | none => after? lead (c :: rest)

/-- A text without one line end behind it. -/
def withoutLineEnd (text : List Char) : List Char :=
  if text.getLast? = some '\n' then text.dropLast else text

theorem length_dropWhile_le (p : Char → Bool) (text : List Char) :
    (text.dropWhile p).length ≤ text.length :=
  (List.dropWhile_sublist p).length_le

theorem length_of_after? {lead text rest : List Char} (h : after? lead text = some rest) :
    text.length = lead.length + rest.length := by
  unfold after? at h
  split at h
  · next hlead =>
    obtain ⟨more, rfl⟩ := List.isPrefixOf_iff_prefix.1 hlead
    simp only [List.drop_left, Option.some.injEq] at h
    rw [h, List.length_append]
  · cases h

theorem length_of_afterBlanks? {text rest : List Char} (h : afterBlanks? text = some rest) :
    rest.length < text.length := by
  unfold afterBlanks? at h
  split at h
  · cases h
  · next c more =>
    split at h
    · simp only [Option.some.injEq] at h
      have := length_dropWhile_le isBlank more
      simp only [List.length_cons, ← h]
      omega
    · cases h

theorem length_of_afterBlanksThen? {lead text rest : List Char}
    (h : afterBlanksThen? lead text = some rest) : lead.length + rest.length ≤ text.length := by
  induction text with
  | nil =>
      rw [afterBlanksThen?] at h
      exact Nat.le_of_eq (length_of_after? h).symm
  | cons c more ih =>
      rw [afterBlanksThen?] at h
      split at h
      · next found hfound =>
        split at hfound
        · have := ih (hfound.trans h)
          simp only [List.length_cons]
          omega
        · cases hfound
      · exact Nat.le_of_eq (length_of_after? h).symm

end ElmSuite.Text
