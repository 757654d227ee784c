import ElmSuite.Text.Reading

/-!
Control sequences of terminals, such as those that set a colour.  What the program prints holds none
of them.
-/

namespace ElmSuite.Text

/-- A character of the parameters of a control sequence. -/
def isControlParameter (c : Char) : Bool :=
  ('0' ≤ c && c ≤ '9') || c == ';' || c == '?'

/-- A letter that ends a control sequence. -/
def isControlLetter (c : Char) : Bool :=
  ('a' ≤ c && c ≤ 'z') || ('A' ≤ c && c ≤ 'Z')

/-- What follows a control sequence: an escape character with a bracket, parameters, and a
letter. -/
def afterControl? (text : List Char) : Option (List Char) := do
  match (← after? ['\x1b', '['] text).dropWhile isControlParameter with
  | c :: rest => if isControlLetter c then some rest else none
  | [] => none

theorem length_of_afterControl? {text rest : List Char} (h : afterControl? text = some rest) :
    rest.length < text.length := by
  simp only [afterControl?, Option.bind_eq_bind, Option.bind_eq_some_iff] at h
  obtain ⟨inner, hinner, hrest⟩ := h
  have hlead := length_of_after? hinner
  have hdrop := length_dropWhile_le isControlParameter inner
  split at hrest
  · next c more hmore =>
    split at hrest
    · simp only [Option.some.injEq] at hrest
      rw [hmore, List.length_cons] at hdrop
      subst hrest
      omega
    · cases hrest
  · cases hrest

/-- The text without its control sequences. -/
def withoutControls (text : List Char) : List Char :=
  match text with
  | [] => []
  | c :: rest =>
      match h : afterControl? (c :: rest) with
      | some after =>
          have : after.length < (c :: rest).length := length_of_afterControl? h
          withoutControls after
      | none => c :: withoutControls rest
termination_by text.length
decreasing_by
  · assumption
  · exact Nat.lt_succ_self _

/-- The text as the program prints it. -/
def printed (text : String) : String :=
  String.ofList (withoutControls text.toList)

end ElmSuite.Text
