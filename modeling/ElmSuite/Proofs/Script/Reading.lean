import Mathlib.Computability.Language
import ElmSuite.Proofs.Elm.WhiteSpace

/-!
Languages and the steps that read them.  A step of reading takes a word of a language off the start of
a text, and there is only one way to do so; steps that follow each other read the product of their
languages.
-/

namespace ElmSuite.Text

/-- Texts of characters of one kind, the empty text among them. -/
def runs (p : Char → Bool) : Language Char :=
  {text | ∀ c ∈ text, p c = true}

/-- Texts of at least one character of a kind. -/
def someRuns (p : Char → Bool) : Language Char :=
  {text | text ≠ [] ∧ ∀ c ∈ text, p c = true}

/-- A fixed text. -/
def literal (text : String) : Language Char :=
  {text.toList}

/-- A single character. -/
def mark (c : Char) : Language Char :=
  {[c]}

/-- Any white space. -/
abbrev blanks : Language Char :=
  runs isBlank

/-- A step of reading takes the words of a language off the start of a text. -/
def Reads (read : List Char → Option (List Char)) (words : Language Char) : Prop :=
  ∀ text rest, read text = some rest ↔ ∃ word ∈ words, text = word ++ rest

/-- The words of a language start with a character that is not of a kind. -/
def StartsOff (p : Char → Bool) (words : Language Char) : Prop :=
  ∀ word ∈ words, ∃ c rest, word = c :: rest ∧ p c = false

variable {read next : List Char → Option (List Char)} {words more : Language Char}
  {p : Char → Bool} {text rest word : List Char}

theorem mem_runs : word ∈ runs p ↔ ∀ c ∈ word, p c = true :=
  Iff.rfl

theorem mem_someRuns : word ∈ someRuns p ↔ word ≠ [] ∧ ∀ c ∈ word, p c = true :=
  Iff.rfl

/-- What holds of every letter of a closed word is checked letter by letter. -/
theorem forall_of_all {P : Char → Prop} [DecidablePred P] (h : (word.all fun c => decide (P c)) = true) :
    ∀ c ∈ word, P c := by
  simpa using h

theorem startsOff_mark {c : Char} (h : p c = false) : StartsOff p (mark c) := by
  rintro word rfl
  exact ⟨c, [], rfl, h⟩

theorem startsOff_literal {fixed : String} (h : ∃ c rest, fixed.toList = c :: rest ∧ p c = false) :
    StartsOff p (literal fixed) := by
  rintro word rfl
  exact h

/-- A product starts with a word of its first language. -/
theorem StartsOff.mul (h : StartsOff p words) (more : Language Char) : StartsOff p (words * more) := by
  intro word hword
  obtain ⟨first, hfirst, second, -, rfl⟩ := Language.mem_mul.1 hword
  obtain ⟨c, rest, rfl, hc⟩ := h first hfirst
  exact ⟨c, rest ++ second, rfl, hc⟩

theorem StartsOff.add (hwords : StartsOff p words) (hmore : StartsOff p more) :
    StartsOff p (words + more) := by
  intro word hword
  rcases (Language.mem_add _ _ _).1 hword with hword | hword
  · exact hwords word hword
  · exact hmore word hword

/-- White space that may be left out in front of a language starts with what both start with. -/
theorem StartsOff.blanks_mul (hblank : ∀ c, isBlank c = true → p c = false) (h : StartsOff p words) :
    StartsOff p (blanks * words) := by
  intro word hword
  obtain ⟨gap, hgap, tail, htail, rfl⟩ := Language.mem_mul.1 hword
  cases gap with
  | nil => exact h tail htail
  | cons c gap => exact ⟨c, gap ++ tail, rfl, hblank c (hgap c List.mem_cons_self)⟩

/-- What is read does not depend on how it is read. -/
theorem Reads.congr {other : List Char → Option (List Char)} (h : Reads read words)
    (heq : ∀ text, other text = read text) : Reads other words := by
  intro text rest
  rw [heq]
  exact h text rest

theorem reads_after? (lead : List Char) : Reads (after? lead) ({lead} : Language Char) := by
  intro text rest
  constructor
  · exact fun h => ⟨lead, rfl, Elm.eq_append_of_after? h⟩
  · rintro ⟨_, rfl, rfl⟩
    rw [after?, if_pos (List.isPrefixOf_iff_prefix.2 (List.prefix_append _ _)), List.drop_left]

theorem reads_literal (fixed : String) : Reads (after? fixed.toList) (literal fixed) :=
  reads_after? fixed.toList

theorem reads_mark (c : Char) : Reads (after? [c]) (mark c) :=
  reads_after? [c]

/-- Steps one after the other. -/
theorem Reads.bind (hread : Reads read words) (hnext : Reads next more) :
    Reads (fun text => (read text).bind next) (words * more) := by
  intro text rest
  simp only [Option.bind_eq_some_iff, Language.mem_mul]
  constructor
  · rintro ⟨between, hbetween, hrest⟩
    obtain ⟨first, hfirst, rfl⟩ := (hread _ _).1 hbetween
    obtain ⟨second, hsecond, rfl⟩ := (hnext _ _).1 hrest
    exact ⟨first ++ second, ⟨first, hfirst, second, hsecond, rfl⟩, by rw [List.append_assoc]⟩
  · rintro ⟨_, ⟨first, hfirst, second, hsecond, rfl⟩, rfl⟩
    refine ⟨second ++ rest, (hread _ _).2 ⟨first, hfirst, List.append_assoc _ _ _⟩, ?_⟩
    exact (hnext _ _).2 ⟨second, hsecond, rfl⟩

/-- A step with another one in case it fails, where no text starts with words of both. -/
theorem Reads.orElse (hread : Reads read words) (hnext : Reads next more)
    (hapart : ∀ first ∈ words, ∀ second ∈ more, ∀ rest rest', first ++ rest ≠ second ++ rest') :
    Reads (fun text => (read text).orElse fun _ => next text) (words + more) := by
  intro text rest
  have hboth : ∀ found, read text = some found → next text = none := by
    intro found hfound
    obtain ⟨first, hfirst, rfl⟩ := (hread _ _).1 hfound
    rw [Option.eq_none_iff_forall_ne_some]
    intro other hother
    obtain ⟨second, hsecond, heq⟩ := (hnext _ _).1 hother
    exact hapart first hfirst second hsecond found other heq
  simp only [Language.mem_add, or_and_right, exists_or, ← hread text rest, ← hnext text rest]
  cases hfound : read text with
  | none => simp
  | some found => simp [hboth found hfound]

/-- A run of characters that passes a test is taken as a whole where what has to follow starts with
another character. -/
theorem Reads.skipIf (accepts : List Char → Bool) (h : Reads next more) (hmore : StartsOff p more)
    (hwords : ∀ word, word ∈ words ↔ (accepts word = true ∧ ∀ c ∈ word, p c = true)) :
    Reads (fun text => if accepts (text.takeWhile p) then next (text.dropWhile p) else none)
      (words * more) := by
  intro text rest
  simp only [Language.mem_mul]
  constructor
  · intro hrest
    split at hrest
    · next haccepts =>
      obtain ⟨word, hword, heq⟩ := (h _ _).1 hrest
      refine ⟨text.takeWhile p ++ word, ⟨text.takeWhile p, ?_, word, hword, rfl⟩, ?_⟩
      · exact (hwords _).2 ⟨haccepts, fun c hc => List.mem_takeWhile_imp hc⟩
      · rw [List.append_assoc, ← heq, List.takeWhile_append_dropWhile]
    · cases hrest
  · rintro ⟨_, ⟨run, hrun, word, hword, rfl⟩, rfl⟩
    obtain ⟨haccepts, hrun⟩ := (hwords run).1 hrun
    obtain ⟨c, tail, rfl, hc⟩ := hmore word hword
    have hstop : ¬ p c = true := by simp [hc]
    rw [List.append_assoc, List.takeWhile_append_of_pos hrun, List.dropWhile_append_of_pos hrun,
      List.cons_append, List.takeWhile_cons_of_neg hstop, List.dropWhile_cons_of_neg hstop,
      List.append_nil, if_pos haccepts]
    exact (h _ _).2 ⟨c :: tail, hword, rfl⟩

theorem Reads.skip (h : Reads next more) (hmore : StartsOff p more) :
    Reads (fun text => next (text.dropWhile p)) (runs p * more) :=
  (h.skipIf (fun _ => true) hmore fun word => by simp [mem_runs]).congr fun text => by simp

/-- A run of characters of which there has to be at least one. -/
theorem Reads.skipSome (h : Reads next more) (hmore : StartsOff p more) :
    Reads (fun text => if (text.takeWhile p).isEmpty then none else next (text.dropWhile p))
      (someRuns p * more) :=
  (h.skipIf (fun word => !word.isEmpty) hmore fun word => by simp [mem_someRuns]).congr
    fun text => by cases (text.takeWhile p).isEmpty <;> rfl

theorem afterBlanks?_eq (text : List Char) :
    afterBlanks? text = if (text.takeWhile isBlank).isEmpty then none else some (text.dropWhile isBlank) := by
  cases text with
  | nil => rfl
  | cons c text =>
      rw [Elm.afterBlanks?_cons]
      cases hc : isBlank c <;> simp [hc]

/-- White space of which there has to be some. -/
theorem Reads.afterBlanks (h : Reads next more) (hmore : StartsOff isBlank more) :
    Reads (fun text => (afterBlanks? text).bind next) (someRuns isBlank * more) := by
  refine (h.skipSome hmore).congr fun text => ?_
  rw [afterBlanks?_eq]
  split <;> rfl

/-- White space in front of a fixed text is taken as a whole, if the text does not start with some. -/
theorem afterBlanksThen?_eq {lead : List Char} (h : ∃ c rest, lead = c :: rest ∧ isBlank c = false)
    (text : List Char) : afterBlanksThen? lead text = after? lead (text.dropWhile isBlank) := by
  obtain ⟨first, tail, rfl, hfirst⟩ := h
  induction text with
  | nil => rfl
  | cons c text ih =>
      rw [afterBlanksThen?]
      cases hc : isBlank c with
      | true =>
          have hne : first ≠ c := by
            rintro rfl
            simp [hc] at hfirst
          rw [List.dropWhile_cons_of_pos hc, ← ih]
          cases afterBlanksThen? (first :: tail) text with
          | none => simp [after?, List.isPrefixOf, hne]
          | some found => rfl
      | false => simp [List.dropWhile_cons_of_neg, hc]

theorem reads_afterBlanksThen? {lead : List Char}
    (h : ∃ c rest, lead = c :: rest ∧ isBlank c = false) :
    Reads (afterBlanksThen? lead) (blanks * ({lead} : Language Char)) := by
  refine ((reads_after? lead).skip ?_).congr (afterBlanksThen?_eq h)
  rintro word rfl
  exact h

theorem reads_blanksThenMark {c : Char} (h : isBlank c = false) :
    Reads (afterBlanksThen? [c]) (blanks * mark c) :=
  reads_afterBlanksThen? ⟨c, [], rfl, h⟩

end ElmSuite.Text
